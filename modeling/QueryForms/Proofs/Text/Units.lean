import Mathlib.Data.List.Chain
import Mathlib.Data.List.DropRight
import QueryForms.Proofs.Text.Natural

/-!
# Texts put together

The units of two texts put together are the units of both, unless a run of digits goes on from one
into the other (`units_append`). So the natural order of two texts that begin alike is the order of
what follows (`unitsOrder_append_left`), and a text is less than a longer one that begins with it
(`unitsOrder_of_append`). Different units are never level (`unitOrder_eq_eq_iff`), so neither are
different texts (`naturalOrder_eq_eq_iff`), and texts of digits alone are in the order of numbers
(`naturalOrder_of_digits`).
-/

namespace QueryForms.Text

/-! ## Different units -/

/-- Two texts are level only if they are the same. -/
theorem charOrder_eq_eq_iff {as bs : List Char} : charOrder as bs = .eq ↔ as = bs := by
  induction as generalizing bs with
  | nil => cases bs <;> simp [charOrder]
  | cons a as ih =>
    cases bs with
    | nil => simp [charOrder]
    | cons b bs =>
      rw [charOrder, Ordering.then_eq_eq, Nat.compare_eq_eq, ih, Char.toNat_inj, List.cons.injEq]

/-- A run is the zeros in front of it and the rest. -/
theorem replicate_append_dropZeros (digits : List Char) :
    List.replicate (digits.length - (dropZeros digits).length) '0' ++ dropZeros digits
      = digits := by
  have split : digits.takeWhile (· == '0') ++ dropZeros digits = digits :=
    List.takeWhile_append_dropWhile
  have zeros : ∀ c ∈ digits.takeWhile (· == '0'), c = '0' := by
    intro c hc
    have zero := List.mem_takeWhile_imp (p := (· == '0')) hc
    exact beq_iff_eq.1 zero
  have length := congrArg List.length split
  rw [List.length_append] at length
  rw [← Nat.eq_sub_of_add_eq length, ← List.eq_replicate_of_mem zeros, split]

theorem runOrder_eq_eq_iff {as bs : List Char} : runOrder as bs = .eq ↔ as = bs := by
  rw [runOrder, Ordering.then_eq_eq, Ordering.then_eq_eq, Nat.compare_eq_eq, charOrder_eq_eq_iff,
    Nat.compare_eq_eq]
  refine ⟨?_, fun same => same ▸ ⟨rfl, rfl, rfl⟩⟩
  rintro ⟨-, rest, length⟩
  rw [← replicate_append_dropZeros as, ← replicate_append_dropZeros bs, rest, length]

/-- A run is less than a longer one that begins with it. -/
theorem runOrder_append {digits more : List Char} (filled : more ≠ []) :
    runOrder digits (digits ++ more) = .lt := by
  have longer : compare digits.length (digits ++ more).length = .lt := by
    rw [List.length_append, Nat.compare_eq_lt]
    exact Nat.lt_add_of_pos_right (List.length_pos_iff.2 filled)
  have rest : dropZeros (digits ++ more)
      = if (dropZeros digits).isEmpty then dropZeros more else dropZeros digits ++ more :=
    List.dropWhile_append
  rw [runOrder, longer, rest]
  split
  · next empty =>
    rw [List.isEmpty_iff.1 empty]
    cases dropZeros more with
    | nil => rfl
    | cons c cs =>
      have filled : ([] : List Char).length < (c :: cs).length := Nat.succ_pos _
      rw [Nat.compare_eq_lt.2 filled, Ordering.lt_then]
  · rw [List.length_append,
      Nat.compare_eq_lt.2 (Nat.lt_add_of_pos_right (List.length_pos_iff.2 filled)),
      Ordering.lt_then]

theorem unitOrder_self (u : TextUnit) : unitOrder u u = .eq := by
  cases u with
  | run digits => exact runOrder_eq_eq_iff.2 rfl
  | char c => exact charOrder_eq_eq_iff.2 rfl

/-- Units of texts are level only if they are the same. -/
theorem unitOrder_eq_eq_iff {a b : TextUnit} (ha : a.IsProper) (hb : b.IsProper) :
    unitOrder a b = .eq ↔ a = b := by
  refine ⟨fun level => ?_, fun same => same ▸ unitOrder_self a⟩
  rw [unitOrder_eq ha hb] at level
  obtain ⟨places, runs⟩ := Ordering.then_eq_eq.1 level
  have places : a.place = b.place := Nat.compare_eq_eq.1 places
  have runs : a.digits = b.digits := runOrder_eq_eq_iff.1 runs
  cases a with
  | run as =>
    cases b with
    | run bs => exact congrArg _ runs
    | char c => exact absurd runs ha.1
  | char c =>
    cases b with
    | run bs => exact absurd runs.symm hb.1
    | char d => exact congrArg _ (Char.toNat_inj.1 places)

/-! ## Units of texts -/

theorem units_cons_char {c : Char} (other : c.isDigit = false) (cs : List Char) :
    units (c :: cs) = .char c :: units cs := by
  rw [units, other, if_neg Bool.false_ne_true]

theorem units_cons_digit {c : Char} (digit : c.isDigit = true) (cs : List Char) :
    units (c :: cs) = match units cs with
      | .run digits :: rest => .run (c :: digits) :: rest
      | rest => .run [c] :: rest := by
  rw [units]
  exact if_pos digit

/-- The first unit of a text begins with its first character. -/
theorem exists_units_cons (c : Char) (cs : List Char) :
    ∃ u rest, units (c :: cs) = u :: rest ∧ u.first = some c := by
  cases digit : c.isDigit with
  | false => exact ⟨_, _, units_cons_char digit cs, rfl⟩
  | true =>
    rw [units_cons_digit digit]
    split <;> exact ⟨_, _, rfl, rfl⟩

/-- Whether a unit is a run of digits. -/
def TextUnit.isRun : TextUnit → Bool
  | .run _ => true
  | .char _ => false

/-- The characters of a unit. -/
def TextUnit.chars : TextUnit → List Char
  | .run digits => digits
  | .char c => [c]

/-- A text is what its units spell. -/
theorem flatMap_chars_units (text : List Char) : (units text).flatMap TextUnit.chars = text := by
  induction text with
  | nil => rfl
  | cons c cs ih =>
    cases digit : c.isDigit with
    | false => rw [units_cons_char digit, List.flatMap_cons, ih]; rfl
    | true =>
      rw [units_cons_digit digit]
      split
      · next digits rest later =>
        rw [later] at ih
        exact congrArg (c :: ·) ih
      · exact congrArg (c :: ·) ih

theorem units_injective : Function.Injective units := fun a b same => by
  rw [← flatMap_chars_units a, same, flatMap_chars_units]

/-- Lists of units that stand in texts are level only if they are the same. -/
theorem unitsOrder_eq_eq_iff {as bs : List TextUnit} (ha : ∀ u ∈ as, u.IsProper)
    (hb : ∀ u ∈ bs, u.IsProper) : unitsOrder as bs = .eq ↔ as = bs := by
  induction as generalizing bs with
  | nil => cases bs <;> simp [unitsOrder]
  | cons a as ih =>
    cases bs with
    | nil => simp [unitsOrder]
    | cons b bs =>
      obtain ⟨properA, ha⟩ := List.forall_mem_cons.1 ha
      obtain ⟨properB, hb⟩ := List.forall_mem_cons.1 hb
      rw [unitsOrder, Ordering.then_eq_eq, unitOrder_eq_eq_iff properA properB, ih ha hb,
        List.cons.injEq]

/-- No two texts are level. -/
theorem naturalOrder_eq_eq_iff {a b : String} : naturalOrder a b = .eq ↔ a = b := by
  rw [naturalOrder, unitsOrder_eq_eq_iff (fun _ => isProper_of_mem_units)
    fun _ => isProper_of_mem_units, units_injective.eq_iff, String.toList_inj]

instance : Std.LawfulEqCmp naturalOrder where
  compare_self := naturalOrder_eq_eq_iff.2 rfl
  eq_of_compare := naturalOrder_eq_eq_iff.1

/-- Texts of digits alone are compared as one run. -/
theorem unitsOrder_of_digits {as bs : List Char} (ha : ∀ c ∈ as, c.isDigit = true)
    (hb : ∀ c ∈ bs, c.isDigit = true) : unitsOrder (units as) (units bs) = runOrder as bs := by
  by_cases emptyA : as = []
  · by_cases emptyB : bs = []
    · rw [emptyA, emptyB, runOrder_eq_eq_iff.2 rfl]
      rfl
    · rw [emptyA, units_of_digits emptyB hb]
      exact (runOrder_append emptyB).symm
  · by_cases emptyB : bs = []
    · have swap : runOrder as [] = (runOrder [] as).swap := Std.OrientedCmp.eq_swap
      rw [emptyB, units_of_digits emptyA ha, swap]
      exact (congrArg Ordering.swap (runOrder_append emptyA)).symm
    · rw [units_of_digits emptyA ha, units_of_digits emptyB hb]
      exact Ordering.then_eq

/-- Texts of digits alone are in the order of the numbers that they spell, and of one number the
shorter text is first. -/
theorem naturalOrder_of_digits {a b : String} (ha : ∀ c ∈ a.toList, c.isDigit = true)
    (hb : ∀ c ∈ b.toList, c.isDigit = true) :
    naturalOrder a b = (compare (digitsValue a.toList) (digitsValue b.toList)).then
      (compare a.length b.length) := by
  rw [naturalOrder, unitsOrder_of_digits ha hb, runOrder_eq ha hb, String.length_toList,
    String.length_toList]

/-- A run is as long as can be, so no two runs stand side by side. -/
theorem isChain_units (text : List Char) :
    (units text).IsChain fun u v => u.isRun = true → v.isRun = false := by
  induction text with
  | nil => exact .nil
  | cons c cs ih =>
    cases digit : c.isDigit with
    | false =>
      rw [units_cons_char digit]
      exact List.isChain_cons.2 ⟨nofun, ih⟩
    | true =>
      rw [units_cons_digit digit]
      split
      · next digits rest later =>
        rw [later] at ih
        exact List.isChain_cons.2 (List.isChain_cons.1 ih)
      · next other =>
        refine List.isChain_cons.2 ⟨fun u hu _ => ?_, ih⟩
        cases u with
        | char => rfl
        | run digits =>
          obtain ⟨rest, later⟩ := List.head?_eq_some_iff.1 hu
          exact (other digits rest later).elim

/-- Whether no run of digits goes on from one text into another. -/
def Apart (before after : List Char) : Prop :=
  ∀ c ∈ before.getLast?, ∀ d ∈ after.head?, c.isDigit = true → d.isDigit = false

theorem apart_of_getLast? {before : List Char} (h : ∀ c ∈ before.getLast?, c.isDigit = false)
    (after : List Char) : Apart before after :=
  fun c hc _ _ digit => absurd digit (ne_true_of_eq_false (h c hc))

theorem apart_of_head? {after : List Char} (h : ∀ d ∈ after.head?, d.isDigit = false)
    (before : List Char) : Apart before after :=
  fun _ _ d hd _ => h d hd

theorem apart_nil (before : List Char) : Apart before [] :=
  fun _ _ _ hd => absurd hd (Option.not_mem_none _)

/-- Texts put together have the units of both, if no run goes on. -/
theorem units_append {before after : List Char} (apart : Apart before after) :
    units (before ++ after) = units before ++ units after := by
  induction before with
  | nil => rfl
  | cons c cs ih =>
    rw [List.cons_append]
    cases digit : c.isDigit with
    | false =>
      have later : Apart cs after := by
        cases cs with
        | nil => exact nofun
        | cons => exact apart
      rw [units_cons_char digit, units_cons_char digit, ih later, List.cons_append]
    | true =>
      rw [units_cons_digit digit, units_cons_digit digit]
      cases cs with
      | nil =>
        cases after with
        | nil => rfl
        | cons d ds =>
          have other : d.isDigit = false := apart c rfl d rfl digit
          rw [List.nil_append, units_cons_char other]
          rfl
      | cons e es =>
        -- what comes later has a first unit, which takes the digit in if it is a run
        obtain ⟨u, rest, first, -⟩ := exists_units_cons e es
        rw [ih apart, first]
        cases u <;> rfl

/-- Units in front of others, the same on both sides, make no difference. -/
theorem unitsOrder_append_left (us as bs : List TextUnit) :
    unitsOrder (us ++ as) (us ++ bs) = unitsOrder as bs := by
  induction us with
  | nil => rfl
  | cons u us ih =>
    rw [List.cons_append, List.cons_append, unitsOrder, unitOrder_self, ih]
    rfl

/-- A text without the digits at its end has none there. -/
theorem isDigit_of_mem_getLast?_rdropWhile (text : List Char) :
    ∀ c ∈ (text.rdropWhile Char.isDigit).getLast?, c.isDigit = false := by
  intro c hc
  obtain ⟨filled, rfl⟩ := List.mem_getLast?_eq_getLast hc
  exact Bool.eq_false_iff.2 (List.rdropWhile_last_not _ _ filled)

/-- The digits at the end of a text. -/
theorem exists_trailing (text : List Char) :
    ∃ front digits, text = front ++ digits ∧ (∀ c ∈ digits, c.isDigit = true) ∧
      ∀ c ∈ front.getLast?, c.isDigit = false :=
  ⟨text.rdropWhile Char.isDigit, text.rtakeWhile Char.isDigit,
    (List.rdropWhile_append_rtakeWhile ..).symm, fun _ => List.mem_rtakeWhile_imp,
    isDigit_of_mem_getLast?_rdropWhile text⟩

/-- The digits at the start of a text. -/
theorem exists_leading (text : List Char) :
    ∃ digits back, text = digits ++ back ∧ (∀ c ∈ digits, c.isDigit = true) ∧
      ∀ c ∈ back.head?, c.isDigit = false := by
  refine ⟨text.takeWhile Char.isDigit, text.dropWhile Char.isDigit,
    List.takeWhile_append_dropWhile.symm, fun c => List.mem_takeWhile_imp, fun c hc => ?_⟩
  have first := List.head?_dropWhile_not Char.isDigit text
  rw [hc] at first
  exact first

/-- Where a run of digits that both texts have goes on in one only, that text is greater. -/
theorem unitsOrder_of_open_run {before after later : List Char} (apart : Apart before after)
    (opens : ¬Apart before later) :
    unitsOrder (units (before ++ after)) (units (before ++ later)) = .lt := by
  obtain ⟨c, last, d, first, digit, digit'⟩ : ∃ c ∈ before.getLast?, ∃ d ∈ later.head?,
      c.isDigit = true ∧ d.isDigit = true := by
    simpa only [Apart, not_forall, exists_prop, Bool.not_eq_false] using opens
  obtain ⟨front, digits, rfl, own, noDigit⟩ := exists_trailing before
  obtain ⟨more, back, rfl, further, noDigit'⟩ := exists_leading later
  have filled : digits ≠ [] := by
    rintro rfl
    rw [List.append_nil] at last
    exact absurd digit (ne_true_of_eq_false (noDigit c last))
  have filled' : more ≠ [] := by
    rintro rfl
    exact absurd digit' (ne_true_of_eq_false (noDigit' d first))
  have closed : units (front ++ digits ++ after) = units front ++ .run digits :: units after := by
    rw [List.append_assoc, units_append (apart_of_getLast? noDigit _),
      units_append (apart_of_head? (fun e he => apart c last e he digit) _),
      units_of_digits filled own, List.singleton_append]
  have open' : units (front ++ digits ++ (more ++ back))
      = units front ++ .run (digits ++ more) :: units back := by
    rw [List.append_assoc, ← List.append_assoc digits, units_append (apart_of_getLast? noDigit _),
      units_append (apart_of_head? noDigit' _),
      units_of_digits (List.append_ne_nil_of_left_ne_nil filled _)
        (List.forall_mem_append.2 ⟨own, further⟩), List.singleton_append]
  rw [closed, open', unitsOrder_append_left, unitsOrder, unitOrder, runOrder_append filled',
    Ordering.lt_then]

/-- A text is less than a longer one that begins with it. -/
theorem unitsOrder_of_append (text : List Char) (c : Char) (rest : List Char) :
    unitsOrder (units text) (units (text ++ c :: rest)) = .lt := by
  by_cases apart : Apart text (c :: rest)
  · obtain ⟨u, more, first, -⟩ := exists_units_cons c rest
    have order := unitsOrder_append_left (units text) [] (units (c :: rest))
    rw [List.append_nil, ← units_append apart] at order
    rw [order, first, unitsOrder]
  · have order := unitsOrder_of_open_run (apart_nil text) apart
    rwa [List.append_nil] at order

end QueryForms.Text
