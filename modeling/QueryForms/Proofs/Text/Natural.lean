import QueryForms.Proofs.Number.Digits
import QueryForms.Text.Natural

/-!
# The natural order

The units of two texts are compared by their place among characters, where all runs of digits stand at
the place of the digits, and runs among themselves by number and length. So the natural order is the
lexicographic order of a total preorder, and one itself. Of two runs of digits it is the order of the
numbers that they spell (`runOrder_eq`).
-/

namespace QueryForms.Text

/-! ## Total preorders -/

/-- Things compared by what a function gives of them. -/
theorem transCmp_comap {α β : Type} {cmp : α → α → Ordering} [Std.TransCmp cmp] (f : β → α) :
    Std.TransCmp fun a b => cmp (f a) (f b) where
  eq_swap := Std.OrientedCmp.eq_swap
  isLE_trans := Std.TransCmp.isLE_trans

theorem charOrder_eq_compareLex (as bs : List Char) :
    charOrder as bs = List.compareLex (compareOn Char.toNat) as bs := by
  induction as generalizing bs with
  | nil => cases bs <;> rfl
  | cons a as ih =>
    cases bs with
    | nil => rfl
    | cons b bs =>
      rw [charOrder, List.compareLex_cons_cons, ih]
      rfl

instance : Std.TransCmp charOrder := by
  have same : charOrder = List.compareLex (compareOn Char.toNat) :=
    funext fun as => funext fun bs => charOrder_eq_compareLex as bs
  rw [same]
  infer_instance

instance : Std.TransCmp fun as bs : List Char => charOrder (dropZeros as) (dropZeros bs) :=
  transCmp_comap dropZeros

instance : Std.TransCmp runOrder :=
  inferInstanceAs (Std.TransCmp (compareLex (compareOn fun digits => (dropZeros digits).length)
    (compareLex (fun as bs => charOrder (dropZeros as) (dropZeros bs)) (compareOn List.length))))

/-! ## Units -/

namespace TextUnit

/-- The place of a unit among characters; all runs stand at the first digit. -/
def place : TextUnit → Nat
  | .run _ => '0'.toNat
  | .char c => c.toNat

/-- The digits of a run. -/
def digits : TextUnit → List Char
  | .run digits => digits
  | .char _ => []

/-- Whether a unit can be one of a text: a run has digits and nothing else, and no other character is
a digit. -/
def IsProper : TextUnit → Prop
  | .run digits => digits ≠ [] ∧ ∀ c ∈ digits, c.isDigit = true
  | .char c => c.isDigit = false

/-- The order of units by place, and of runs by number and length. -/
def order : TextUnit → TextUnit → Ordering :=
  compareLex (compareOn place) fun a b => runOrder a.digits b.digits

instance : Std.TransCmp order :=
  have : Std.TransCmp fun a b : TextUnit => runOrder a.digits b.digits := transCmp_comap digits
  inferInstanceAs (Std.TransCmp (compareLex (compareOn place) _))

end TextUnit

/-- Digits alone are one run. -/
theorem units_of_digits {digits : List Char} (filled : digits ≠ [])
    (h : ∀ c ∈ digits, c.isDigit = true) : units digits = [.run digits] := by
  induction digits with
  | nil => exact absurd rfl filled
  | cons c cs ih =>
    obtain ⟨digit, h⟩ := List.forall_mem_cons.1 h
    rw [units, if_pos digit]
    cases cs with
    | nil => rfl
    | cons d ds => rw [ih (List.cons_ne_nil _ _) h]

theorem isProper_of_mem_units {text : List Char} {u : TextUnit} (h : u ∈ units text) :
    u.IsProper := by
  induction text generalizing u with
  | nil => exact absurd h List.not_mem_nil
  | cons c cs ih =>
    rw [units.eq_def] at h
    dsimp only at h
    split at h
    · next digit =>
      split at h
      · next digits rest inside =>
        rcases List.mem_cons.1 h with rfl | h
        · have run : (TextUnit.run digits).IsProper := ih (inside ▸ List.mem_cons_self ..)
          exact ⟨List.cons_ne_nil _ _, List.forall_mem_cons.2 ⟨digit, run.2⟩⟩
        · exact ih (inside ▸ List.mem_cons_of_mem _ h)
      · rcases List.mem_cons.1 h with rfl | h
        · exact ⟨List.cons_ne_nil _ _, List.forall_mem_singleton.2 digit⟩
        · exact ih h
    · next other =>
      rcases List.mem_cons.1 h with rfl | h
      · exact Bool.eq_false_iff.2 other
      · exact ih h

/-- A character that is no digit is before all digits or after all of them. -/
theorem compare_of_isDigit {d c : Char} (hd : d.isDigit = true) (hc : c.isDigit = false) :
    compare d.toNat c.toNat = compare '0'.toNat c.toNat ∧ compare '0'.toNat c.toNat ≠ .eq := by
  have outside : ¬('0'.toNat ≤ c.toNat ∧ c.toNat ≤ '9'.toNat) := by
    rw [← Char.isDigit_iff_toNat, hc]
    exact Bool.false_ne_true
  have inside := Char.isDigit_iff_toNat.1 hd
  have digits : '0'.toNat = 48 ∧ '9'.toNat = 57 := ⟨rfl, rfl⟩
  rcases Nat.lt_or_ge c.toNat '0'.toNat with below | above
  · rw [Nat.compare_eq_gt.2 below, Nat.compare_eq_gt.2 (by omega)]
    exact ⟨rfl, nofun⟩
  · rw [Nat.compare_eq_lt.2 (by omega), Nat.compare_eq_lt.2 (by omega)]
    exact ⟨rfl, nofun⟩

theorem then_of_ne_eq : ∀ {first second : Ordering}, first ≠ .eq → first.then second = first := by
  decide

/-- Of units that stand in texts the order is by place, and of runs by number and length. -/
theorem unitOrder_eq {a b : TextUnit} (ha : a.IsProper) (hb : b.IsProper) :
    unitOrder a b = a.order b := by
  have single : ∀ a b : Char, charOrder [a] [b] = compare a.toNat b.toNat := fun a b => by
    rw [charOrder, charOrder, Ordering.then_eq]
  have placed : a.order b = (compare a.place b.place).then (runOrder a.digits b.digits) := rfl
  rw [placed]
  cases a with
  | run as =>
    cases b with
    | run bs => rfl
    | char c =>
      obtain ⟨d, ds, rfl⟩ := List.exists_cons_of_ne_nil ha.1
      obtain ⟨same, differs⟩ := compare_of_isDigit (ha.2 d (List.mem_cons_self ..)) hb
      exact (single d c).trans (same.trans (then_of_ne_eq differs).symm)
  | char c =>
    cases b with
    | run bs =>
      obtain ⟨d, ds, rfl⟩ := List.exists_cons_of_ne_nil hb.1
      obtain ⟨same, differs⟩ := compare_of_isDigit (hb.2 d (List.mem_cons_self ..)) ha
      have swapped : compare c.toNat d.toNat = compare c.toNat '0'.toNat := by
        rw [← Nat.compare_swap, same, Nat.compare_swap]
      have differs : compare c.toNat '0'.toNat ≠ .eq := fun level =>
        differs (Nat.compare_eq_eq.2 (Nat.compare_eq_eq.1 level).symm)
      exact (single c d).trans (swapped.trans (then_of_ne_eq differs).symm)
    | char d => exact (single c d).trans Ordering.then_eq.symm

/-! ## The order of texts -/

/-- Lists of units that stand in texts are compared unit by unit. -/
theorem unitsOrder_eq {as bs : List TextUnit} (ha : ∀ u ∈ as, u.IsProper)
    (hb : ∀ u ∈ bs, u.IsProper) : unitsOrder as bs = List.compareLex TextUnit.order as bs := by
  induction as generalizing bs with
  | nil => cases bs <;> rfl
  | cons a as ih =>
    cases bs with
    | nil => rfl
    | cons b bs =>
      obtain ⟨properA, ha⟩ := List.forall_mem_cons.1 ha
      obtain ⟨properB, hb⟩ := List.forall_mem_cons.1 hb
      rw [unitsOrder, List.compareLex_cons_cons, unitOrder_eq properA properB, ih ha hb]

/-- The natural order is the lexicographic order of the units. -/
theorem naturalOrder_eq (a b : String) :
    naturalOrder a b = List.compareLex TextUnit.order (units a.toList) (units b.toList) :=
  unitsOrder_eq (fun _ => isProper_of_mem_units) fun _ => isProper_of_mem_units

/-- The natural order is a total preorder. -/
instance : Std.TransCmp naturalOrder := by
  have same : naturalOrder = fun a b =>
      List.compareLex TextUnit.order (units a.toList) (units b.toList) :=
    funext fun a => funext (naturalOrder_eq a)
  rw [same]
  exact transCmp_comap fun text : String => units text.toList

/-! ## Runs of digits -/

/-- As many digits as others are in the order of the numbers. -/
theorem charOrder_of_length_eq {as bs : List Char} (ha : ∀ c ∈ as, c.isDigit = true)
    (hb : ∀ c ∈ bs, c.isDigit = true) (same : as.length = bs.length) :
    charOrder as bs = compare (digitsValue as) (digitsValue bs) := by
  induction as generalizing bs with
  | nil =>
    obtain rfl := List.eq_nil_of_length_eq_zero same.symm
    rfl
  | cons a as ih =>
    cases bs with
    | nil => exact absurd same (Nat.succ_ne_zero _)
    | cons b bs =>
      have same : as.length = bs.length := Nat.succ.inj same
      obtain ⟨digitA, ha⟩ := List.forall_mem_cons.1 ha
      obtain ⟨digitB, hb⟩ := List.forall_mem_cons.1 hb
      have first : compare a.toNat b.toNat
          = compare (a.toNat - '0'.toNat) (b.toNat - '0'.toNat) := by
        have lowA := (Char.isDigit_iff_toNat.1 digitA).1
        have lowB := (Char.isDigit_iff_toNat.1 digitB).1
        simp only [Nat.compare_eq_ite_lt, Nat.sub_lt_sub_iff_right lowA,
          Nat.sub_lt_sub_iff_right lowB]
      rw [charOrder, ih ha hb same, first, digitsValue_cons, digitsValue_cons, same,
        compare_places (same ▸ digitsValue_lt ha) (digitsValue_lt hb)]

theorem digitsValue_dropZeros (digits : List Char) :
    digitsValue (dropZeros digits) = digitsValue digits := by
  induction digits with
  | nil => rfl
  | cons c cs ih =>
    rw [dropZeros, List.dropWhile_cons]
    split
    · next zero =>
      obtain rfl := eq_of_beq zero
      rw [← dropZeros, ih, digitsValue_cons, Nat.sub_self, Nat.zero_mul, Nat.zero_add]
    · rfl

theorem isDigit_of_mem_dropZeros {digits : List Char} (h : ∀ c ∈ digits, c.isDigit = true) :
    ∀ c ∈ dropZeros digits, c.isDigit = true :=
  fun c hc => h c ((List.dropWhile_suffix _).subset hc)

/-- More digits than others, not counting zeros in front, spell a greater number. -/
theorem digitsValue_lt_of_length_lt {as bs : List Char} (ha : ∀ c ∈ as, c.isDigit = true)
    (hb : ∀ c ∈ bs, c.isDigit = true) (fewer : (dropZeros as).length < (dropZeros bs).length) :
    digitsValue as < digitsValue bs := by
  rw [← digitsValue_dropZeros as, ← digitsValue_dropZeros bs]
  match found : dropZeros bs with
  | [] => exact absurd (found ▸ fewer) (Nat.not_lt_zero _)
  | b :: rest =>
    have digit : b.isDigit = true :=
      isDigit_of_mem_dropZeros hb b (found ▸ List.mem_cons_self ..)
    have nonzero : b ≠ '0' := by
      have front := List.head?_dropWhile_not (· == '0') bs
      rw [← dropZeros, found] at front
      exact fun zero => Bool.false_ne_true (front.symm.trans (beq_iff_eq.2 zero))
    rw [found] at fewer
    calc digitsValue (dropZeros as)
        < 10 ^ (dropZeros as).length := digitsValue_lt (isDigit_of_mem_dropZeros ha)
      _ ≤ 10 ^ rest.length := Nat.pow_le_pow_right (by decide) (Nat.le_of_lt_succ fewer)
      _ ≤ digitsValue (b :: rest) := le_digitsValue_of_front digit nonzero

/-- Runs of digits are in the order of the numbers that they spell, and of one number the shorter run
is first. -/
theorem runOrder_eq {as bs : List Char} (ha : ∀ c ∈ as, c.isDigit = true)
    (hb : ∀ c ∈ bs, c.isDigit = true) :
    runOrder as bs
      = (compare (digitsValue as) (digitsValue bs)).then (compare as.length bs.length) := by
  rw [runOrder]
  rcases Nat.lt_trichotomy (dropZeros as).length (dropZeros bs).length with fewer | same | more
  · rw [Nat.compare_eq_lt.2 fewer, Nat.compare_eq_lt.2 (digitsValue_lt_of_length_lt ha hb fewer)]
    rfl
  · rw [Nat.compare_eq_eq.2 same, Ordering.eq_then, charOrder_of_length_eq
      (isDigit_of_mem_dropZeros ha) (isDigit_of_mem_dropZeros hb) same, digitsValue_dropZeros,
      digitsValue_dropZeros]
  · rw [Nat.compare_eq_gt.2 more, Nat.compare_eq_gt.2 (digitsValue_lt_of_length_lt hb ha more)]
    rfl

end QueryForms.Text
