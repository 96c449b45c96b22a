import Mathlib.Tactic.SplitIfs
import QueryForms.Proofs.Sorting
import QueryForms.Proofs.Text.Units

/-!
# Sorting texts

Values are sorted by their JSON texts, so texts are compared between quotation marks and with what is
escaped in them. This gives the natural order of the texts themselves unless the quotation gets in the
way (`Text.Hindered`): the mark at the end of a text comes after a space and an exclamation mark, an
escaped character comes where the backslash does, and the digits of an escape make one number with the
digits behind it (`collate_texts`).
-/

namespace QueryForms

/-! ## Escapes -/

namespace Json

/-- Whether a string shows a character, by its code, as something else behind a backslash. -/
def IsEscaped (code : Nat) : Prop :=
  code < 0x20 ∨ code = '"'.toNat

instance (code : Nat) : Decidable (IsEscaped code) :=
  inferInstanceAs (Decidable (_ ∨ _))

/-- The character with which the form of a character in a string begins. -/
def escapeHead (c : Char) : Char :=
  if IsEscaped c.toNat then '\\' else c

theorem escapeChar_of_not_isEscaped {c : Char} (shown : ¬IsEscaped c.toNat) :
    escapeChar c = if c = '\\' then ['\\', '\\'] else [c] := by
  obtain ⟨low, mark⟩ := not_or.1 shown
  have other : ∀ d : Char, IsEscaped d.toNat → c ≠ d := fun d escaped same =>
    shown (same ▸ escaped)
  rw [escapeChar, if_neg (other '"' (by decide)), if_neg (other '\n' (by decide)),
    if_neg (other '\r' (by decide)), if_neg (other '\t' (by decide)),
    if_neg (other '\x08' (by decide)), if_neg (other '\x0c' (by decide)), if_neg low]

theorem exists_escapeChar_eq (c : Char) : ∃ more, escapeChar c = escapeHead c :: more := by
  by_cases escaped : IsEscaped c.toNat
  · rw [escapeHead, if_pos escaped]
    rcases escaped with low | mark
    · rw [escapeChar, if_pos low]
      split_ifs <;> exact ⟨_, rfl⟩
    · obtain rfl : c = '"' := Char.toNat_inj.1 mark
      exact ⟨_, rfl⟩
  · rw [escapeHead, if_neg escaped, escapeChar_of_not_isEscaped escaped]
    split
    · next slash => exact ⟨['\\'], by rw [slash]⟩
    · exact ⟨_, rfl⟩

theorem isDigit_escapeHead (c : Char) : (escapeHead c).isDigit = c.isDigit := by
  rw [escapeHead]
  split
  · next escaped =>
    refine (Bool.eq_false_iff.2 fun digit => ?_).symm
    obtain ⟨least, -⟩ := Char.isDigit_iff_toNat.1 digit
    have places : '0'.toNat = 48 ∧ '"'.toNat = 34 := ⟨rfl, rfl⟩
    rcases escaped with low | mark <;> omega
  · rfl

/-- Digits are shown as they are. -/
theorem escapeChar_of_isDigit {c : Char} (digit : c.isDigit = true) : escapeChar c = [c] := by
  have shown : ¬IsEscaped c.toNat := by
    intro escaped
    have head := isDigit_escapeHead c
    rw [escapeHead, if_pos escaped, digit] at head
    exact absurd head (by decide)
  rw [escapeChar_of_not_isEscaped shown, if_neg]
  rintro rfl
  exact absurd digit (by decide)

theorem flatMap_escapeChar_of_isDigit {digits : List Char} (h : ∀ c ∈ digits, c.isDigit = true) :
    digits.flatMap escapeChar = digits := by
  induction digits with
  | nil => rfl
  | cons c cs ih =>
    obtain ⟨digit, h⟩ := List.forall_mem_cons.1 h
    rw [List.flatMap_cons, escapeChar_of_isDigit digit, ih h, List.singleton_append]

/-- Only the form of a digit and of an escaped character can end in a digit. -/
theorem isEscaped_of_getLast?_escapeChar {c d : Char} (last : (escapeChar c).getLast? = some d)
    (digit : d.isDigit = true) (other : c.isDigit = false) : IsEscaped c.toNat := by
  by_contra shown
  rw [escapeChar_of_not_isEscaped shown] at last
  split at last
  · obtain rfl : '\\' = d := Option.some.inj last
    exact absurd digit (by decide)
  · obtain rfl : c = d := Option.some.inj last
    exact absurd (other.symm.trans digit) (by decide)

end Json

/-! ## Units in quotation -/

namespace Text

open Json (IsEscaped escapeHead escapeChar)

/-- A unit as it begins in quotation: an escaped character is a backslash. -/
def TextUnit.quoted : TextUnit → TextUnit
  | .run digits => .run digits
  | .char c => .char (escapeHead c)

theorem TextUnit.IsProper.quoted {u : TextUnit} (proper : u.IsProper) : u.quoted.IsProper := by
  cases u with
  | run => exact proper
  | char c => exact (Json.isDigit_escapeHead c).trans proper

theorem TextUnit.place_quoted (u : TextUnit) :
    u.quoted.place = if IsEscaped u.place then '\\'.toNat else u.place := by
  cases u with
  | run => exact (if_neg (by decide : ¬IsEscaped '0'.toNat)).symm
  | char c => exact apply_ite Char.toNat _ _ _

theorem TextUnit.digits_quoted (u : TextUnit) : u.quoted.digits = u.digits := by
  cases u <;> rfl

/-- Whether quotation puts one unit above another that is above it otherwise: the lower one is escaped,
and the upper one does not come after the backslash. -/
def Lifts (lower upper : TextUnit) : Prop :=
  IsEscaped lower.place ∧ lower.place < upper.place ∧ upper.place ≤ '\\'.toNat

/-- Units have the same order in quotation, if it lifts neither over the other. -/
theorem unitOrder_quoted {a b : TextUnit} (ha : a.IsProper) (hb : b.IsProper) (noLift : ¬Lifts a b)
    (noLift' : ¬Lifts b a) : unitOrder a.quoted b.quoted = unitOrder a b := by
  have keeps : (a.quoted.place < b.quoted.place ↔ a.place < b.place) ∧
      (b.quoted.place < a.quoted.place ↔ b.place < a.place) := by
    have places : '"'.toNat = 34 ∧ '\\'.toNat = 92 := ⟨rfl, rfl⟩
    simp only [Lifts, IsEscaped] at noLift noLift'
    rw [a.place_quoted, b.place_quoted]
    constructor <;> split <;> split <;> simp only [IsEscaped] at * <;> omega
  have placed : compare a.quoted.place b.quoted.place = compare a.place b.place := by
    simp only [Nat.compare_eq_ite_lt, keeps.1, keeps.2]
  rw [unitOrder_eq ha.quoted hb.quoted, unitOrder_eq ha hb]
  show (compare a.quoted.place b.quoted.place).then (runOrder a.quoted.digits b.quoted.digits) = _
  rw [placed, a.digits_quoted, b.digits_quoted]
  rfl

/-- A text in quotation, without the mark at its end. -/
def opened (text : List Char) : List Char :=
  '"' :: text.flatMap escapeChar

theorem opened_append (text more : List Char) :
    opened (text ++ more) = opened text ++ more.flatMap escapeChar := by
  rw [opened, opened, List.flatMap_append, List.cons_append]

/-- Units that do not begin with a run of digits are shown without a digit in front. -/
theorem isDigit_of_mem_head?_closed {rest : List TextUnit} (proper : ∀ u ∈ rest, u.IsProper)
    (noRun : ∀ u ∈ rest.head?, u.isRun = false) :
    ∀ d ∈ ((rest.flatMap TextUnit.chars).flatMap escapeChar ++ ['"']).head?,
      d.isDigit = false := by
  cases rest with
  | nil =>
    intro d hd
    obtain rfl : '"' = d := Option.some.inj hd
    rfl
  | cons u rest =>
    cases u with
    | run => exact absurd (noRun _ rfl) nofun
    | char c =>
      intro d hd
      obtain ⟨more, shown⟩ := Json.exists_escapeChar_eq c
      rw [List.flatMap_cons, TextUnit.chars, List.singleton_append, List.flatMap_cons, shown] at hd
      obtain rfl : escapeHead c = d := Option.some.inj hd
      exact (Json.isDigit_escapeHead c).trans (proper _ (List.mem_cons_self ..))

theorem isProper_of_units_eq {text : List Char} {us rest : List TextUnit} {a : TextUnit}
    (parts : units text = us ++ a :: rest) : a.IsProper :=
  isProper_of_mem_units (parts ▸ List.mem_append_right us (List.mem_cons_self ..))

/-- A text in quotation, from one of its units on: its digits come first, if it has any, and then no
further digit. -/
theorem exists_opened_eq {text : List Char} {us rest : List TextUnit} {a : TextUnit}
    (parts : units text = us ++ a :: rest) :
    ∃ tail, opened text ++ ['"'] = opened (us.flatMap TextUnit.chars) ++ (a.digits ++ tail) ∧
      (∀ d ∈ tail.head?, d.isDigit = false) ∧
      ∀ c, a = .char c → ∃ more, tail = escapeHead c :: more := by
  have proper : a.IsProper := isProper_of_units_eq parts
  have properRest : ∀ u ∈ rest, u.IsProper := fun u hu =>
    isProper_of_mem_units (parts ▸ List.mem_append_right us (List.mem_cons_of_mem a hu))
  obtain ⟨-, chain, -⟩ := List.isChain_append.1 (parts ▸ isChain_units text)
  have spelled : opened text ++ ['"'] = opened (us.flatMap TextUnit.chars)
      ++ (a.chars.flatMap escapeChar
        ++ ((rest.flatMap TextUnit.chars).flatMap escapeChar ++ ['"'])) := by
    rw [← flatMap_chars_units text, parts, List.flatMap_append, opened_append, List.flatMap_cons,
      List.flatMap_append, List.append_assoc, List.append_assoc]
  rw [spelled]
  cases a with
  | char c =>
    obtain ⟨more, shown⟩ := Json.exists_escapeChar_eq c
    rw [TextUnit.chars, List.flatMap_singleton, shown]
    refine ⟨_, rfl, ?_, ?_⟩
    · rintro d ⟨⟩
      exact (Json.isDigit_escapeHead c).trans proper
    · rintro _ ⟨⟩
      exact ⟨_, rfl⟩
  | run digits =>
    rw [TextUnit.chars, Json.flatMap_escapeChar_of_isDigit proper.2]
    refine ⟨_, rfl, ?_, fun c run => by cases run⟩
    exact isDigit_of_mem_head?_closed properRest
      fun u hu => (List.isChain_cons.1 chain).1 u hu rfl

/-- The digits at the end of units in quotation: of a run, or of the escape of a last character. -/
def carried (us : List TextUnit) : List Char :=
  (opened (us.flatMap TextUnit.chars)).rtakeWhile Char.isDigit

theorem isDigit_of_mem_getLast?_opened {us : List TextUnit} (clear : carried us = []) :
    ∀ d ∈ (opened (us.flatMap TextUnit.chars)).getLast?, d.isDigit = false := by
  intro d hd
  obtain ⟨filled, rfl⟩ := List.mem_getLast?_eq_getLast hd
  exact Bool.eq_false_iff.2 (List.rtakeWhile_eq_nil_iff.1 clear filled)

/-- The units of a text in quotation, up to one that no digits join. -/
theorem exists_units_opened {text : List Char} {us rest : List TextUnit} {a : TextUnit}
    (parts : units text = us ++ a :: rest) (free : carried us = [] ∨ a.digits = []) :
    ∃ more, units (opened text ++ ['"'])
      = units (opened (us.flatMap TextUnit.chars)) ++ a.quoted :: more := by
  have proper : a.IsProper := isProper_of_units_eq parts
  obtain ⟨tail, spelled, noDigit, begins⟩ := exists_opened_eq parts
  rw [spelled]
  cases a with
  | char c =>
    obtain ⟨more, rfl⟩ := begins c rfl
    rw [TextUnit.digits, List.nil_append, units_append (apart_of_head? noDigit _),
      units_cons_char (noDigit _ rfl)]
    exact ⟨_, rfl⟩
  | run digits =>
    have clear : carried us = [] := free.resolve_right proper.1
    rw [TextUnit.digits,
      units_append (apart_of_getLast? (isDigit_of_mem_getLast?_opened clear) _),
      units_append (apart_of_head? noDigit _), units_of_digits proper.1 proper.2]
    exact ⟨_, rfl⟩

theorem TextUnit.IsProper.isDigit_of_mem {u : TextUnit} (proper : u.IsProper) :
    ∀ c ∈ u.digits, c.isDigit = true := by
  cases u with
  | run => exact proper.2
  | char => exact fun _ h => absurd h List.not_mem_nil

/-- The units of a text in quotation, up to one that digits join. -/
theorem exists_units_carried {text : List Char} {us rest : List TextUnit} {a : TextUnit}
    (parts : units text = us ++ a :: rest) (joins : carried us ≠ []) :
    ∃ more, units (opened text ++ ['"'])
      = units ((opened (us.flatMap TextUnit.chars)).rdropWhile Char.isDigit)
        ++ .run (carried us ++ a.digits) :: more := by
  have proper : a.IsProper := isProper_of_units_eq parts
  have digits : ∀ c ∈ carried us ++ a.digits, c.isDigit = true :=
    List.forall_mem_append.2 ⟨fun _ => List.mem_rtakeWhile_imp, proper.isDigit_of_mem⟩
  obtain ⟨tail, spelled, noDigit, -⟩ := exists_opened_eq parts
  have front : opened (us.flatMap TextUnit.chars)
      = (opened (us.flatMap TextUnit.chars)).rdropWhile Char.isDigit ++ carried us :=
    (List.rdropWhile_append_rtakeWhile ..).symm
  have ends := isDigit_of_mem_getLast?_rdropWhile (opened (us.flatMap TextUnit.chars))
  generalize (opened (us.flatMap TextUnit.chars)).rdropWhile Char.isDigit = kept at front ends ⊢
  rw [spelled, front, List.append_assoc, ← List.append_assoc (carried us),
    units_append (apart_of_getLast? ends _), units_append (apart_of_head? noDigit _),
    units_of_digits (List.append_ne_nil_of_left_ne_nil joins _) digits]
  exact ⟨_, rfl⟩

/-! ## Where one text goes on and the other ends -/

/-- The closing mark comes after a space and an exclamation mark and before all else that can stand
inside of quotation. -/
theorem compare_mark_escapeHead (c : Char) :
    compare '"'.toNat (escapeHead c).toNat = if c = ' ' ∨ c = '!' then .gt else .lt := by
  have codes : '"'.toNat = 34 ∧ ' '.toNat = 32 ∧ '!'.toNat = 33 := ⟨rfl, rfl, rfl⟩
  simp only [← Char.toNat_inj, escapeHead]
  by_cases escaped : IsEscaped c.toNat
  · rw [if_pos escaped, if_neg]
    · rfl
    · rcases escaped with low | mark <;> omega
  · rw [if_neg escaped]
    obtain ⟨high, noMark⟩ := not_or.1 escaped
    split
    · exact Nat.compare_eq_gt.2 (by omega)
    · exact Nat.compare_eq_lt.2 (by omega)

theorem unitsOrder_opened_append (text : List Char) (c : Char) (rest : List Char) :
    unitsOrder (units (opened text ++ ['"'])) (units (opened (text ++ c :: rest) ++ ['"']))
      = if c = ' ' ∨ c = '!' then .gt else .lt := by
  obtain ⟨later, goesOn⟩ : ∃ later, opened (text ++ c :: rest) ++ ['"']
      = opened text ++ escapeHead c :: later := by
    obtain ⟨more, shown⟩ := Json.exists_escapeChar_eq c
    exact ⟨_, by rw [opened_append, List.flatMap_cons, shown, List.append_assoc, List.cons_append,
      List.cons_append]⟩
  have ends : Apart (opened text) ['"'] := apart_of_head? (by rintro d ⟨⟩; rfl) _
  rw [goesOn]
  by_cases apart : Apart (opened text) (escapeHead c :: later)
  · obtain ⟨u, more, shown, first⟩ := exists_units_cons (escapeHead c) later
    have placed : unitOrder (.char '"') u = compare '"'.toNat (escapeHead c).toNat := by
      rw [unitOrder, first]
      · exact Ordering.then_eq
      · intro _ _ run
        cases run
    rw [units_append ends, units_append apart, unitsOrder_append_left, shown,
      units_cons_char (by rfl), unitsOrder, placed, compare_mark_escapeHead]
    split <;> rfl
  · have digit : c.isDigit = true := by
      by_contra other
      refine apart (apart_of_head? ?_ _)
      rintro d ⟨⟩
      exact (Json.isDigit_escapeHead c).trans (Bool.eq_false_iff.2 other)
    rw [unitsOrder_of_open_run ends apart, if_neg]
    rintro (rfl | rfl) <;> exact absurd digit (by decide)

/-! ## Where two texts part -/

/-- The first units that differ decide. -/
theorem unitsOrder_of_differ {a b : TextUnit} (differ : unitOrder a b ≠ .eq)
    (us as bs : List TextUnit) : unitsOrder (us ++ a :: as) (us ++ b :: bs) = unitOrder a b := by
  rw [unitsOrder_append_left, unitsOrder, then_of_ne_eq differ]

/-- Two texts begin with the same units and go on with different ones. -/
structure Part (s t : String) (us : List TextUnit) (a b : TextUnit) : Prop where
  differ : a ≠ b
  left : ∃ rest, units s.toList = us ++ a :: rest
  right : ∃ rest, units t.toList = us ++ b :: rest

namespace Part

variable {s t : String} {us : List TextUnit} {a b : TextUnit}

theorem symm (parts : Part s t us a b) : Part t s us b a :=
  ⟨parts.differ.symm, parts.right, parts.left⟩

theorem isProper_left (parts : Part s t us a b) : a.IsProper := by
  obtain ⟨rest, shown⟩ := parts.left
  exact isProper_of_units_eq shown

theorem isProper_right (parts : Part s t us a b) : b.IsProper :=
  parts.symm.isProper_left

theorem unitOrder_ne_eq (parts : Part s t us a b) : unitOrder a b ≠ .eq := fun level =>
  parts.differ ((unitOrder_eq_eq_iff parts.isProper_left parts.isProper_right).1 level)

/-- No digits stand before a unit that is a run of digits. -/
theorem isRun_of_getLast? (parts : Part s t us a b) {digits : List Char}
    (last : us.getLast? = some (.run digits)) : a.isRun = false := by
  obtain ⟨rest, shown⟩ := parts.left
  have chain := isChain_units s.toList
  rw [shown] at chain
  exact (List.isChain_append.1 chain).2.2 _ last a rfl rfl

/-- Different units with the same digits have none. -/
theorem digits_eq_nil (parts : Part s t us a b) (same : a.digits = b.digits) : a.digits = [] := by
  have properA := parts.isProper_left
  have properB := parts.isProper_right
  cases a with
  | char => rfl
  | run =>
    cases b with
    | run => exact absurd (congrArg TextUnit.run same) parts.differ
    | char => exact absurd same properA.1

theorem naturalOrder_eq (parts : Part s t us a b) : naturalOrder s t = unitOrder a b := by
  obtain ⟨as, left⟩ := parts.left
  obtain ⟨bs, right⟩ := parts.right
  rw [naturalOrder, left, right, unitsOrder_of_differ parts.unitOrder_ne_eq]

end Part

/-- Of two lists one begins with the other, or they part. -/
theorem append_or_differ {α : Type} (xs ys : List α) :
    (∃ zs, ys = xs ++ zs) ∨ (∃ zs, xs = ys ++ zs) ∨
      ∃ us a b as bs, a ≠ b ∧ xs = us ++ a :: as ∧ ys = us ++ b :: bs := by
  induction xs generalizing ys with
  | nil => exact .inl ⟨ys, rfl⟩
  | cons x xs ih =>
    cases ys with
    | nil => exact .inr (.inl ⟨_, rfl⟩)
    | cons y ys =>
      by_cases same : x = y
      · subst same
        rcases ih ys with ⟨zs, rfl⟩ | ⟨zs, rfl⟩ | ⟨us, a, b, as, bs, differ, rfl, rfl⟩
        · exact .inl ⟨zs, rfl⟩
        · exact .inr (.inl ⟨zs, rfl⟩)
        · exact .inr (.inr ⟨x :: us, a, b, as, bs, differ, rfl, rfl⟩)
      · exact .inr (.inr ⟨[], x, y, xs, ys, same, rfl, rfl⟩)

/-- Two texts are the same, or one goes on where the other ends, or they part. -/
theorem eq_or_append_or_part (s t : String) :
    s = t ∨ (∃ c rest, t.toList = s.toList ++ c :: rest) ∨
      (∃ c rest, s.toList = t.toList ++ c :: rest) ∨ ∃ us a b, Part s t us a b := by
  have longer : ∀ {s t : String} {zs : List TextUnit}, units t.toList = units s.toList ++ zs →
      s = t ∨ ∃ c rest, t.toList = s.toList ++ c :: rest := by
    intro s t zs goesOn
    have spelled := congrArg (List.flatMap TextUnit.chars) goesOn
    rw [List.flatMap_append, flatMap_chars_units, flatMap_chars_units] at spelled
    cases more : zs.flatMap TextUnit.chars with
    | nil => exact .inl (String.toList_inj.1 (by rw [spelled, more, List.append_nil]))
    | cons c rest => exact .inr ⟨c, rest, more ▸ spelled⟩
  rcases append_or_differ (units s.toList) (units t.toList) with
    ⟨zs, goesOn⟩ | ⟨zs, goesOn⟩ | ⟨us, a, b, as, bs, differ, left, right⟩
  · rcases longer goesOn with same | more
    · exact .inl same
    · exact .inr (.inl more)
  · rcases longer goesOn with same | more
    · exact .inl same.symm
    · exact .inr (.inr (.inl more))
  · exact .inr (.inr (.inr ⟨us, a, b, differ, ⟨as, left⟩, ⟨bs, right⟩⟩))

/-- What quotation can change about the order of two texts. -/
inductive Hindered (s t : String) : Prop
  /-- Where one text ends, the other goes on with what comes before the closing mark. -/
  | ended (c : Char) (rest : List Char) (goesOn : t.toList = s.toList ++ c :: rest)
      (blank : c = ' ' ∨ c = '!')
  /-- Where the texts part, an escape puts the lower unit above the other. -/
  | lifted (us : List TextUnit) (a b : TextUnit) (parts : Part s t us a b) (lifts : Lifts a b)
  /-- Where the texts part, the digits of an escape join theirs and change the order. -/
  | joined (us : List TextUnit) (a b : TextUnit) (parts : Part s t us a b)
      (joins : carried us ≠ []) (differ : a.digits ≠ b.digits)
      (turns : runOrder (carried us ++ a.digits) (carried us ++ b.digits) ≠ unitOrder a b)

/-- Units of which the last is a character that is shown as it is end in no digit. -/
theorem carried_concat_char (us : List TextUnit) {c : Char} (shown : ¬IsEscaped c.toNat)
    (other : c.isDigit = false) : carried (us ++ [.char c]) = [] := by
  refine List.rtakeWhile_eq_nil_iff.2 fun filled digit => ?_
  have last := List.getLast?_eq_some_getLast filled
  generalize (opened ((us ++ [TextUnit.char c]).flatMap TextUnit.chars)).getLast filled = d at last digit
  obtain ⟨more, form⟩ := Json.exists_escapeChar_eq c
  rw [List.flatMap_append, List.flatMap_singleton, TextUnit.chars, opened_append,
    List.flatMap_singleton, List.getLast?_append, form, List.getLast?_cons, Option.some_or,
    ← List.getLast?_cons, ← form] at last
  exact shown (Json.isEscaped_of_getLast?_escapeChar last digit other)

/-- A text with nothing to escape is hindered only by a space or an exclamation mark behind it. -/
theorem not_hindered_of_shown {s t : String} (shown : ∀ c ∈ s.toList, ¬IsEscaped c.toNat)
    (filled : ∀ c rest, t.toList = s.toList ++ c :: rest → ¬(c = ' ' ∨ c = '!')) :
    ¬Hindered s t := by
  have inText : ∀ {c : Char}, .char c ∈ units s.toList → c ∈ s.toList := fun {c} hc => by
    rw [← flatMap_chars_units s.toList]
    exact List.mem_flatMap.2 ⟨.char c, hc, List.mem_singleton_self c⟩
  intro hindered
  cases hindered with
  | ended c rest goesOn blank => exact filled c rest goesOn blank
  | lifted us a b parts lifts =>
    obtain ⟨rest, units⟩ := parts.left
    cases a with
    | run => exact absurd lifts.1 (by decide : ¬IsEscaped '0'.toNat)
    | char c =>
      exact shown c (inText (units ▸ List.mem_append_right us (List.mem_cons_self ..))) lifts.1
  | joined us a b parts joins differ =>
    rcases List.eq_nil_or_concat' us with rfl | ⟨init, u, rfl⟩
    · exact joins rfl
    · cases u with
      | run digits =>
        have left := parts.isRun_of_getLast? List.getLast?_concat
        have right := parts.symm.isRun_of_getLast? List.getLast?_concat
        cases a <;> cases b <;> first | cases left; done | cases right; done | exact differ rfl
      | char c =>
        obtain ⟨rest, units⟩ := parts.left
        have inside : TextUnit.char c ∈ Text.units s.toList :=
          units ▸ List.mem_append_left _ (List.mem_append_right init (List.mem_singleton_self _))
        exact joins (carried_concat_char init (shown c (inText inside))
          (isProper_of_mem_units inside))

end Text

/-! ## The order of sorting -/

open Text

theorem collate_strings (s t : String) :
    collate (.string s) (.string t)
      = unitsOrder (units (opened s.toList ++ ['"'])) (units (opened t.toList ++ ['"'])) := by
  have shown : ∀ text : String,
      (Value.jsonText (.string text)).toList = opened text.toList ++ ['"'] := fun text => by
    rw [Value.jsonText, Value.toJson, Json.compact, String.toList_ofList, Json.compactChars]
    rfl
  rw [collate, naturalOrder, shown, shown]

namespace Text.Part

variable {s t : String} {us : List TextUnit} {a b : TextUnit}

/-- Texts that part are compared by the units there, as they begin in quotation. -/
theorem collate_eq (parts : Part s t us a b) (free : carried us = [] ∨ a.digits = b.digits)
    (differ : a.quoted ≠ b.quoted) :
    collate (.string s) (.string t) = unitOrder a.quoted b.quoted := by
  obtain ⟨as, shown⟩ := parts.left
  obtain ⟨bs, shown'⟩ := parts.right
  obtain ⟨more, quoted⟩ := exists_units_opened shown (free.imp_right parts.digits_eq_nil)
  obtain ⟨more', quoted'⟩ := exists_units_opened shown'
    (free.imp_right fun same => parts.symm.digits_eq_nil same.symm)
  have differ : unitOrder a.quoted b.quoted ≠ .eq := fun level =>
    differ ((unitOrder_eq_eq_iff parts.isProper_left.quoted parts.isProper_right.quoted).1 level)
  rw [collate_strings, quoted, quoted', unitsOrder_of_differ differ]

/-- Texts that part in digits behind others are compared by the digits that they make together. -/
theorem collate_eq_runOrder (parts : Part s t us a b) (joins : carried us ≠ [])
    (differ : a.digits ≠ b.digits) :
    collate (.string s) (.string t)
      = runOrder (carried us ++ a.digits) (carried us ++ b.digits) := by
  obtain ⟨as, shown⟩ := parts.left
  obtain ⟨bs, shown'⟩ := parts.right
  obtain ⟨more, quoted⟩ := exists_units_carried shown joins
  obtain ⟨more', quoted'⟩ := exists_units_carried shown' joins
  have differ : unitOrder (.run (carried us ++ a.digits)) (.run (carried us ++ b.digits)) ≠ .eq :=
    fun level => differ (List.append_cancel_left (runOrder_eq_eq_iff.1 level))
  rw [collate_strings, quoted, quoted', unitsOrder_of_differ differ, unitOrder]

end Text.Part

theorem collate_of_append {s t : String} {c : Char} {rest : List Char}
    (goesOn : t.toList = s.toList ++ c :: rest) :
    collate (.string s) (.string t) = if c = ' ' ∨ c = '!' then .gt else .lt := by
  rw [collate_strings, goesOn, unitsOrder_opened_append]

theorem naturalOrder_of_append {s t : String} {c : Char} {rest : List Char}
    (goesOn : t.toList = s.toList ++ c :: rest) : naturalOrder s t = .lt := by
  rw [naturalOrder, goesOn, unitsOrder_of_append]

/-- A text that a longer one begins with is before it for both, unless what follows is blank. -/
theorem collate_eq_naturalOrder_of_append {s t : String} {c : Char} {rest : List Char}
    (goesOn : t.toList = s.toList ++ c :: rest) (free : ¬Hindered s t) :
    collate (.string s) (.string t) = naturalOrder s t := by
  rw [collate_of_append goesOn, naturalOrder_of_append goesOn,
    if_neg fun blank => free (.ended c rest goesOn blank)]

/-- Texts are sorted in their natural order unless their quotation hinders it. A text comes before the
longer ones that begin with it, but after those that go on with a space or an exclamation mark. Texts
that part are in the order of the units there, an escaped character taken as a backslash, and digits
together with those of an escape in front of them. -/
theorem collate_texts (s t : String) :
    (¬Hindered s t → ¬Hindered t s → collate (.string s) (.string t) = naturalOrder s t) ∧
    (∀ c rest, t.toList = s.toList ++ c :: rest →
      naturalOrder s t = .lt ∧
      collate (.string s) (.string t) = if c = ' ' ∨ c = '!' then .gt else .lt) ∧
    ∀ us a b, Part s t us a b →
      naturalOrder s t = unitOrder a b ∧
      (carried us = [] ∨ a.digits = b.digits → a.quoted ≠ b.quoted →
        collate (.string s) (.string t) = unitOrder a.quoted b.quoted) ∧
      (carried us ≠ [] → a.digits ≠ b.digits →
        collate (.string s) (.string t)
          = runOrder (carried us ++ a.digits) (carried us ++ b.digits)) := by
  refine ⟨fun free free' => ?_, fun c rest goesOn =>
    ⟨naturalOrder_of_append goesOn, collate_of_append goesOn⟩,
    fun us a b parts => ⟨parts.naturalOrder_eq, parts.collate_eq, parts.collate_eq_runOrder⟩⟩
  rcases eq_or_append_or_part s t with rfl | ⟨c, rest, goesOn⟩ | ⟨c, rest, goesOn⟩ |
    ⟨us, a, b, parts⟩
  · exact (Std.ReflCmp.compare_self : collate _ _ = .eq).trans Std.ReflCmp.compare_self.symm
  · exact collate_eq_naturalOrder_of_append goesOn free
  · have swapped := congrArg Ordering.swap (collate_eq_naturalOrder_of_append goesOn free')
    rwa [collate_swap, ← Std.OrientedCmp.eq_swap] at swapped
  · rw [parts.naturalOrder_eq]
    by_cases apart : carried us = [] ∨ a.digits = b.digits
    · have order : unitOrder a.quoted b.quoted = unitOrder a b :=
        unitOrder_quoted parts.isProper_left parts.isProper_right
          (fun lifts => free (.lifted us a b parts lifts))
          fun lifts => free' (.lifted us b a parts.symm lifts)
      have differ : a.quoted ≠ b.quoted := fun same =>
        parts.unitOrder_ne_eq (order ▸ same ▸ unitOrder_self _)
      rw [parts.collate_eq apart differ, order]
    · obtain ⟨joins, differ⟩ := not_or.1 apart
      by_contra turns
      rw [parts.collate_eq_runOrder joins differ] at turns
      exact free (.joined us a b parts joins differ turns)

/-- Numbers in texts are in their order; a longer text is before the shorter one that it begins with if
it goes on with a space; an escaped mark is in the place of a backslash; and digits behind a control
character are the end of a longer number. -/
theorem collate_items :
    collate (.string "item2") (.string "item10") = naturalOrder "item2" "item10" ∧
    (naturalOrder "a" "a b" = .lt ∧ collate (.string "a") (.string "a b") = .gt) ∧
    collate (.string "\"") (.string "#") = unitOrder (.char '\\') (.char '#') ∧
    collate (.string "\x01007") (.string "\x0110")
      = runOrder ['0', '0', '0', '1', '0', '0', '7'] ['0', '0', '0', '1', '1', '0'] := by
  have texts := (collate_texts "item2" "item10").1
    (not_hindered_of_shown (by simp [Json.IsEscaped]) (by simp))
    (not_hindered_of_shown (by simp [Json.IsEscaped]) (by simp))
  have longer := (collate_texts "a" "a b").2.1 ' ' ['b'] (by simp)
  have marks := (collate_texts "\"" "#").2.2 [] (.char '"') (.char '#')
    ⟨by decide, ⟨[], by decide⟩, ⟨[], by decide⟩⟩
  have numbers := (collate_texts "\x01007" "\x0110").2.2 [.char '\x01'] (.run ['0', '0', '7'])
    (.run ['1', '0']) ⟨by decide, ⟨[], by decide⟩, ⟨[], by decide⟩⟩
  exact ⟨texts, longer, marks.2.1 (.inl rfl) (by decide), numbers.2.2 (by decide) (by decide)⟩

/-- A space comes before the closing mark, an escaped mark after a hash, and digits behind an escape make
one number with its own. -/
theorem collate_ne_naturalOrder :
    (collate (.string "a") (.string "a b") = .gt ∧ naturalOrder "a" "a b" = .lt) ∧
    (collate (.string "\"") (.string "#") = .gt ∧ naturalOrder "\"" "#" = .lt) ∧
    collate (.string "\x01007") (.string "\x0110") = .gt ∧
      naturalOrder "\x01007" "\x0110" = .lt := by
  decide

end QueryForms
