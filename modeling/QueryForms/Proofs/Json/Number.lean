import QueryForms.Json.Number
import QueryForms.Proofs.Json.Scan
import QueryForms.Proofs.Number.Shortest

/-!
# What the text of a float spells

A number in a text spells an exact number (`Json.spelt?`), and the text of a finite float spells the
fewest digits that round to it, with a point or an exponent among them (`FloatLayout.toList_finite`).
So it is the text of no other float, the zero of the other sign included
(`FloatLayout.render_injective`).
-/

namespace QueryForms

/-! ## Zeros around digits -/

theorem digitsValue_append_zeros (digits : List Char) (n : ℕ) :
    digitsValue (digits ++ List.replicate n '0') = digitsValue digits * 10 ^ n := by
  rw [digitsValue_eq_ofDigitChars, digitsValue_eq_ofDigitChars, Nat.ofDigitChars_append,
    Nat.ofDigitChars_replicate_zero, Nat.mul_comm]

theorem digitsValue_zeros_append (digits : List Char) (n : ℕ) :
    digitsValue (List.replicate n '0' ++ digits) = digitsValue digits := by
  rw [digitsValue_eq_ofDigitChars, digitsValue_eq_ofDigitChars, Nat.ofDigitChars_append,
    Nat.ofDigitChars_replicate_zero, Nat.mul_zero]

namespace Json

/-! ## The number that a word spells -/

/-- The number that digits spell exactly, with a fraction and an exponent or without. -/
def spelt? (word : List Char) : Option ℚ := do
  let (whole, cs) := splitDigits word
  let (fraction, rest) ← readFraction? cs
  let (exponent, _) ← readExponent? rest
  return digitsValue (whole ++ fraction) * 10 ^ (exponent.getD 0 - fraction.length)

/-- A fraction is read up to what is no digit. -/
theorem readFraction?_point {fraction rest : List Char} (h : AllDigits fraction)
    (some : fraction ≠ []) (stop : ∀ c ∈ rest.head?, c.isDigit = false) :
    readFraction? ('.' :: (fraction ++ rest)) = .some (fraction, rest) := by
  cases fraction with
  | nil => exact absurd rfl some
  | cons c cs =>
    have cut := splitDigits_append h stop
    simp only [readFraction?, cut]

/-- Digits with a fraction. -/
theorem spelt?_fraction {whole fraction : List Char} (hw : AllDigits whole)
    (hf : AllDigits fraction) (some : fraction ≠ []) :
    spelt? (whole ++ '.' :: fraction)
      = .some (digitsValue (whole ++ fraction) * 10 ^ (-(fraction.length : ℤ))) := by
  have point : ∀ c ∈ ('.' :: fraction).head?, c.isDigit = false := by
    rintro c ⟨⟩
    rfl
  have read := @readFraction?_point fraction [] hf some nofun
  rw [List.append_nil] at read
  rw [spelt?, splitDigits_append hw point]
  simp only [read, readExponent?, bind, Option.bind, pure, Option.getD_none, zero_sub]

/-- The exponent of a number, the way it is written. -/
def exponentText (power : ℤ) : List Char :=
  'e' :: (if power < 0 then '-' else '+') :: Nat.toDigits 10 power.natAbs

theorem readExponent?_exponentText (power : ℤ) :
    readExponent? (exponentText power) = some (some power, []) := by
  have digits : AllDigits (Nat.toDigits 10 power.natAbs) :=
    fun c => Nat.isDigit_of_mem_toDigits (by decide) (by decide)
  have cut := splitDigits_self digits
  have value := digitsValue_toDigits power.natAbs
  rw [exponentText]
  generalize hd : Nat.toDigits 10 power.natAbs = cs at cut value
  have some : cs ≠ [] := hd ▸ Nat.toDigits_ne_nil
  obtain ⟨c, cs, rfl⟩ := List.exists_cons_of_ne_nil some
  by_cases negative : power < 0
  · simp [readExponent?, negative, cut, value, abs_of_neg]
  · simp [readExponent?, negative, cut, value, abs_of_nonneg (not_lt.1 negative)]

/-- A digit with a fraction or without, and an exponent. -/
theorem spelt?_exponent {first : Char} {rest : List Char} (h : AllDigits (first :: rest))
    (power : ℤ) :
    spelt? (first :: ((if rest.isEmpty then [] else '.' :: rest) ++ exponentText power))
      = some (digitsValue (first :: rest) * 10 ^ (power - rest.length) : ℚ) := by
  have one : AllDigits [first] := List.forall_mem_singleton.2 (h first List.mem_cons_self)
  have mark : ∀ c ∈ (exponentText power).head?, c.isDigit = false := by
    rintro c ⟨⟩
    rfl
  have exponent := readExponent?_exponentText power
  cases rest with
  | nil =>
    have cut := splitDigits_append one mark
    have read : readFraction? (exponentText power) = some ([], exponentText power) := rfl
    rw [spelt?, List.isEmpty_nil, if_pos rfl, List.nil_append, ← List.singleton_append, cut]
    simp only [read, exponent, bind, Option.bind, pure]
    simp
  | cons c cs =>
    have stop : ∀ d ∈ ('.' :: ((c :: cs) ++ exponentText power)).head?, d.isDigit = false := by
      rintro d ⟨⟩
      rfl
    have cut := splitDigits_append one stop
    have read := readFraction?_point (fun d hd => h d (List.mem_cons_of_mem _ hd))
      (List.cons_ne_nil c cs) mark
    rw [spelt?, List.isEmpty_cons, if_neg Bool.false_ne_true, List.cons_append,
      ← List.singleton_append, cut]
    simp only [read, exponent, bind, Option.bind, pure]
    rfl

end Json

/-! ## Texts of floats -/

namespace FloatLayout

open Json

/-- Digits less the zeros at their end, and how many zeros these are. -/
theorem dropFinalZeros_append (digits : List Char) :
    ∃ n, digits = dropFinalZeros digits ++ List.replicate n '0' := by
  refine ⟨(digits.reverse.takeWhile (· == '0')).length, ?_⟩
  have zeros : digits.reverse.takeWhile (· == '0')
      = List.replicate (digits.reverse.takeWhile (· == '0')).length '0' := by
    refine List.eq_replicate_iff.2 ⟨rfl, fun c hc => ?_⟩
    exact beq_iff_eq.1 (List.mem_takeWhile_imp (p := (· == '0')) hc)
  have cut := congrArg List.reverse
    (List.takeWhile_append_dropWhile (p := (· == '0')) (l := digits.reverse))
  rw [List.reverse_append, List.reverse_reverse, zeros, List.reverse_replicate] at cut
  exact cut.symm

/-- A text with a point: digits before it and after it, which spell a number. -/
def Pointed (text : List Char) (q : ℚ) : Prop :=
  ∃ whole fraction, AllDigits whole ∧ AllDigits fraction ∧ whole ≠ [] ∧ fraction ≠ [] ∧
    text = whole ++ '.' :: fraction ∧
    q = digitsValue (whole ++ fraction) * 10 ^ (-(fraction.length : ℤ))

theorem allDigits_zeros (n : ℕ) : AllDigits (List.replicate n '0') :=
  fun _ hc => List.eq_of_mem_replicate hc ▸ rfl

section

variable {first : Char} {rest : List Char} {power : ℤ}

/-- Below one all digits stand after the point, behind zeros. -/
theorem pointed_below (h : AllDigits (first :: rest)) (below : power < 0) :
    Pointed ('0' :: '.' :: (List.replicate (-power - 1).toNat '0' ++ first :: rest))
      (digitsValue (first :: rest) * 10 ^ (power - rest.length)) := by
  have zero : AllDigits ['0'] := allDigits_zeros 1
  refine ⟨['0'], List.replicate (-power - 1).toNat '0' ++ first :: rest, zero,
    List.forall_mem_append.2 ⟨allDigits_zeros _, h⟩, List.cons_ne_nil _ _,
    List.append_ne_nil_of_right_ne_nil _ (List.cons_ne_nil _ _), rfl, ?_⟩
  have value := digitsValue_zeros_append (first :: rest) ((-power - 1).toNat + 1)
  rw [List.replicate_succ, List.cons_append] at value
  rw [List.singleton_append, value, List.length_append, List.length_replicate, List.length_cons]
  refine congrArg _ (congrArg _ ?_)
  push_cast
  omega

/-- Whole numbers are filled with zeros, and one zero stands after the point. -/
theorem pointed_whole (h : AllDigits (first :: rest)) (atLeast : 0 ≤ power)
    (short : (first :: rest).length ≤ power.toNat + 1) :
    Pointed (first :: rest ++ List.replicate (power.toNat + 1 - (first :: rest).length) '0'
        ++ ['.', '0'])
      (digitsValue (first :: rest) * 10 ^ (power - rest.length)) := by
  have zero : AllDigits ['0'] := allDigits_zeros 1
  rw [List.length_cons] at short ⊢
  generalize filled : power.toNat + 1 - (rest.length + 1) = n
  refine ⟨first :: rest ++ List.replicate n '0', ['0'],
    List.forall_mem_append.2 ⟨h, allDigits_zeros n⟩, zero, List.cons_ne_nil _ _,
    List.cons_ne_nil _ _, rfl, ?_⟩
  have value := digitsValue_append_zeros (first :: rest) (n + 1)
  rw [List.replicate_succ', ← List.append_assoc] at value
  rw [value, List.length_singleton, Nat.cast_mul, mul_assoc, Nat.cast_pow, ← zpow_natCast,
    Nat.cast_ofNat, ← zpow_add₀ (by norm_num)]
  refine congrArg _ (congrArg _ ?_)
  push_cast
  omega

/-- Other digits stand on both sides of the point. -/
theorem pointed_among (h : AllDigits (first :: rest)) (atLeast : 0 ≤ power)
    (long : power.toNat + 1 < (first :: rest).length) :
    Pointed ((first :: rest).take (power.toNat + 1) ++ '.' :: (first :: rest).drop (power.toNat + 1))
      (digitsValue (first :: rest) * 10 ^ (power - rest.length)) := by
  have inside := List.length_drop (i := power.toNat + 1) (l := first :: rest)
  refine ⟨_, _, fun c hc => h c (List.mem_of_mem_take hc), fun c hc => h c (List.mem_of_mem_drop hc),
    by rw [List.take_succ_cons]; exact List.cons_ne_nil _ _, List.ne_nil_of_length_pos (by omega),
    rfl, ?_⟩
  rw [List.take_append_drop, inside]
  rw [List.length_cons] at long ⊢
  refine congrArg _ (congrArg _ ?_)
  omega

/-- A magnitude is written with a point, or as a digit, a fraction if there is one, and an
exponent. -/
theorem toList_magnitude (h : AllDigits (first :: rest)) (power : ℤ) :
    Pointed (json.magnitude first rest power).toList
        (digitsValue (first :: rest) * 10 ^ (power - rest.length)) ∨
      (json.magnitude first rest power).toList
        = first :: ((if rest.isEmpty then [] else '.' :: rest) ++ exponentText power) := by
  have mark : json.wholeMark.toList = ['.', '0'] := rfl
  rw [magnitude]
  split
  · left
    split
    · next below =>
      rw [String.toList_append, String.toList_ofList, String.toList_ofList]
      exact pointed_below h below
    · next atLeast =>
      dsimp only
      split
      · next short =>
        rw [String.toList_append, String.toList_ofList, mark]
        exact pointed_whole h (not_lt.1 atLeast) short
      · next long =>
        rw [String.toList_append, String.toList_append, String.toList_ofList, String.toList_ofList,
          String.toList_ofList, List.append_assoc]
        exact pointed_among h (not_lt.1 atLeast) (not_le.1 long)
  · right
    have sign : (if power < 0 then "-" else json.exponentSign : String).toList
        = [if power < 0 then '-' else '+'] := by
      split <;> rfl
    have fraction : (if rest.isEmpty then "" else "." ++ String.ofList rest : String).toList
        = if rest.isEmpty then [] else '.' :: rest := by
      split
      · rfl
      · rw [String.toList_append, String.toList_ofList, String.toList_ofList, List.singleton_append]
    have exponent : "e".toList = ['e'] := rfl
    have front : first.toString.toList = [first] := String.toList_singleton first
    simp only [String.toList_append, sign, fraction, exponent, front, exponentText,
      Nat.toString_eq_ofList_toDigits, String.toList_ofList, List.append_assoc]
    rfl

end

/-- What the text of a magnitude is like: a word that begins with a digit, has a point or an exponent,
and spells a number. -/
structure Reads (text : List Char) (q : ℚ) : Prop where
  spelt : spelt? text = some q
  front : ∃ c cs, text = c :: cs ∧ c.isDigit = true
  word : ∀ c ∈ text, isWordChar c = true
  mark : '.' ∈ text ∨ 'e' ∈ text

theorem isWordChar_of_isDigit {c : Char} (h : c.isDigit = true) : isWordChar c = true := by
  simp [isWordChar, Char.isAlphanum, h]

theorem Pointed.reads {text : List Char} {q : ℚ} (h : Pointed text q) : Reads text q := by
  obtain ⟨whole, fraction, hw, hf, some, some', rfl, value⟩ := h
  obtain ⟨c, cs, rfl⟩ := List.exists_cons_of_ne_nil some
  refine ⟨by rw [spelt?_fraction hw hf some', value], ⟨c, _, rfl, hw c List.mem_cons_self⟩, ?_,
    .inl (List.mem_append_right _ List.mem_cons_self)⟩
  refine List.forall_mem_append.2 ⟨fun d hd => isWordChar_of_isDigit (hw d hd), ?_⟩
  exact List.forall_mem_cons.2 ⟨rfl, fun d hd => isWordChar_of_isDigit (hf d hd)⟩

theorem reads_exponent {first : Char} {rest : List Char} (h : AllDigits (first :: rest))
    (power : ℤ) :
    Reads (first :: ((if rest.isEmpty then [] else '.' :: rest) ++ exponentText power))
      (digitsValue (first :: rest) * 10 ^ (power - rest.length)) := by
  obtain ⟨digit, digits⟩ := List.forall_mem_cons.1 h
  refine ⟨spelt?_exponent h power, ⟨first, _, rfl, digit⟩, ?_,
    .inr (List.mem_cons_of_mem _ (List.mem_append_right _ List.mem_cons_self))⟩
  refine List.forall_mem_cons.2 ⟨isWordChar_of_isDigit digit, List.forall_mem_append.2 ⟨?_, ?_⟩⟩
  · split
    · exact fun _ none => absurd none List.not_mem_nil
    · exact List.forall_mem_cons.2 ⟨rfl, fun c hc => isWordChar_of_isDigit (digits c hc)⟩
  · refine List.forall_mem_cons.2 ⟨rfl, List.forall_mem_cons.2 ⟨by split <;> rfl, fun c hc => ?_⟩⟩
    exact isWordChar_of_isDigit (Nat.isDigit_of_mem_toDigits (by decide) (by decide) hc)

/-- The text of a magnitude spells its digits at their place. -/
theorem reads_magnitude {first : Char} {rest : List Char} (h : AllDigits (first :: rest))
    (power : ℤ) :
    Reads (json.magnitude first rest power).toList
      (digitsValue (first :: rest) * 10 ^ (power - rest.length)) := by
  rcases toList_magnitude h power with pointed | text
  · exact pointed.reads
  · rw [text]
    exact reads_exponent h power

/-- The zeros at the end of digits only say where the digits before them stand. -/
theorem toRat_eq_of_zeros {s : DecimalDigits} {first : Char} {rest : List Char} {zeros : ℕ}
    (number : s.digits = digitsValue (first :: rest) * 10 ^ zeros) :
    s.toRat = digitsValue (first :: rest) *
      10 ^ (s.exponent + ((first :: rest ++ List.replicate zeros '0').length : ℤ) - 1
        - rest.length) := by
  rw [DecimalDigits.toRat, number, Nat.cast_mul, mul_assoc, Nat.cast_pow, ← zpow_natCast,
    Nat.cast_ofNat, ← zpow_add₀ (by norm_num), List.length_append, List.length_replicate,
    List.length_cons]
  refine congrArg _ (congrArg _ ?_)
  push_cast
  omega

/-- The text of zero spells it. -/
theorem reads_zero {s : DecimalDigits} (none : s.digits = 0) : Reads ['0', '.', '0'] s.toRat := by
  have zero : digitsValue ['0', '0'] = 0 := rfl
  have pointed : Pointed ['0', '.', '0'] s.toRat := by
    refine ⟨['0'], ['0'], allDigits_zeros 1, allDigits_zeros 1, List.cons_ne_nil _ _,
      List.cons_ne_nil _ _, rfl, ?_⟩
    rw [DecimalDigits.toRat, none, List.singleton_append, zero, Nat.cast_zero, zero_mul, zero_mul]
  exact pointed.reads

/-- The text of a finite float is a sign and a text that spells its fewest digits. -/
theorem toList_finite (d : Dyadic) :
    ∃ text, (json.finite d).toList = (if d.negative then ['-'] else []) ++ text ∧
      Reads text (shortest .even d).toRat := by
  have tie : json.tie = .even := rfl
  obtain ⟨zeros, cut⟩ := dropFinalZeros_append (Nat.toDigits 10 (shortest .even d).digits)
  have digits : AllDigits (Nat.toDigits 10 (shortest .even d).digits) :=
    fun c => Nat.isDigit_of_mem_toDigits (by decide) (by decide)
  have value := digitsValue_toDigits (shortest .even d).digits
  have signed : ∀ s : String, (if d.negative then "-" ++ s else s).toList
      = (if d.negative then ['-'] else []) ++ s.toList := by
    intro s
    split
    · rw [String.toList_append]
      rfl
    · rfl
  simp only [finite, tie, signed]
  generalize Nat.toDigits 10 (shortest .even d).digits = all at cut digits value
  cases kept : dropFinalZeros all with
  | nil =>
    rw [kept, List.nil_append] at cut
    have none : (shortest .even d).digits = 0 := by
      have zero := digitsValue_append_zeros [] zeros
      rw [List.nil_append, ← cut, value] at zero
      exact zero.trans (Nat.zero_mul _)
    have written : ("0" ++ json.wholeMark).toList = ['0', '.', '0'] := String.toList_append
    exact ⟨['0', '.', '0'], congrArg _ written, reads_zero none⟩
  | cons first rest =>
    rw [kept] at cut
    rw [cut] at digits value ⊢
    have number := digitsValue_append_zeros (first :: rest) zeros
    rw [value] at number
    rw [toRat_eq_of_zeros number]
    exact ⟨_, rfl, reads_magnitude (fun c hc => digits c (List.mem_append_left _ hc)) _⟩

/-- A finite float is told by its text, the sign of a zero included. -/
theorem render_injective {x y : Float} {d d' : Dyadic} (hx : Dyadic.ofFloat? x = some d)
    (hy : Dyadic.ofFloat? y = some d') (h : json.render x = json.render y) : x = y := by
  obtain ⟨canonical, bits⟩ := Dyadic.ofFloat?_eq_some_iff.1 hx
  obtain ⟨canonical', bits'⟩ := Dyadic.ofFloat?_eq_some_iff.1 hy
  obtain ⟨text, written, reads⟩ := toList_finite d
  obtain ⟨text', written', reads'⟩ := toList_finite d'
  simp only [render, hx, hy] at h
  rw [h, written'] at written
  have unsigned : ∀ {text : List Char} {q : ℚ}, Reads text q → ∀ cs, text ≠ '-' :: cs := by
    rintro _ q reads cs rfl
    obtain ⟨c, _, same, digit⟩ := reads.front
    rw [← (List.cons.inj same).1] at digit
    cases digit
  -- the signs are told first, and then the magnitudes
  have same : d.negative = d'.negative ∧ text = text' := by
    cases negative : d.negative <;> cases negative' : d'.negative <;>
      simp only [negative, negative', Bool.false_eq_true, if_false, if_true, List.nil_append,
        List.singleton_append] at written
    · exact ⟨rfl, written.symm⟩
    · exact absurd written.symm (unsigned reads _)
    · exact absurd written (unsigned reads' _)
    · exact ⟨rfl, (List.cons.inj written).2.symm⟩
  obtain ⟨sign, rfl⟩ := same
  have spelt := Option.some.inj (reads.spelt.symm.trans reads'.spelt)
  obtain ⟨significand, exponent⟩ := significand_eq_of_shortest canonical canonical' spelt
  refine Float.toBits_inj.1 (UInt64.toNat_inj.1 ?_)
  rw [bits, bits', Dyadic.word, Dyadic.word, sign, significand, exponent]

end FloatLayout

end QueryForms
