import QueryForms.Proofs.Arithmetic
import QueryForms.Proofs.Number.ShortDecimal

/-!
# Neutral operands of a float

To add or subtract the integer zero, or to multiply with or divide by one, takes a float through
decimal arithmetic, which keeps the decimal as it is (`Decimal.onDecimals?_neutral`). So the result is
the number of the float if its decimal is, or if its decimal is a short one that the float is next to
(`applyArithmetic_neutral`); digits that the decimal does not have are lost (`neutral_loses_digits`).
-/

namespace QueryForms

/-- The operand that leaves every number as it is. -/
def ArithmeticOp.neutral : ArithmeticOp → Int64
  | add => 0
  | subtract => 0
  | multiply => 1
  | divide => 1

/-- The number that a value is. -/
def Value.rational? : Value → Option ℚ
  | .integer n => some n.toInt
  | .float x => rationalOf? x
  | _ => none

namespace Decimal

/-- The value that a decimal becomes: an integer if it is one, else a float. -/
def value (d : Decimal) : Value :=
  match d.toInt64? with
  | some n => .integer n
  | none => .float d.toFloat

theorem value_zero {d : Decimal} (zero : d.digits = 0) : d.value = .integer 0 := by
  have none : d.toInt64? = some 0 := by
    simp [toInt64?, zero, fit?_eq_some_iff]
  rw [value, none]

/-- A decimal that is the number of a float, over a power of two, becomes that number. -/
theorem rational?_value {d : Decimal} (binary : d.IsBinary) (h : Representable d.toRat) :
    d.value.rational? = some d.toRat := by
  rw [value]
  split
  · next n whole => rw [toRat_of_toInt64? whole, Value.rational?]
  · exact rationalOf?_toFloat binary h

/-- A short decimal that is not whole becomes a float next to it. -/
theorem rational?_value_rounds {d : Decimal} (few : d.digits < 2 ^ 51) (le : d.places ≤ 22)
    (fraction : d.places ≠ 0) (last : d.digits % 10 ≠ 0) :
    ∃ w, d.value.rational? = some (if d.negative then -w else w) ∧ RoundsTo d.magnitude w := by
  obtain ⟨w, left, rounds⟩ := rationalOf?_magnitudeFloat_rounds few le fraction last
  have none : d.toInt64? = none := if_neg (mod_ten_pow_ne_zero fraction last)
  refine ⟨w, ?_, rounds⟩
  rw [value, none, Value.rational?, toFloat]
  split
  · exact rationalOf?_neg left
  · exact left

theorem roundEven_mul (n : ℕ) {k : ℕ} (positive : 0 < k) : roundEven (n * k) k = n := by
  simp [roundEven, Nat.mul_div_cancel _ positive, positive]

/-- Digits over the power of ten of their places are kept. -/
theorem ofRatio?_ten_pow (negative : Bool) {digits : ℕ} (room : digits < capacity) (places : ℕ) :
    ofRatio? negative digits (10 ^ places) places = some ⟨negative, digits, places⟩ := by
  cases places with
  | zero =>
    have kept := roundEven_mul digits Nat.one_pos
    rw [Nat.mul_one] at kept
    simp only [ofRatio?, Nat.pow_zero, kept, if_pos room]
  | succ places =>
    have kept : roundEven (digits * Nat.pow 10 (places + 1)) (10 ^ (places + 1)) = digits :=
      roundEven_mul digits (Nat.pow_pos (by decide))
    simp only [ofRatio?, kept, if_pos room]

/-- Decimal arithmetic with a neutral operand keeps the value. -/
theorem onDecimals?_neutral (op : ArithmeticOp) {d : Decimal}
    (room : d.digits < capacity ∧ d.places ≤ maxPlaces) :
    ∃ result, op.onDecimals? d (ofInt64 op.neutral) = some result ∧ result.value = d.value := by
  by_cases zero : d.digits = 0
  · rw [value_zero zero]
    cases op with
    | add => exact ⟨_, if_pos zero, rfl⟩
    | subtract => exact ⟨_, if_pos zero, rfl⟩
    | multiply => exact ⟨_, if_pos (.inl zero), rfl⟩
    | divide => exact ⟨_, if_pos zero, rfl⟩
  · refine ⟨d, ?_, rfl⟩
    cases op with
    | add => exact (if_neg zero).trans (if_pos rfl)
    | subtract => exact (if_neg zero).trans (if_pos rfl)
    | multiply =>
      have one : ofInt64 ArithmeticOp.multiply.neutral = ⟨false, 1, 0⟩ := rfl
      have kept := ofRatio?_ten_pow d.negative room.1 d.places
      simpa [ArithmeticOp.onDecimals?, mul?, one, zero, min_eq_left room.2] using kept
    | divide =>
      have one : ofInt64 ArithmeticOp.divide.neutral = ⟨false, 1, 0⟩ := rfl
      have kept := ofRatio?_ten_pow d.negative room.1 d.places
      have even : appendedPlaces? d.digits 1 d.places (2 * maxPlaces + 1) 0 = some 0 := by
        simp [appendedPlaces?, Nat.mod_one]
      simpa [ArithmeticOp.onDecimals?, div?, one, zero, even, Nat.mod_one] using kept

end Decimal

theorem decimalArithmetic?_neutral (op : ArithmeticOp) {d : Decimal}
    (room : d.digits < Decimal.capacity ∧ d.places ≤ Decimal.maxPlaces) :
    decimalArithmetic? op (some d) (some (.ofInt64 op.neutral)) = some d.value := by
  obtain ⟨result, computed, same⟩ := Decimal.onDecimals?_neutral op room
  rw [← same, Decimal.value]
  simp only [decimalArithmetic?, bind, Option.bind, computed]
  cases result.toInt64? <;> rfl

/-! ## Floats beyond all decimals -/

/-- The result of an operator on floats is exact where the exact result is the number of a float. -/
theorem rationalOf?_onFloats (op : ArithmeticOp) {x y : Float} {p q : ℚ}
    (hx : rationalOf? x = some p) (hy : rationalOf? y = some q) (defined : op = .divide → q ≠ 0)
    (h : Representable (op.onRationals p q)) :
    rationalOf? (op.onFloats x y) = some (op.onRationals p q) := by
  cases op with
  | add => exact rationalOf?_add hx hy h
  | subtract => exact rationalOf?_sub hx hy h
  | multiply => exact rationalOf?_mul hx hy h
  | divide => exact rationalOf?_div hx hy (defined rfl) h

theorem rationalOf?_neutral (op : ArithmeticOp) :
    rationalOf? (floatOfInt64 op.neutral) = some (op.neutral.toInt : ℚ) := by
  have made : ∀ n : ℕ, n < 2 → rationalOf? (Float.ofInt n) = some (n : ℚ) := fun n lt =>
    rationalOf?_ofNat (representable_of_lt (by omega))
  cases op with
  | add => exact made 0 (by decide)
  | subtract => exact made 0 (by decide)
  | multiply => exact made 1 (by decide)
  | divide => exact made 1 (by decide)

theorem onRationals_neutral (op : ArithmeticOp) (q : ℚ) : op.onRationals q op.neutral.toInt = q := by
  cases op with
  | add => exact add_zero q
  | subtract => exact sub_zero q
  | multiply => exact mul_one q
  | divide => exact div_one q

/-- On floats a neutral operand changes nothing but the sign of a zero. -/
theorem onFloats_neutral (op : ArithmeticOp) {x : Float} {q : ℚ} (finite : rationalOf? x = some q)
    (nonzero : q ≠ 0) : op.onFloats x (floatOfInt64 op.neutral) = x := by
  have exact := rationalOf?_onFloats op finite (rationalOf?_neutral op)
    (by rintro rfl; exact one_ne_zero)
    (by rw [onRationals_neutral]; exact representable_of_rationalOf? finite)
  rw [onRationals_neutral] at exact
  exact eq_of_rationalOf? exact finite nonzero

/-! ## Through decimals -/

/-- What a float becomes on its way through decimal arithmetic. One without a decimal stays. -/
def throughDecimal (x : Float) : Value :=
  ((Decimal.ofFloat? x).map Decimal.value).getD (.float x)

theorem throughDecimal_short {x : Float} {q : ℚ} (finite : rationalOf? x = some q)
    {n k : ℕ} (value : |q| = n / 10 ^ k)
    (short : k = 0 ∧ n < Decimal.capacity ∨ n < 2 ^ 52 ∧ k ≤ Decimal.maxPlaces) :
    (throughDecimal x).rational? = some q := by
  obtain ⟨f, found, rfl⟩ := Option.map_eq_some_iff.1 finite
  rw [Dyadic.abs_toRat] at value
  obtain ⟨d, made, sign, magnitude, binary⟩ := Decimal.ofFloat?_exact found value short
  have same : d.toRat = f.toRat := by rw [Decimal.toRat, Dyadic.toRat, sign, magnitude]
  rw [throughDecimal, made, Option.map_some, Option.getD_some, ← same]
  exact Decimal.rational?_value binary (same ▸ representable_of_rationalOf? finite)

/-- A float that a short decimal stands for comes out as it is. -/
theorem throughDecimal_near {x : Float} {q : ℚ} (finite : rationalOf? x = some q) {n k : ℕ}
    (h : Decimal.StandsFor n k |q|) : (throughDecimal x).rational? = some q := by
  have few := h.few
  have nonneg : (0 : ℚ) ≤ n / 10 ^ k := by positivity
  by_cases whole : ∃ m : ℕ, |q| = m
  · obtain ⟨m, value⟩ := whole
    refine throughDecimal_short finite (k := 0) (by rw [value, pow_zero, div_one]) (.inl ⟨rfl, ?_⟩)
    have zero := h.nearest 0 (by exact_mod_cast representable_of_lt (show 0 < 2 ^ 53 by decide))
    rw [zero_sub, abs_neg, abs_of_nonneg nonneg, abs_le, value] at zero
    have less : (n : ℚ) / 10 ^ k ≤ n := div_le_self (by positivity) (one_le_pow₀ (by norm_num))
    have twice : (m : ℚ) ≤ (2 * n : ℕ) := by
      push_cast
      linarith
    have twice : m ≤ 2 * n := by exact_mod_cast twice
    have : 2 ^ 52 < Decimal.capacity := by decide
    omega
  have notOf : ∀ m : ℕ, (n : ℚ) / 10 ^ k = m → m < 2 ^ 53 → False := fun m value lt => whole <| by
    have same := h.nearest m (representable_of_lt lt)
    rw [value, sub_self, abs_zero] at same
    exact ⟨m, sub_eq_zero.1 (abs_nonpos_iff.1 same)⟩
  have positive : 0 < n := Nat.pos_of_ne_zero fun zero => notOf 0 (by simp [zero]) (by decide)
  obtain ⟨f, found, rfl⟩ := Option.map_eq_some_iff.1 finite
  have canonical := (Dyadic.ofFloat?_eq_some_iff.1 found).1
  rw [Dyadic.abs_toRat] at h whole
  have rounds := h.nearest.roundsTo
    (representable_natCast canonical.lt canonical.least canonical.greatest)
    (Decimal.div_ten_pow_range positive (by omega) h.places)
  have fraction : f.exponent < 0 := not_le.1 fun le => whole ⟨_, Decimal.magnitude_of_whole le⟩
  obtain ⟨d, made, sign, value, fewer, shorter, last⟩ :=
    Decimal.ofFloat?_near found fraction positive h rounds
  have places : d.places ≠ 0 := fun none => notOf d.digits
    (by rw [← value, Decimal.magnitude, none, pow_zero, div_one]) (by omega)
  have le := h.places
  obtain ⟨w, left, near⟩ := Decimal.rational?_value_rounds (d := d) (by omega) (by omega) places
    (last.resolve_left places)
  rw [value] at near
  rw [throughDecimal, made, Option.map_some, Option.getD_some, left,
    near.eq_of_short (by omega) rounds, sign]
  rfl

/-- A neutral operand takes a float through decimal arithmetic, the same way for every operator. A whole
float comes out as the number that it is, and so does one that is few digits over a power of ten or that
a short decimal stands for. -/
theorem applyArithmetic_neutral {x : Float} {q : ℚ} (finite : rationalOf? x = some q) :
    (∀ op : ArithmeticOp, applyArithmetic op (.float x) (.integer op.neutral)
      = .ok (throughDecimal x)) ∧
    ((∃ n : ℤ, q = n) ∨ (∃ n k : ℕ, |q| = n / 10 ^ k ∧ n < 2 ^ 52 ∧ k ≤ Decimal.maxPlaces) ∨
        (∃ n k : ℕ, Decimal.StandsFor n k |q|) →
      (throughDecimal x).rational? = some q) := by
  have room := Decimal.ofFloat?_eq_none_iff finite
  refine ⟨fun op => ?_, ?_⟩
  · rw [throughDecimal, applyArithmetic, mixedArithmetic]
    cases made : Decimal.ofFloat? x with
    | none =>
      have nonzero : q ≠ 0 := fun zero => by
        have := room.1 made
        rw [zero, abs_zero] at this
        norm_num at this
      exact congrArg (Except.ok ∘ Value.float) (onFloats_neutral op finite nonzero)
    | some d =>
      rw [decimalArithmetic?_neutral op (Decimal.ofFloat?_lt made)]
      rfl
  · rintro (⟨n, rfl⟩ | ⟨n, k, value, few⟩ | ⟨n, k, near⟩)
    · by_cases made : Decimal.ofFloat? x = none
      · rw [throughDecimal, made]
        exact finite
      · have value : |(n : ℚ)| = n.natAbs := by rw [Nat.cast_natAbs, Int.cast_abs]
        have lt := not_le.1 (mt room.2 made)
        rw [value] at lt
        refine throughDecimal_short finite (k := 0) (by rw [value, pow_zero, div_one])
          (.inl ⟨rfl, ?_⟩)
        exact_mod_cast lt
    · exact throughDecimal_short finite value (.inr few)
    · exact throughDecimal_near finite near

/-- The float next to eleven tenths. -/
theorem applyArithmetic_neutral_eleven_tenths :
    rationalOf? (.ofBits 0x3FF199999999999A) = some (0x1199999999999A / 2 ^ 52) ∧
      Decimal.StandsFor 11 1 (0x1199999999999A / 2 ^ 52) ∧
      (∀ op : ArithmeticOp, applyArithmetic op (.float (.ofBits 0x3FF199999999999A))
        (.integer op.neutral) = .ok (throughDecimal (.ofBits 0x3FF199999999999A))) ∧
      (throughDecimal (.ofBits 0x3FF199999999999A)).rational? = some (0x1199999999999A / 2 ^ 52) := by
  obtain ⟨finite, nearest⟩ := isNearest_of_form (x := .ofBits 0x3FF199999999999A)
    (r := 0x1199999999999A) (e := -52) (v := 11 / 10 ^ 1) rfl (by decide) (by norm_num) (by norm_num)
    (by norm_num [abs_le])
  have value : ((0x1199999999999A : ℕ) : ℚ) * 2 ^ (-52 : ℤ) = 0x1199999999999A / 2 ^ 52 := by norm_num
  rw [value] at finite nearest
  have stands : Decimal.StandsFor 11 1 (0x1199999999999A / 2 ^ 52) := by
    refine ⟨nearest, by decide, by decide, fun j room _ => .inl ?_⟩
    have : j ≤ 14 := by
      by_contra more
      have := Nat.pow_le_pow_right (show 0 < 10 by decide) (show 15 ≤ j by omega)
      omega
    have := Nat.pow_le_pow_right (show 0 < 10 by decide) this
    omega
  obtain ⟨computed, kept⟩ := applyArithmetic_neutral finite
  refine ⟨finite, stands, computed, kept (.inr (.inr ⟨11, 1, ?_⟩))⟩
  rwa [abs_of_pos (by norm_num)]

set_option maxRecDepth 2000 in
/-- A tiny float is lost beside every neutral operand, and a float next to three tenths loses its last
digit beside one. So do floats next to a decimal that lies four ninths of a digit below them, that has
16 digits or that has 23 places. -/
theorem neutral_loses_digits :
    (∃ q : ℚ, rationalOf? (.ofBits 0x398039D665896880) = some q ∧ 0 < q) ∧
      (∀ op : ArithmeticOp, applyArithmetic op (.float (.ofBits 0x398039D665896880))
        (.integer op.neutral) = .ok (.integer 0)) ∧
      applyArithmetic .multiply (.float (.ofBits 0x3FD3333333333334)) (.integer 1)
        = .ok (.float (.ofBits 0x3FD3333333333333)) ∧
      (∃ q, rationalOf? (.ofBits 0x40B00EC76C8B4396) = some q ∧ IsNearest q (4110779 / 10 ^ 3)) ∧
      applyArithmetic .multiply (.float (.ofBits 0x40B00EC76C8B4396)) (.integer 1)
        = .ok (.float (.ofBits 0x40B00EC76C8B4398)) ∧
      (∃ q, rationalOf? (.ofBits 0x3E90AD2B12B22B2E) = some q ∧
        IsNearest q (2484982981129947 / 10 ^ 22)) ∧
      applyArithmetic .multiply (.float (.ofBits 0x3E90AD2B12B22B2E)) (.integer 1)
        = .ok (.float (.ofBits 0x3E90AD2B12B22B2F)) ∧
      (∃ q, rationalOf? (.ofBits 0x3B282DB34012B251) = some q ∧ IsNearest q (1 / 10 ^ 23)) ∧
      applyArithmetic .multiply (.float (.ofBits 0x3B282DB34012B251)) (.integer 1)
        = .ok (.float (.ofBits 0x3B282DB34012B252)) := by
  have form : Dyadic.ofFloat? (.ofBits 0x398039D665896880)
      = some ⟨false, 2 ^ 52 + 0x39D665896880, -155⟩ := rfl
  have ninths := isNearest_of_form (x := .ofBits 0x40B00EC76C8B4396) (r := 0x100EC76C8B4396) (e := -40)
    (v := 4110779 / 10 ^ 3) rfl (by decide) (by norm_num) (by norm_num) (by norm_num [abs_le])
  have digits := isNearest_of_form (x := .ofBits 0x3E90AD2B12B22B2E) (r := 0x10AD2B12B22B2E) (e := -74)
    (v := 2484982981129947 / 10 ^ 22) rfl (by decide) (by norm_num) (by norm_num)
    (by norm_num [abs_le])
  have places := isNearest_of_form (x := .ofBits 0x3B282DB34012B251) (r := 0x182DB34012B251) (e := -129)
    (v := 1 / 10 ^ 23) rfl (by decide) (by norm_num) (by norm_num) (by norm_num [abs_le])
  refine ⟨⟨_, congrArg (Option.map Dyadic.toRat) form, ?_⟩, fun op => ?_, rfl, ⟨_, ninths⟩, rfl,
    ⟨_, digits⟩, rfl, ⟨_, places⟩, rfl⟩
  · rw [Dyadic.toRat, Dyadic.magnitude]
    norm_num
  · cases op <;> rfl

end QueryForms
