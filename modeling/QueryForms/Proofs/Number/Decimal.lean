import Mathlib.Data.Int.Cast.Field
import Mathlib.Data.Nat.Factorization.Basic
import QueryForms.Number.Decimal
import QueryForms.Proofs.Number.Rounding

/-!
# Floats in decimal arithmetic

A float enters decimal arithmetic as a decimal with room for its whole part, or not at all
(`Decimal.ofFloat?_eq_none_iff`). The decimal is the number of the float if that is whole or has few
enough digits (`Decimal.ofFloat?_exact`), and where the decimal is that number it leaves as the float
it came from (`Decimal.rationalOf?_toFloat`).
-/

namespace QueryForms

namespace Decimal

/-- The magnitude as a rational number. -/
def magnitude (d : Decimal) : ℚ :=
  d.digits / 10 ^ d.places

/-- The number as a rational one. -/
def toRat (d : Decimal) : ℚ :=
  if d.negative then -d.magnitude else d.magnitude

/-! ## Digits of a float -/

theorem dropDigit_le (digits : ℕ) : dropDigit digits ≤ digits := by
  unfold dropDigit
  split <;> omega

theorem halve_lt {steps digits : ℕ} (room : digits < capacity) (halved : ℕ) :
    (halve steps digits halved).1 < capacity := by
  induction steps generalizing digits halved with
  | zero => exact room
  | succ steps ih =>
    rw [halve]
    split
    · next factor => exact ih factor.2 halved
    · exact ih (by omega) (halved + 1)

theorem dropPlaces_le (excess digits places : ℕ) :
    (dropPlaces excess digits places).1 ≤ digits ∧
      (dropPlaces excess digits places).2 ≤ places - excess := by
  induction excess generalizing digits places with
  | zero => exact ⟨le_rfl, le_rfl⟩
  | succ excess ih =>
    rw [dropPlaces]
    split
    · exact ⟨Nat.zero_le _, Nat.zero_le _⟩
    · have := ih (dropDigit digits) (places - 1)
      have := dropDigit_le digits
      omega

theorem dropUncertain_le (digits places : ℕ) :
    (dropUncertain digits places).1 ≤ digits ∧ (dropUncertain digits places).2 ≤ places := by
  induction places generalizing digits with
  | zero => exact ⟨le_rfl, le_rfl⟩
  | succ places ih =>
    rw [dropUncertain]
    split
    · have := ih (dropDigit digits)
      have := dropDigit_le digits
      omega
    · exact ⟨le_rfl, le_rfl⟩

theorem dropZeros_le (digits places : ℕ) :
    (dropZeros digits places).1 ≤ digits ∧ (dropZeros digits places).2 ≤ places := by
  induction places generalizing digits with
  | zero => exact ⟨le_rfl, le_rfl⟩
  | succ places ih =>
    rw [dropZeros]
    split
    · have := ih (digits / 10)
      omega
    · exact ⟨le_rfl, le_rfl⟩

/-- The digits and places that a significand over a power of two has as a decimal. -/
def digitsOf (down significand : ℕ) : ℕ × ℕ :=
  let halved := halve down significand 0
  let dropped := dropPlaces (down - halved.2 - maxPlaces) halved.1 (down - halved.2)
  let certain := dropUncertain dropped.1 dropped.2
  dropZeros certain.1 certain.2

theorem digitsOf_lt {significand : ℕ} (room : significand < capacity) (down : ℕ) :
    (digitsOf down significand).1 < capacity ∧ (digitsOf down significand).2 ≤ maxPlaces := by
  have halved := @halve_lt down significand room 0
  rw [digitsOf]
  generalize halve down significand 0 = h at halved
  have dropped := dropPlaces_le (down - h.2 - maxPlaces) h.1 (down - h.2)
  generalize dropPlaces (down - h.2 - maxPlaces) h.1 (down - h.2) = p at dropped
  have certain := dropUncertain_le p.1 p.2
  generalize dropUncertain p.1 p.2 = c at certain
  have := dropZeros_le c.1 c.2
  omega

/-- Even digits are halved as often as they can be. -/
theorem halve_even (a steps digits halved : ℕ) :
    halve (a + steps) (digits * 2 ^ a) halved = halve steps digits (halved + a) := by
  induction a generalizing halved with
  | zero => rw [Nat.zero_add, Nat.pow_zero, Nat.mul_one, Nat.add_zero]
  | succ a ih =>
    have even : digits * 2 ^ (a + 1) = digits * 2 ^ a * 2 := by rw [Nat.pow_succ, Nat.mul_assoc]
    rw [show a + 1 + steps = a + steps + 1 by omega, halve, even, if_neg (by omega),
      Nat.mul_div_cancel _ (by decide), ih, Nat.add_assoc, Nat.add_comm 1]

/-- Odd digits take a factor five for each halving while there is room. -/
theorem halve_odd {steps digits : ℕ} (odd : digits % 2 = 1) (room : digits * 5 ^ steps < capacity)
    (halved : ℕ) : halve steps digits halved = (digits * 5 ^ steps, halved) := by
  induction steps generalizing digits with
  | zero => rw [halve, Nat.pow_zero, Nat.mul_one]
  | succ steps ih =>
    rw [Nat.pow_succ', ← Nat.mul_assoc] at room ⊢
    have := Nat.le_mul_of_pos_right (digits * 5) (Nat.pow_pos (n := steps) (show 0 < 5 by decide))
    rw [halve, if_pos ⟨odd, by omega⟩, ih (by omega) room]

/-- Over a power of two that divides it a significand has no places. -/
theorem digitsOf_whole (down n : ℕ) : digitsOf down (n * 2 ^ down) = (n, 0) := by
  have halved := halve_even down 0 n 0
  rw [Nat.add_zero] at halved
  simp only [digitsOf, halved, halve, Nat.zero_add, Nat.sub_self, Nat.zero_sub, dropPlaces,
    dropUncertain, dropZeros]

/-- Over a greater power of two it has a place for each halving that is left, if the digits are few
enough. -/
theorem digitsOf_odd {a places odd : ℕ} (ends : odd % 2 = 1) (few : odd * 5 ^ places < 2 ^ 52)
    (le : places ≤ maxPlaces) : digitsOf (a + places) (odd * 2 ^ a) = (odd * 5 ^ places, places) := by
  have room : odd * 5 ^ places < capacity := few.trans (by decide)
  have halved := halve_even a places odd 0
  rw [halve_odd ends room] at halved
  have last : odd * 5 ^ places % 10 ≠ 0 := fun zero => by
    have := Nat.odd_mul.2 ⟨Nat.odd_iff.2 ends, Odd.pow (n := places) (show Odd 5 by decide)⟩
    rw [Nat.odd_iff] at this
    omega
  simp only [digitsOf, halved, Nat.zero_add, Nat.add_sub_cancel_left, Nat.sub_eq_zero_of_le le,
    dropPlaces]
  cases places with
  | zero => rfl
  | succ places =>
    have certain : ¬Nat.pow 2 52 ≤ odd * 5 ^ (places + 1) := not_le.2 few
    rw [dropUncertain, if_neg certain, dropZeros, if_neg last]

theorem mul_five_pow_div (m places : ℕ) :
    ((m * 5 ^ places : ℕ) : ℚ) / 10 ^ places = m / 2 ^ places := by
  push_cast
  rw [show (10 : ℚ) = 2 * 5 by norm_num, mul_pow, mul_div_mul_right _ _ (by positivity)]

/-- Whole decimals, and those of few digits that are numbers over a power of two. -/
def IsBinary (d : Decimal) : Prop :=
  d.places = 0 ∨ ∃ m, 1 ≤ m ∧ d.digits = m * 5 ^ d.places ∧ d.digits < 2 ^ 52

/-- An odd number over a power of two needs a place for each halving. -/
theorem odd_mul_le {m n k places : ℕ} (odd : Odd m) (same : m * 10 ^ k = n * 2 ^ places) :
    places ≤ k ∧ m * 5 ^ places ≤ n := by
  have le : places ≤ k := by
    have divides : 2 ^ places ∣ m * 5 ^ k * 2 ^ k := by
      rw [Nat.mul_assoc, ← Nat.mul_pow, same]
      exact Nat.dvd_mul_left _ _
    have coprime : Nat.Coprime (2 ^ places) (m * 5 ^ k) :=
      .pow_left _ (Nat.coprime_two_left.2 (odd.mul (Odd.pow (by decide))))
    exact (Nat.pow_dvd_pow_iff_le_right (by decide)).1 (coprime.dvd_of_dvd_mul_left divides)
  obtain ⟨j, rfl⟩ := Nat.exists_eq_add_of_le le
  have whole : m * 5 ^ places * 10 ^ j = n := by
    refine Nat.eq_of_mul_eq_mul_right (Nat.two_pow_pos places) (same ▸ ?_)
    rw [Nat.pow_add, show 10 ^ places = 5 ^ places * 2 ^ places from Nat.mul_pow 5 2 places]
    ring
  exact ⟨le, whole ▸ Nat.le_mul_of_pos_right _ (by positivity)⟩

theorem mul_two_pow_div (m a places : ℕ) :
    ((m * 2 ^ a : ℕ) : ℚ) / 2 ^ (a + places) = m / 2 ^ places := by
  push_cast
  rw [pow_add, mul_comm (2 ^ a : ℚ), mul_div_mul_right _ _ (by positivity)]

/-- What is few digits over a power of ten, or whole, has its own digits over a power of two. -/
theorem digitsOf_exact (negative : Bool) {significand down n k : ℕ} (nonzero : significand ≠ 0)
    (value : (significand : ℚ) / 2 ^ down = n / 10 ^ k) (short : k = 0 ∨ n < 2 ^ 52 ∧ k ≤ maxPlaces) :
    magnitude ⟨negative, (digitsOf down significand).1, (digitsOf down significand).2⟩
        = significand / 2 ^ down ∧
      IsBinary ⟨negative, (digitsOf down significand).1, (digitsOf down significand).2⟩ := by
  obtain ⟨a, m, odd, bits⟩ := Nat.exists_eq_two_pow_mul_odd nonzero
  rw [Nat.mul_comm] at bits
  subst bits
  rcases Nat.lt_or_ge a down with less | le
  · obtain ⟨places, rfl⟩ := Nat.exists_eq_add_of_le less.le
    rw [mul_two_pow_div] at value ⊢
    have same : m * 10 ^ k = n * 2 ^ places := by
      rw [div_eq_div_iff (by positivity) (by positivity)] at value
      exact_mod_cast value
    have few := odd_mul_le odd same
    have digit : 1 ≤ m := odd.pos
    rw [digitsOf_odd (Nat.odd_iff.1 odd) (by omega) (by omega)]
    exact ⟨mul_five_pow_div m places, .inr ⟨m, digit, rfl, show m * 5 ^ places < 2 ^ 52 by omega⟩⟩
  · obtain ⟨b, rfl⟩ := Nat.exists_eq_add_of_le' le
    have quotient := mul_two_pow_div (m * 2 ^ b) down 0
    rw [Nat.pow_add, ← Nat.mul_assoc, digitsOf_whole]
    exact ⟨quotient.symm, .inl rfl⟩

/-! ## The decimal of a float -/

variable {x : Float} {f : Dyadic}

theorem ofFloat?_zero (found : Dyadic.ofFloat? x = some f) (zero : f.significand = 0) :
    ofFloat? x = some ⟨f.negative, 0, 0⟩ := by
  simp [ofFloat?, found, zero]

theorem ofFloat?_whole (found : Dyadic.ofFloat? x = some f) (nonzero : f.significand ≠ 0)
    (whole : 0 ≤ f.exponent) :
    ofFloat? x = if f.significand * 2 ^ f.exponent.toNat < capacity then
      some ⟨f.negative, f.significand * 2 ^ f.exponent.toNat, 0⟩ else none := by
  simp [ofFloat?, found, nonzero, whole]

theorem ofFloat?_fraction (found : Dyadic.ofFloat? x = some f) (nonzero : f.significand ≠ 0)
    (fraction : f.exponent < 0) :
    ofFloat? x = some ⟨f.negative, (digitsOf (-f.exponent).toNat f.significand).1,
      (digitsOf (-f.exponent).toNat f.significand).2⟩ := by
  simp [ofFloat?, found, nonzero, fraction, digitsOf]

/-- The decimal of a float has room for its digits and its places. -/
theorem ofFloat?_lt {d : Decimal} (made : ofFloat? x = some d) :
    d.digits < capacity ∧ d.places ≤ maxPlaces := by
  cases found : Dyadic.ofFloat? x with
  | none => simp [ofFloat?, found] at made
  | some f =>
    by_cases zero : f.significand = 0
    · cases (ofFloat?_zero found zero).symm.trans made
      exact ⟨show 0 < capacity by decide, Nat.zero_le _⟩
    · rcases lt_or_ge f.exponent 0 with fraction | whole
      · cases (ofFloat?_fraction found zero fraction).symm.trans made
        have bits := (Dyadic.ofFloat?_eq_some_iff.1 found).1.lt
        exact digitsOf_lt (bits.trans (by decide)) _
      · have made := (ofFloat?_whole found zero whole).symm.trans made
        split at made
        · next room =>
          cases made
          exact ⟨room, Nat.zero_le _⟩
        · cases made

theorem magnitude_of_whole {f : Dyadic} (whole : 0 ≤ f.exponent) :
    f.magnitude = (f.significand * 2 ^ f.exponent.toNat : ℕ) := by
  rw [Dyadic.magnitude, ← Int.toNat_of_nonneg whole, zpow_natCast, Int.toNat_natCast]
  push_cast
  rfl

theorem magnitude_of_fraction {f : Dyadic} (fraction : f.exponent < 0) :
    f.magnitude = f.significand / 2 ^ (-f.exponent).toNat := by
  have down : f.exponent = -((-f.exponent).toNat : ℤ) := by omega
  rw [Dyadic.magnitude, div_eq_mul_inv, ← zpow_natCast, ← zpow_neg, ← down]

/-- A float has no decimal if it has no room in one. -/
theorem ofFloat?_eq_none_iff {q : ℚ} (value : rationalOf? x = some q) :
    ofFloat? x = none ↔ 2 ^ 96 ≤ |q| := by
  obtain ⟨f, found, rfl⟩ := Option.map_eq_some_iff.1 value
  rw [Dyadic.abs_toRat]
  by_cases zero : f.significand = 0
  · rw [ofFloat?_zero found zero, Dyadic.magnitude_eq_zero_iff.2 zero]
    exact iff_of_false nofun (by norm_num)
  · rcases lt_or_ge f.exponent 0 with fraction | whole
    · rw [ofFloat?_fraction found zero fraction]
      refine iff_of_false nofun (not_le.2 ?_)
      have bits := (Dyadic.ofFloat?_eq_some_iff.1 found).1.lt
      rw [magnitude_of_fraction fraction]
      calc (f.significand : ℚ) / 2 ^ (-f.exponent).toNat
          ≤ f.significand := div_le_self (Nat.cast_nonneg _) (one_le_pow₀ (by norm_num))
        _ < 2 ^ 96 := by exact_mod_cast bits.trans (by norm_num)
    · rw [ofFloat?_whole found zero whole, magnitude_of_whole whole]
      have bound : capacity = 2 ^ 96 := rfl
      split
      · next room =>
        exact iff_of_false nofun (not_le.2 (by rw [bound] at room; exact_mod_cast room))
      · next room =>
        exact iff_of_true rfl (by rw [bound] at room; exact_mod_cast not_lt.1 room)

/-- The decimal of a float is its number if that is whole and there is room for it, or if it is one
of few digits over a power of ten. -/
theorem ofFloat?_exact (found : Dyadic.ofFloat? x = some f) {n k : ℕ}
    (value : f.magnitude = n / 10 ^ k) (short : k = 0 ∧ n < capacity ∨ n < 2 ^ 52 ∧ k ≤ maxPlaces) :
    ∃ d : Decimal, ofFloat? x = some d ∧ d.negative = f.negative ∧ d.magnitude = f.magnitude ∧
      d.IsBinary := by
  by_cases zero : f.significand = 0
  · refine ⟨_, ofFloat?_zero found zero, rfl, ?_, .inl rfl⟩
    rw [Dyadic.magnitude_eq_zero_iff.2 zero, magnitude, Nat.cast_zero, zero_div]
  rcases lt_or_ge f.exponent 0 with fraction | whole
  · rw [magnitude_of_fraction fraction] at value ⊢
    obtain ⟨same, binary⟩ := digitsOf_exact f.negative zero value (by omega)
    exact ⟨_, ofFloat?_fraction found zero fraction, rfl, same, binary⟩
  · have room : f.significand * 2 ^ f.exponent.toNat < capacity := by
      rw [magnitude_of_whole whole, eq_div_iff (by positivity)] at value
      have same : f.significand * 2 ^ f.exponent.toNat * 10 ^ k = n := by exact_mod_cast value
      have := Nat.le_mul_of_pos_right (f.significand * 2 ^ f.exponent.toNat)
        (show 0 < 10 ^ k by positivity)
      have : 2 ^ 52 < capacity := by decide
      omega
    refine ⟨_, (ofFloat?_whole found zero whole).trans (if_pos room), rfl, ?_, .inl rfl⟩
    rw [magnitude, magnitude_of_whole whole, Nat.cast_mul, pow_zero, div_one]

/-! ## Back to floats -/

/-- The nearest whole number is the one that is less than half away. -/
theorem nearestMagnitude_eq {n : ℕ} (near : |f.magnitude - n| < 1 / 2) : f.nearestMagnitude = n := by
  rw [abs_lt] at near
  simp only [Dyadic.nearestMagnitude]
  rcases lt_or_ge f.exponent 0 with fraction | le
  · rw [magnitude_of_fraction fraction] at near
    have nonzero : (-f.exponent).toNat ≠ 0 := by omega
    obtain ⟨down, bits⟩ := Nat.exists_eq_succ_of_ne_zero nonzero
    rw [if_neg nonzero, bits, Nat.succ_sub_one]
    rw [bits, pow_succ, lt_sub_iff_add_lt, sub_lt_iff_lt_add, lt_div_iff₀ (by positivity),
      div_lt_iff₀ (by positivity)] at near
    have low : (n * (2 ^ down * 2) : ℚ) < f.significand + 2 ^ down := by linarith
    have high : (f.significand + 2 ^ down : ℚ) < (n + 1) * (2 ^ down * 2) := by linarith
    have low : n * (2 ^ down * 2) < f.significand + 2 ^ down := by exact_mod_cast low
    have high : f.significand + 2 ^ down < (n + 1) * (2 ^ down * 2) := by exact_mod_cast high
    exact Nat.div_eq_of_lt_le low.le high
  · rw [magnitude_of_whole le] at near
    rw [if_pos (by omega)]
    have low : (n : ℚ) < (f.significand * 2 ^ f.exponent.toNat : ℕ) + 1 := by linarith
    have high : ((f.significand * 2 ^ f.exponent.toNat : ℕ) : ℚ) < n + 1 := by linarith
    exact le_antisymm (Nat.lt_succ_iff.1 (by exact_mod_cast high))
      (Nat.lt_succ_iff.1 (by exact_mod_cast low))

theorem rationalOf?_ten_pow {places : ℕ} (le : places ≤ 22) :
    rationalOf? (.ofNat (10 ^ places)) = some (10 ^ places) := by
  have lt : 5 ^ places < 2 ^ 53 := (Nat.pow_le_pow_right (by decide) le).trans_lt (by decide)
  have representable := @representable_natCast (5 ^ places) places lt (by omega) (by omega)
  rw [zpow_natCast, Nat.cast_pow, ← mul_pow] at representable
  have value : (((10 ^ places : ℕ) : ℚ)) = (((5 : ℕ) : ℚ) * 2) ^ places := by norm_num
  rw [rationalOf?_ofNat (value ▸ representable)]
  norm_num

/-- Whole part and fraction of digits with places. -/
theorem div_add_mod_div (n p : ℕ) :
    ((n / 10 ^ p : ℕ) : ℚ) + ((n % 10 ^ p : ℕ) : ℚ) / 10 ^ p = n / 10 ^ p := by
  have whole : ((10 ^ p * (n / 10 ^ p) + n % 10 ^ p : ℕ) : ℚ) = n := by rw [Nat.div_add_mod]
  rw [← whole]
  push_cast
  rw [add_div, mul_div_cancel_left₀ _ (by positivity)]

section

variable {n m p : ℕ} (digit : 1 ≤ m) (digits : n = m * 5 ^ p) (few : n < 2 ^ 52)

include digit digits few

theorem places_le : p ≤ 22 := by
  have five : 5 ^ p ≤ n := digits ▸ Nat.le_mul_of_pos_left _ digit
  by_contra more
  have : 5 ^ 23 ≤ 5 ^ p := Nat.pow_le_pow_right (by decide) (by omega)
  omega

/-- The fraction of a number over a power of two is one. -/
theorem rationalOf?_rest :
    rationalOf? (.ofNat (n % 10 ^ p) / .ofNat (10 ^ p))
      = some (((n % 10 ^ p : ℕ) : ℚ) / 10 ^ p) := by
  have le := places_le digit digits few
  have rest : n % 10 ^ p = m % 2 ^ p * 5 ^ p := by
    rw [digits, show 10 ^ p = 2 ^ p * 5 ^ p from Nat.mul_pow 2 5 p, Nat.mul_mod_mul_right]
  have lt : m % 2 ^ p ≤ n :=
    (Nat.mod_le _ _).trans (digits ▸ Nat.le_mul_of_pos_right _ (by positivity))
  have restLt : n % 10 ^ p < 2 ^ 53 := (Nat.mod_le _ _).trans_lt (by omega)
  refine rationalOf?_div (rationalOf?_ofNat (representable_of_lt restLt)) (rationalOf?_ten_pow le)
    (by positivity) ?_
  rw [rest, mul_five_pow_div]
  exact representable_div (by omega) (by omega)

end

/-- A decimal that is a number over a power of two leaves as that number. -/
theorem rationalOf?_magnitudeFloat {d : Decimal} (binary : d.IsBinary)
    (h : Representable d.magnitude) : rationalOf? d.magnitudeFloat = some d.magnitude := by
  rw [magnitudeFloat]
  split
  · next whole =>
    rw [magnitude, whole, pow_zero, div_one] at h ⊢
    exact rationalOf?_ofNat h
  · next places =>
    obtain ⟨m, digit, digits, few⟩ := binary.resolve_left places
    rw [magnitude] at h ⊢
    generalize d.digits = n at *
    generalize d.places = p at *
    have lt : n < 2 ^ 53 := by omega
    have unit := rationalOf?_ten_pow (places_le digit digits few)
    have nonzero : (10 ^ p : ℚ) ≠ 0 := by positivity
    have whole := rationalOf?_ofNat (representable_of_lt ((Nat.div_le_self n (10 ^ p)).trans_lt lt))
    have fraction := rationalOf?_rest digit digits few
    have sum := rationalOf?_add whole fraction (by rwa [div_add_mod_div])
    rw [div_add_mod_div] at sum
    have product := rationalOf?_mul sum unit
      (by rw [div_mul_cancel₀ _ nonzero]; exact representable_of_lt lt)
    rw [div_mul_cancel₀ _ nonzero] at product
    dsimp only
    split
    · next none =>
      rw [← div_add_mod_div, (beq_iff fraction rationalOf?_zero).1 none, add_zero]
      exact whole
    · -- the product is whole already, so it is rounded to itself
      obtain ⟨scaled, found, value⟩ := Option.map_eq_some_iff.1 product
      have near : |scaled.magnitude - n| < 1 / 2 := by
        rw [← Dyadic.abs_toRat, value, Nat.abs_cast, sub_self, abs_zero]
        norm_num
      have same : Dyadic.ofFloat? ((.ofNat (n / Nat.pow 10 p)
          + .ofNat (n % Nat.pow 10 p) / .ofNat (Nat.pow 10 p)) * .ofNat (Nat.pow 10 p))
          = some scaled := found
      rw [same]
      dsimp only
      rw [nearestMagnitude_eq near]
      exact rationalOf?_div (rationalOf?_ofNat (representable_of_lt lt)) unit nonzero h

theorem rationalOf?_toFloat {d : Decimal} (binary : d.IsBinary) (h : Representable d.toRat) :
    rationalOf? d.toFloat = some d.toRat := by
  rw [toRat] at *
  rw [toFloat]
  split at h
  · next negative =>
    rw [if_pos negative, if_pos negative]
    exact rationalOf?_neg (rationalOf?_magnitudeFloat binary (neg_neg d.magnitude ▸ h.neg))
  · next positive =>
    rw [if_neg positive, if_neg positive]
    exact rationalOf?_magnitudeFloat binary h

theorem toRat_of_toInt64? {d : Decimal} {n : Int64} (h : d.toInt64? = some n) :
    d.toRat = n.toInt := by
  rw [toInt64?] at h
  split at h
  · next whole =>
    have value : d.magnitude = ((d.digits / Nat.pow 10 d.places : ℤ) : ℚ) := by
      have divides := Nat.dvd_of_mod_eq_zero whole
      have power : Nat.pow 10 d.places = 10 ^ d.places := rfl
      rw [power] at divides ⊢
      rw [Int.cast_div (by exact_mod_cast divides) (by positivity), magnitude]
      push_cast
      rfl
    rw [fit?_eq_some_iff] at h
    rw [h, toRat, value]
    split
    · exact (Int.cast_neg _).symm
    · rfl
  · cases h

end Decimal

end QueryForms
