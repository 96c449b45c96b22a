import Mathlib
import QueryForms.Number.Binary64

/-!
# Floats as rational numbers

A finite float is a rational number (`rationalOf?`). It has its number in one form of many, with as
many bits of the significand as there are places for (`Dyadic.IsCanonical`), so the number determines
the form (`Dyadic.IsCanonical.ext`), and the float unless it is a zero (`eq_of_rationalOf?`).
-/

namespace QueryForms

namespace Dyadic

/-- The magnitude as a rational number. -/
def magnitude (d : Dyadic) : ℚ :=
  d.significand * 2 ^ d.exponent

/-- The number as a rational one. -/
def toRat (d : Dyadic) : ℚ :=
  if d.negative then -d.magnitude else d.magnitude

/-- The form in which a float has its number: no more than 53 bits, and fewer only at the least
exponent. -/
structure IsCanonical (d : Dyadic) : Prop where
  lt : d.significand < 2 ^ 53
  least : -1074 ≤ d.exponent
  greatest : d.exponent ≤ 971
  full : 2 ^ 52 ≤ d.significand ∨ d.exponent = -1074

theorem magnitude_nonneg (d : Dyadic) : 0 ≤ d.magnitude :=
  mul_nonneg (Nat.cast_nonneg _) (zpow_nonneg (by norm_num) _)

theorem abs_toRat (d : Dyadic) : |d.toRat| = d.magnitude := by
  rw [toRat]
  split
  · rw [abs_neg, abs_of_nonneg d.magnitude_nonneg]
  · exact abs_of_nonneg d.magnitude_nonneg

theorem two_zpow_pos (e : ℤ) : (0 : ℚ) < 2 ^ e :=
  zpow_pos (by norm_num) e

theorem two_zpow_sub {e f : ℤ} (le : e ≤ f) : (2 : ℚ) ^ f = 2 ^ (f - e).toNat * 2 ^ e := by
  rw [← zpow_natCast, ← zpow_add₀ (by norm_num), Int.toNat_of_nonneg (by omega), Int.sub_add_cancel]

/-- Of two forms of one magnitude that with the lower exponent has the more bits. -/
theorem eq_mul_of_magnitude_eq {m k : ℕ} {e f : ℤ} (le : e ≤ f)
    (same : (m : ℚ) * 2 ^ e = k * 2 ^ f) : m = k * 2 ^ (f - e).toNat := by
  rw [two_zpow_sub le, ← mul_assoc] at same
  exact_mod_cast mul_right_cancel₀ (two_zpow_pos e).ne' same

theorem IsCanonical.not_lt {d d' : Dyadic} (h : d.IsCanonical) (h' : d'.IsCanonical)
    (same : d.magnitude = d'.magnitude) : ¬d.exponent < d'.exponent := by
  intro less
  have bits := eq_mul_of_magnitude_eq (Int.le_of_lt less) same
  have full : 2 ^ 52 ≤ d'.significand := h'.full.resolve_right (by have := h.least; omega)
  have twice : 2 ^ 1 ≤ 2 ^ (d'.exponent - d.exponent).toNat :=
    Nat.pow_le_pow_right (by decide) (by omega)
  have := Nat.mul_le_mul full twice
  have := h.lt
  omega

/-- The magnitude determines the form. -/
theorem IsCanonical.ext {d d' : Dyadic} (h : d.IsCanonical) (h' : d'.IsCanonical)
    (same : d.magnitude = d'.magnitude) :
    d.significand = d'.significand ∧ d.exponent = d'.exponent := by
  have exponent : d.exponent = d'.exponent := by
    have := h.not_lt h' same
    have := h'.not_lt h same.symm
    omega
  refine ⟨?_, exponent⟩
  have bits := eq_mul_of_magnitude_eq exponent.le same
  rwa [exponent, Int.sub_self, Int.toNat_zero, Nat.pow_zero, Nat.mul_one] at bits

theorem magnitude_eq_zero_iff {d : Dyadic} : d.magnitude = 0 ↔ d.significand = 0 := by
  rw [magnitude, mul_eq_zero, or_iff_left (two_zpow_pos _).ne', Nat.cast_eq_zero]

theorem IsCanonical.eq_of_toRat {d d' : Dyadic} (h : d.IsCanonical) (h' : d'.IsCanonical)
    (same : d.toRat = d'.toRat) (nonzero : d.toRat ≠ 0) : d = d' := by
  have magnitude : d.magnitude = d'.magnitude := by rw [← abs_toRat, same, abs_toRat]
  obtain ⟨significand, exponent⟩ := h.ext h' magnitude
  have sign : d.negative = d'.negative := by
    have positive : 0 < d.magnitude := by
      rw [← abs_toRat]
      exact abs_pos.2 nonzero
    unfold toRat at same
    cases negative : d.negative <;> cases negative' : d'.negative <;>
      simp only [negative, negative', Bool.false_eq_true, if_true, if_false] at same ⊢ <;> linarith
  cases d
  cases d'
  simp only [Dyadic.mk.injEq]
  exact ⟨sign, significand, exponent⟩

/-- A number of at most 53 bits over a power of two in range has a canonical form. -/
theorem exists_isCanonical (negative : Bool) {m : ℕ} {e : ℤ} (lt : m < 2 ^ 53) (least : -1074 ≤ e)
    (greatest : e ≤ 971) :
    ∃ d : Dyadic, d.IsCanonical ∧ d.negative = negative ∧ d.magnitude = m * 2 ^ e := by
  generalize room : (e + 1074).toNat = n
  induction n generalizing m e with
  | zero => exact ⟨⟨negative, m, e⟩, ⟨lt, least, greatest, .inr (show e = -1074 by omega)⟩, rfl, rfl⟩
  | succ n ih =>
    by_cases full : 2 ^ 52 ≤ m
    · exact ⟨⟨negative, m, e⟩, ⟨lt, least, greatest, .inl full⟩, rfl, rfl⟩
    · obtain ⟨d, canonical, sign, same⟩ :=
        ih (m := m * 2) (e := e - 1) (by omega) (by omega) (by omega) (by omega)
      refine ⟨d, canonical, sign, same.trans ?_⟩
      rw [zpow_sub_one₀ (by norm_num)]
      push_cast
      ring

/-! ## The form of a float -/

/-- The bits of the number as a whole number: sign, exponent and significand side by side. -/
def word (d : Dyadic) : ℕ :=
  d.negative.toNat * 2 ^ 63 + (d.exponent + 1074).toNat * 2 ^ 52 + d.significand

theorem toNat_beq_one (n : ℕ) : (n % 2 == 1).toNat = n % 2 := by
  rcases Nat.mod_two_eq_zero_or_one n with even | odd
  · rw [even]
    rfl
  · rw [odd]
    rfl

/-- A float has a form if the form is canonical and its bits are those of the float. -/
theorem ofFloat?_eq_some_iff {x : Float} {d : Dyadic} :
    ofFloat? x = some d ↔ d.IsCanonical ∧ x.toBits.toNat = d.word := by
  have bound : x.toBits.toNat < 2 ^ 64 := x.toBits.toNat_lt
  have powers : Nat.pow 2 63 = 2 ^ 63 ∧ Nat.pow 2 52 = 2 ^ 52 ∧ Nat.pow 2 11 = 2 ^ 11 :=
    ⟨rfl, rfl, rfl⟩
  obtain ⟨negative, significand, exponent⟩ := d
  simp only [ofFloat?, powers, word]
  generalize x.toBits.toNat = bits at bound
  constructor
  · intro h
    have sign := toNat_beq_one (bits / 2 ^ 63)
    split at h
    · cases h
    split at h <;> cases h
    · exact ⟨⟨by dsimp only; omega, Int.le_refl _, by dsimp only; omega, .inr rfl⟩,
        by rw [sign]; omega⟩
    · exact ⟨⟨by dsimp only; omega, by dsimp only; omega, by dsimp only; omega,
        .inl (by dsimp only; omega)⟩, by rw [sign]; omega⟩
  · rintro ⟨⟨lt, least, greatest, full⟩, rfl⟩
    dsimp only at lt least greatest full
    generalize places : (exponent + 1074).toNat = n at bound
    have : negative.toNat < 2 := Bool.toNat_lt negative
    have signed : ((negative.toNat * 2 ^ 63 + n * 2 ^ 52 + significand) / 2 ^ 63 % 2 == 1)
        = negative := by
      cases negative with
      | false => exact beq_eq_false_iff_ne.2 (by rw [Bool.toNat_false]; omega)
      | true => exact beq_iff_eq.2 (by rw [Bool.toNat_true]; omega)
    rw [signed, if_neg (by omega)]
    split
    · simp only [Option.some.injEq, Dyadic.mk.injEq, true_and]
      omega
    · simp only [Option.some.injEq, Dyadic.mk.injEq, true_and]
      omega

end Dyadic

/-- The rational number that a finite float is. -/
def rationalOf? (x : Float) : Option ℚ :=
  (Dyadic.ofFloat? x).map Dyadic.toRat

/-- A rational number that a float can be. -/
def Representable (q : ℚ) : Prop :=
  ∃ d : Dyadic, d.IsCanonical ∧ d.toRat = q

theorem representable_of_rationalOf? {x : Float} {q : ℚ} (h : rationalOf? x = some q) :
    Representable q := by
  obtain ⟨d, found, value⟩ := Option.map_eq_some_iff.1 h
  exact ⟨d, (Dyadic.ofFloat?_eq_some_iff.1 found).1, value⟩

theorem Representable.neg {q : ℚ} (h : Representable q) : Representable (-q) := by
  obtain ⟨d, canonical, rfl⟩ := h
  refine ⟨{ d with negative := !d.negative }, ⟨canonical.lt, canonical.least, canonical.greatest,
    canonical.full⟩, ?_⟩
  cases negative : d.negative <;> simp [Dyadic.toRat, Dyadic.magnitude, negative]

/-- Whole numbers of at most 53 bits, times a power of two in range, are numbers of floats. -/
theorem representable_natCast {m : ℕ} {e : ℤ} (lt : m < 2 ^ 53) (least : -1074 ≤ e)
    (greatest : e ≤ 971) : Representable (m * 2 ^ e) := by
  obtain ⟨d, canonical, sign, value⟩ := Dyadic.exists_isCanonical false lt least greatest
  refine ⟨d, canonical, ?_⟩
  rw [Dyadic.toRat, sign, value]
  rfl

theorem representable_of_lt {m : ℕ} (lt : m < 2 ^ 53) : Representable m := by
  have := @representable_natCast m 0 lt (by norm_num) (by norm_num)
  rwa [zpow_zero, mul_one] at this

theorem representable_div {m : ℕ} (lt : m < 2 ^ 53) {down : ℕ} (le : down ≤ 1074) :
    Representable (m / 2 ^ down) := by
  have := @representable_natCast m (-down) lt (by omega) (by omega)
  rwa [zpow_neg, zpow_natCast, ← div_eq_mul_inv] at this

/-- A number other than zero is the number of no more than one float. -/
theorem eq_of_rationalOf? {x y : Float} {q : ℚ} (hx : rationalOf? x = some q)
    (hy : rationalOf? y = some q) (nonzero : q ≠ 0) : x = y := by
  obtain ⟨d, foundX, rfl⟩ := Option.map_eq_some_iff.1 hx
  obtain ⟨d', foundY, same⟩ := Option.map_eq_some_iff.1 hy
  obtain ⟨canonical, bitsX⟩ := Dyadic.ofFloat?_eq_some_iff.1 foundX
  obtain ⟨canonical', bitsY⟩ := Dyadic.ofFloat?_eq_some_iff.1 foundY
  obtain rfl := canonical.eq_of_toRat canonical' same.symm nonzero
  exact Float.toBits_inj.1 (UInt64.toNat_inj.1 (bitsX.trans bitsY.symm))

end QueryForms
