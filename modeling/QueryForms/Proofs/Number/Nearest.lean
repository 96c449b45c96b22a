import QueryForms.Proofs.Number.Rounding

/-!
# The float next to a number

`RoundsTo v w` says that `w` is one of the two multiples around `v` of what its 53 bits leave as a unit,
and no further from it than half of one. That is where the operations on floats lead
(`rationalOf?_add_rounds`, `rationalOf?_mul_rounds`, `rationalOf?_div_rounds`): the bits that a
mantissa has lost are remembered well enough (`Dyadic.Describes`). Such a `w` is a nearest float
(`RoundsTo.isNearest`), and a nearest float is such a `w` (`IsNearest.roundsTo`).
-/

namespace QueryForms

open Float.Model Float.Model.UnpackedFloat

/-- A number that rounds to another, both positive and in the range of floats with 53 bits. -/
def RoundsTo (v w : ℚ) : Prop :=
  ∃ (e : ℤ) (r : ℕ), (-1074 ≤ e ∧ e ≤ 970) ∧ (2 ^ 52 ≤ r ∧ r ≤ 2 ^ 53) ∧ w = r * 2 ^ e ∧
    (2 ^ 52 * 2 ^ e ≤ v ∧ v < 2 ^ 53 * 2 ^ e) ∧ |w - v| ≤ 2 ^ e / 2

/-- A number to which no float is nearer. -/
def IsNearest (q v : ℚ) : Prop :=
  ∀ s, Representable s → |q - v| ≤ |s - v|

namespace Dyadic

/-! ## Bits that are shifted out -/

/-- What a mantissa and the bits after it say about a number that was cut off. -/
def Describes : ExtendedMantissa → ℚ → Prop
  | ⟨m, false, false⟩, v => v = m
  | ⟨m, false, true⟩, v => m < v ∧ v < m + 1 / 2
  | ⟨m, true, false⟩, v => v = m + 1 / 2
  | ⟨m, true, true⟩, v => m + 1 / 2 < v ∧ v < m + 1

theorem Describes.shiftRightOne {em : ExtendedMantissa} {v : ℚ} (h : Describes em v) :
    Describes em.shiftRightOne (v / 2) := by
  obtain ⟨m, round, sticky⟩ := em
  obtain ⟨half, rfl | rfl⟩ := Nat.even_or_odd' m
  · cases round <;> cases sticky <;>
      simp [ExtendedMantissa.shiftRightOne, Describes] at h ⊢ <;> first | linarith | skip
    all_goals constructor <;> linarith
  · cases round <;> cases sticky <;>
      simp [ExtendedMantissa.shiftRightOne, Describes, Nat.mul_add_div] at h ⊢ <;>
      first | linarith | skip
    all_goals constructor <;> linarith

theorem Describes.shiftRight {em : ExtendedMantissa} {v : ℚ} (h : Describes em v) (n : ℕ) :
    Describes (em >>> n) (v / 2 ^ n) := by
  induction n with
  | zero => rwa [pow_zero, div_one]
  | succ n ih =>
    rw [pow_succ, ← div_div]
    exact ih.shiftRightOne

theorem Describes.floor {em : ExtendedMantissa} {v : ℚ} (h : Describes em v) :
    em.mantissa ≤ v ∧ v < em.mantissa + 1 := by
  obtain ⟨m, round, sticky⟩ := em
  cases round <;> cases sticky <;> simp only [Describes] at h ⊢ <;> constructor <;> linarith

/-- The mantissa is rounded to one no further away than half. -/
theorem Describes.abs_rounded_le {em : ExtendedMantissa} {v : ℚ} (h : Describes em v) :
    |(em.roundedMantissa : ℚ) - v| ≤ 1 / 2 := by
  obtain ⟨m, round, sticky⟩ := em
  have even : ((m % 2 : ℕ) : ℚ) = 0 ∨ ((m % 2 : ℕ) : ℚ) = 1 := by
    rcases Nat.mod_two_eq_zero_or_one m with zero | one
    · exact .inl (by rw [zero, Nat.cast_zero])
    · exact .inr (by rw [one, Nat.cast_one])
  rw [abs_le]
  cases round <;> cases sticky <;>
    simp only [Describes, ExtendedMantissa.roundedMantissa, ExtendedMantissa.accuracy,
      Accuracy.roundToNearestEven, Nat.cast_add, Nat.cast_one] at h ⊢
  case true.false => rcases even with zero | one <;> constructor <;> linarith
  all_goals constructor <;> linarith

/-- A mantissa has the highest bit of the number that it is cut off from. -/
theorem Describes.log2_eq {em : ExtendedMantissa} {v : ℚ} (h : Describes em v) {n : ℕ}
    (low : 2 ^ n ≤ v) (high : v < 2 ^ (n + 1)) : em.mantissa.log2 = n := by
  have low : 2 ^ n < em.mantissa + 1 := by exact_mod_cast low.trans_lt h.floor.2
  have high : em.mantissa < 2 ^ (n + 1) := by exact_mod_cast h.floor.1.trans_lt high
  have := Nat.one_le_two_pow (n := n)
  exact (Nat.log2_eq_iff (by omega)).2 ⟨by omega, high⟩

theorem Describes.rounded_mem {em : ExtendedMantissa} {v : ℚ} (h : Describes em v) {n : ℕ}
    (low : 2 ^ n ≤ v) (high : v < 2 ^ (n + 1)) :
    2 ^ n ≤ em.roundedMantissa ∧ em.roundedMantissa ≤ 2 ^ (n + 1) := by
  have near := abs_le.1 h.abs_rounded_le
  have low : (2 : ℚ) ^ n < em.roundedMantissa + 1 := by linarith
  have high : (em.roundedMantissa : ℚ) < 2 ^ (n + 1) + 1 := by linarith
  have low : 2 ^ n < em.roundedMantissa + 1 := by exact_mod_cast low
  have high : em.roundedMantissa < 2 ^ (n + 1) + 1 := by exact_mod_cast high
  omega

/-- The remainder of a division tells how the quotient goes on. -/
theorem describes_div (m : ℕ) {k : ℕ} (positive : 0 < k) :
    Describes (.ofMantissaAndAccuracy (m / k) (accuracyOfFraction (m % k) k)) (m / k) := by
  have divided : (m : ℚ) / k = (m / k : ℕ) + ((m % k : ℕ) : ℚ) / k := by
    have whole : ((k * (m / k) + m % k : ℕ) : ℚ) = m := by rw [Nat.div_add_mod]
    have nonzero : (k : ℚ) ≠ 0 := Nat.cast_ne_zero.2 positive.ne'
    rw [← whole]
    push_cast
    rw [add_div, mul_div_cancel_left₀ _ nonzero]
  have less : ((m % k : ℕ) : ℚ) < k := Nat.cast_lt.2 (Nat.mod_lt m positive)
  have pos : (0 : ℚ) < k := Nat.cast_pos.2 positive
  rw [divided, accuracyOfFraction]
  generalize m % k = rest at less
  split
  · next none =>
    rw [none, Nat.cast_zero, zero_div, add_zero]
    rfl
  · next some =>
    have some : (0 : ℚ) < rest := Nat.cast_pos.2 (Nat.pos_of_ne_zero some)
    have below : (rest : ℚ) / k < 1 := (div_lt_one pos).2 less
    have above : 0 < (rest : ℚ) / k := div_pos some pos
    rcases lt_trichotomy (2 * rest) k with half | half | half
    · rw [compare_lt_iff_lt.2 half]
      have half : (2 * rest : ℚ) < k := by exact_mod_cast half
      have : (rest : ℚ) / k < 1 / 2 := by rw [div_lt_div_iff₀ pos (by norm_num)]; linarith
      exact ⟨by linarith, by linarith⟩
    · rw [compare_eq_iff_eq.2 half]
      have half : (2 * rest : ℚ) = k := by exact_mod_cast half
      have : (rest : ℚ) / k = 1 / 2 := by
        rw [div_eq_div_iff pos.ne' (by norm_num)]
        linarith
      exact this ▸ rfl
    · rw [compare_gt_iff_gt.2 half]
      have half : (k : ℚ) < 2 * rest := by exact_mod_cast half
      have : 1 / 2 < (rest : ℚ) / k := by rw [div_lt_div_iff₀ (by norm_num) pos]; linarith
      exact ⟨by linarith, by linarith⟩

/-! ## Rounding -/

/-- A multiple of a unit that takes 53 bits, or one more, is the number of a float. -/
theorem representable_of_le {r : ℕ} {e : ℤ} (range : -1074 ≤ e ∧ e ≤ 970)
    (bits : 2 ^ 52 ≤ r ∧ r ≤ 2 ^ 53) : Representable (r * 2 ^ e) := by
  rcases bits.2.lt_or_eq with lt | rfl
  · exact representable_natCast lt range.1 (by omega)
  · have half : ((2 ^ 53 : ℕ) : ℚ) * 2 ^ e = (2 ^ 52 : ℕ) * 2 ^ (e + 1) := by
      rw [zpow_add_one₀ (by norm_num)]
      push_cast
      ring
    rw [half]
    exact representable_natCast (by norm_num) (by omega) (by omega)

theorem exists_isCanonical_of_le {r : ℕ} {e : ℤ} (range : -1074 ≤ e ∧ e ≤ 970)
    (bits : 2 ^ 52 ≤ r ∧ r ≤ 2 ^ 53) :
    ∃ d : Dyadic, d.IsCanonical ∧ 0 < d.significand ∧ (r : ℚ) * 2 ^ e = d.magnitude ∧
      e ≤ d.exponent := by
  obtain ⟨d, canonical, value⟩ := representable_of_le range bits
  have nonneg : (0 : ℚ) ≤ r * 2 ^ e := mul_nonneg (Nat.cast_nonneg r) (two_zpow_pos e).le
  have same : (r : ℚ) * 2 ^ e = d.magnitude := by rw [← abs_toRat, value, abs_of_nonneg nonneg]
  have positive : 0 < d.significand := Nat.pos_of_ne_zero fun zero => by
    have := mul_pos (Nat.cast_pos.2 (show 0 < r by omega)) (two_zpow_pos e)
    exact this.ne' (same.trans (magnitude_eq_zero_iff.2 zero))
  refine ⟨d, canonical, positive, same, not_lt.1 fun less => ?_⟩
  have more := eq_mul_of_magnitude_eq less.le same.symm
  have twice : 2 ^ 1 ≤ 2 ^ (e - d.exponent).toNat := Nat.pow_le_pow_right (by decide) (by omega)
  have := Nat.mul_le_mul bits.1 twice
  have := canonical.lt
  omega

/-- Where the last of 53 bits belongs. -/
theorem Describes.targetExponent_eq {m k : ℕ} {e : ℤ} {accuracy : Accuracy} {v : ℚ}
    (describes : Describes (.ofMantissaAndAccuracy m accuracy) (v / 2 ^ e)) (least : -1074 ≤ e + k)
    (bits : 2 ^ 52 * 2 ^ (e + k) ≤ v ∧ v < 2 ^ 53 * 2 ^ (e + k)) :
    Format.binary64.targetExponent (totalExponent m e) = e + k := by
  have unit : (2 : ℚ) ^ (e + k) = 2 ^ k * 2 ^ e := by
    rw [zpow_add₀ (by norm_num), zpow_natCast, mul_comm]
  have mantissa : (ExtendedMantissa.ofMantissaAndAccuracy m accuracy).mantissa = m := by
    cases accuracy with
    | exact => rfl
    | inexact order => cases order <;> rfl
  have log := describes.log2_eq (n := 52 + k)
    (by rw [le_div_iff₀ (two_zpow_pos e), pow_add, mul_assoc, ← unit]; exact bits.1)
    (by rw [div_lt_iff₀ (two_zpow_pos e), Nat.add_right_comm, pow_add, mul_assoc, ← unit]
        exact bits.2)
  have width : Format.binary64.mantissaBits = 53 := rfl
  have lowest : Format.binary64.minExponent = -1074 := rfl
  rw [mantissa] at log
  rw [Format.targetExponent, totalExponent, width, lowest]
  omega

/-- A number that is described with at least 53 bits is rounded to one that it rounds to. -/
theorem exists_roundWithAccuracy (s : Sign) {m : ℕ} {e g : ℤ} {accuracy : Accuracy} {v : ℚ}
    (describes : Describes (.ofMantissaAndAccuracy m accuracy) (v / 2 ^ e))
    (range : -1074 ≤ g ∧ g ≤ 970) (bits : 2 ^ 52 * 2 ^ g ≤ v ∧ v < 2 ^ 53 * 2 ^ g) (le : e ≤ g) :
    ∃ w, RoundsTo v w ∧
      Spells (roundWithAccuracy Format.binary64 s m e accuracy) (unit s * w) := by
  obtain ⟨k, rfl⟩ : ∃ k : ℕ, g = e + k := ⟨(g - e).toNat, by omega⟩
  have unit : (2 : ℚ) ^ (e + k) = 2 ^ k * 2 ^ e := by
    rw [zpow_add₀ (by norm_num), zpow_natCast, mul_comm]
  have target := describes.targetExponent_eq range.1 bits
  have first : shiftToTargetExponent Format.binary64 m e accuracy
      = (ExtendedMantissa.ofMantissaAndAccuracy m accuracy >>> k, e + (k : ℤ)) := by
    simp only [shiftToTargetExponent, target, shiftToExponent, add_sub_cancel_left, Int.toNat_natCast]
  have shifted := describes.shiftRight k
  rw [div_div, mul_comm, ← unit] at shifted
  have pos := two_zpow_pos (e + k)
  have near := shifted.abs_rounded_le
  have bitsR := shifted.rounded_mem ((le_div_iff₀ pos).2 bits.1) ((div_lt_iff₀ pos).2 bits.2)
  generalize rounded : (ExtendedMantissa.ofMantissaAndAccuracy m accuracy >>> k).roundedMantissa = r
    at near bitsR
  obtain ⟨d, canonical, positive, same, le⟩ := exists_isCanonical_of_le range bitsR
  refine ⟨r * 2 ^ (e + k), ⟨e + k, r, range, bitsR, rfl, bits, ?_⟩, ?_⟩
  · have scaled : (r : ℚ) * 2 ^ (e + k) - v = (r - v / 2 ^ (e + k)) * 2 ^ (e + k) := by
      rw [sub_mul, div_mul_cancel₀ _ pos.ne']
    rw [scaled, abs_mul, abs_of_pos pos]
    linarith [mul_le_mul_of_nonneg_right near pos.le]
  · have kept : (ExtendedMantissa.ofMantissaAndAccuracy d.significand .exact).mantissa
        = d.significand := rfl
    simp only [roundWithAccuracy, first, rounded,
      shiftToTargetExponent_eq canonical (show 0 < r by omega) same le, kept]
    rw [dif_neg positive.ne', same]
    exact .finite s positive ⟨canonical.lt, canonical.least, canonical.greatest, canonical.full⟩

/-- The highest bit of a form is no higher than that of a number above it. -/
theorem log2_add_lt {m : ℕ} (positive : 0 < m) {e f : ℤ} (h : (m : ℚ) * 2 ^ e < 2 ^ f) :
    (m.log2 : ℤ) + e < f := by
  refine (zpow_lt_zpow_iff_right₀ (show (1 : ℚ) < 2 by norm_num)).1 (lt_of_le_of_lt ?_ h)
  rw [zpow_add₀ (by norm_num), zpow_natCast]
  refine mul_le_mul_of_nonneg_right ?_ (two_zpow_pos e).le
  exact_mod_cast Nat.log2_self_le positive.ne'

theorem exists_round (s : Sign) {m : ℕ} (positive : 0 < m) {e g : ℤ} (range : -1074 ≤ g ∧ g ≤ 970)
    (bits : 2 ^ 52 * 2 ^ g ≤ (m : ℚ) * 2 ^ e ∧ (m : ℚ) * 2 ^ e < 2 ^ 53 * 2 ^ g) :
    ∃ w, RoundsTo (m * 2 ^ e) w ∧
      Spells (UnpackedFloat.round Format.binary64 s m e) (unit s * w) := by
  have width : Format.binary64.mantissaBits = 53 := rfl
  have least : Format.binary64.minExponent = -1074 := rfl
  have top := log2_add_lt (e := e) positive (f := 53 + g) (by
    rw [zpow_add₀ (by norm_num) 53 g]
    exact bits.2)
  generalize target : Format.binary64.targetExponent (totalExponent m e) = t
  have le : e - (e - t).toNat ≤ g := by
    rw [Format.targetExponent, totalExponent, width, least] at target
    omega
  have exact : (m : ℚ) * 2 ^ e / 2 ^ (e - (e - t).toNat) = (m <<< (e - t).toNat : ℕ) := by
    rw [two_zpow_sub (show e - (e - t).toNat ≤ e by omega), Int.sub_sub_self, Int.toNat_natCast,
      ← mul_assoc, mul_div_cancel_right₀ _ (two_zpow_pos _).ne', Nat.shiftLeft_eq]
    push_cast
    rfl
  simp only [UnpackedFloat.round, target, decreaseExponent]
  exact exists_roundWithAccuracy s
    (show Describes (.ofMantissaAndAccuracy _ .exact) _ from exact) range bits le

/-! ## Operations on forms -/

/-- The unit of 53 bits of a number that a float can have all of them for. -/
theorem exists_unit {v : ℚ} (range : 2 ^ (-1022 : ℤ) ≤ v ∧ v < 2 ^ (1023 : ℤ)) :
    ∃ g : ℤ, (-1074 ≤ g ∧ g ≤ 970) ∧ 2 ^ 52 * 2 ^ g ≤ v ∧ v < 2 ^ 53 * 2 ^ g := by
  obtain ⟨b, low, high⟩ := exists_mem_Ico_zpow ((two_zpow_pos (-1022)).trans_le range.1)
    (show (1 : ℚ) < 2 by norm_num)
  have above := (zpow_lt_zpow_iff_right₀ (by norm_num)).1 (low.trans_lt range.2)
  have below := (zpow_lt_zpow_iff_right₀ (by norm_num)).1 (range.1.trans_lt high)
  rw [two_zpow_sub (show b - 52 ≤ b by omega), show (b - (b - 52)).toNat = 52 by omega] at low
  rw [two_zpow_sub (show b - 52 ≤ b + 1 by omega),
    show (b + 1 - (b - 52)).toNat = 53 by omega] at high
  exact ⟨b - 52, by omega, low, high⟩

/-- A form of a positive number has a positive sign. -/
theorem Spells.exists_of_pos {u : UnpackedFloat} {q : ℚ} (h : Spells u q) (pos : 0 < q) :
    ∃ (m : ℕ) (e : ℤ) (positive : 0 < m), u = .finite .positive m e positive ∧
      q = m * 2 ^ e ∧ IsCanonical ⟨false, m, e⟩ := by
  cases h with
  | zero s => exact absurd pos (lt_irrefl 0)
  | @finite s m e positive canonical =>
    have magnitude := mul_pos (Nat.cast_pos.2 positive) (two_zpow_pos e)
    cases s with
    | positive => exact ⟨m, e, positive, rfl, one_mul _, canonical⟩
    | negative =>
      rw [unit, neg_one_mul] at pos
      exact absurd pos (not_lt.2 (neg_nonpos.2 magnitude.le))

theorem IsCanonical.le_of_normal {m : ℕ} {e : ℤ} (h : IsCanonical ⟨false, m, e⟩)
    (normal : 2 ^ (-1022 : ℤ) ≤ (m : ℚ) * 2 ^ e) : 2 ^ 52 ≤ m := by
  rcases h.full with full | (least : e = -1074)
  · exact full
  · have power : (2 : ℚ) ^ (-1022 : ℤ) = 2 ^ 52 * 2 ^ (-1074 : ℤ) := two_zpow_sub (e := -1074) (by decide)
    rw [least, power] at normal
    exact_mod_cast le_of_mul_le_mul_right normal (two_zpow_pos (-1074))

section

variable {u v : UnpackedFloat} {p q : ℚ}

theorem Spells.exists_mul (hu : Spells u p) (hv : Spells v q) (full : 2 ^ (-1022 : ℤ) ≤ p)
    (pos : 0 < q) (range : 2 ^ (-1022 : ℤ) ≤ p * q ∧ p * q < 2 ^ (1023 : ℤ)) :
    ∃ w, RoundsTo (p * q) w ∧ Spells (UnpackedFloat.mul Format.binary64 u v) w := by
  obtain ⟨m, e, positive, rfl, rfl, canonical⟩ :=
    hu.exists_of_pos ((two_zpow_pos _).trans_le full)
  obtain ⟨k, f, positive', rfl, rfl, -⟩ := hv.exists_of_pos pos
  obtain ⟨g, exponents, bits⟩ := exists_unit range
  have product : (m : ℚ) * 2 ^ e * (k * 2 ^ f) = (m * k : ℕ) * 2 ^ (e + f) := by
    rw [zpow_add₀ (by norm_num)]
    push_cast
    ring
  have exact : (m : ℚ) * 2 ^ e * (k * 2 ^ f) / 2 ^ (e + f) = (m * k : ℕ) := by
    rw [product, mul_div_cancel_right₀ _ (two_zpow_pos _).ne']
  have le : e + f ≤ g := by
    have top := log2_add_lt (Nat.mul_pos positive positive') (f := g + 53) (by
      rw [← product, zpow_add₀ (by norm_num), mul_comm (2 ^ g : ℚ)]
      exact bits.2)
    have most : 52 ≤ (m * k).log2 := by
      refine (Nat.le_log2 (Nat.mul_pos positive positive').ne').2 ?_
      exact (canonical.le_of_normal full).trans (Nat.le_mul_of_pos_right m positive')
    omega
  obtain ⟨w, rounds, spells⟩ := exists_roundWithAccuracy .positive
    (show Describes (.ofMantissaAndAccuracy (m * k) .exact) _ from exact) exponents bits le
  rw [unit, one_mul] at spells
  exact ⟨w, rounds, spells⟩

/-- The unit that a quotient is shifted to is no larger than its own. -/
theorem targetExponent_div_le {m k : ℕ} {e f g : ℤ} (positive : 0 < m) (positive' : 0 < k)
    (least : -1074 ≤ g) (less : (m : ℚ) * 2 ^ e / (k * 2 ^ f) < 2 ^ 53 * 2 ^ g) :
    Format.binary64.targetExponent (totalExponent m e - totalExponent k f) ≤ g := by
  have width : Format.binary64.mantissaBits = 53 := rfl
  have lowest : Format.binary64.minExponent = -1074 := rfl
  have divisor : (0 : ℚ) < k * 2 ^ f := mul_pos (Nat.cast_pos.2 positive') (two_zpow_pos f)
  have top : (m.log2 : ℤ) + e < g + 53 + (k.log2 + 1 + f) := by
    refine log2_add_lt positive (((div_lt_iff₀ divisor).1 less).trans ?_)
    have bits : (k : ℚ) < 2 ^ ((k.log2 : ℤ) + 1) := by exact_mod_cast Nat.lt_log2_self
    have pos := mul_pos (two_zpow_pos (g + 53)) (two_zpow_pos f)
    have most := mul_lt_mul_of_pos_right bits pos
    rw [zpow_add₀ (by norm_num) (g + 53), zpow_add₀ (by norm_num) _ f]
    rw [zpow_add₀ (by norm_num) g] at most ⊢
    norm_num at most ⊢
    linarith
  rw [Format.targetExponent, totalExponent, totalExponent, width, lowest]
  omega

theorem Spells.exists_div (hu : Spells u p) (hv : Spells v q) (posU : 0 < p) (posV : 0 < q)
    (range : 2 ^ (-1022 : ℤ) ≤ p / q ∧ p / q < 2 ^ (1023 : ℤ)) :
    ∃ w, RoundsTo (p / q) w ∧ Spells (UnpackedFloat.div Format.binary64 u v) w := by
  obtain ⟨m, e, positive, rfl, rfl, -⟩ := hu.exists_of_pos posU
  obtain ⟨k, f, positive', rfl, rfl, -⟩ := hv.exists_of_pos posV
  obtain ⟨g, exponents, bits⟩ := exists_unit range
  generalize target : min (e - f) (Format.binary64.targetExponent
    (totalExponent m e - totalExponent k f)) = t
  have nonzero : (k : ℚ) ≠ 0 := Nat.cast_ne_zero.2 positive'.ne'
  have le : t ≤ g := target ▸ (min_le_right _ _).trans
    (targetExponent_div_le positive positive' exponents.1 bits.2)
  have quotient : (m : ℚ) * 2 ^ e / (k * 2 ^ f) / 2 ^ t
      = ((m <<< (e - f - t).toNat : ℕ) : ℚ) / k := by
    have shift : (2 : ℚ) ^ e = 2 ^ (e - f - t).toNat * (2 ^ f * 2 ^ t) := by
      rw [← zpow_add₀ (by norm_num), two_zpow_sub (show f + t ≤ e by omega), sub_add_eq_sub_sub]
    have posF := two_zpow_pos f
    have posT := two_zpow_pos t
    rw [Nat.shiftLeft_eq, shift]
    push_cast
    field_simp
  have describes := describes_div (m <<< (e - f - t).toNat) positive'
  rw [← quotient] at describes
  obtain ⟨w, rounds, spells⟩ := exists_roundWithAccuracy .positive describes exponents bits le
  rw [unit, one_mul] at spells
  refine ⟨w, rounds, ?_⟩
  simp only [UnpackedFloat.div, divCore, target]
  exact spells

/-- A sum of positive numbers. -/
theorem Spells.exists_add (hu : Spells u p) (hv : Spells v q) (posU : 0 < p) (posV : 0 < q)
    (range : 2 ^ (-1022 : ℤ) ≤ p + q ∧ p + q < 2 ^ (1023 : ℤ)) :
    ∃ w, RoundsTo (p + q) w ∧ Spells (UnpackedFloat.add Format.binary64 u v) w := by
  obtain ⟨m, e, positive, rfl, rfl, -⟩ := hu.exists_of_pos posU
  obtain ⟨k, f, positive', rfl, rfl, -⟩ := hv.exists_of_pos posV
  obtain ⟨g, exponents, bits⟩ := exists_unit range
  have sum : (m : ℚ) * 2 ^ e + k * 2 ^ f
      = ((decreaseExponent m e (min e f)).1 + (decreaseExponent k f (min e f)).1 : ℕ)
        * 2 ^ min e f := by
    rw [Nat.cast_add, add_mul, decreaseExponent_eq m (min_le_left e f),
      decreaseExponent_eq k (min_le_right e f)]
  have positive : 0 < (decreaseExponent m e (min e f)).1 + (decreaseExponent k f (min e f)).1 := by
    rw [decreaseExponent, Nat.shiftLeft_eq]
    positivity
  rw [sum] at bits ⊢
  obtain ⟨w, rounds, spells⟩ := exists_round .positive positive exponents bits
  rw [unit, one_mul] at spells
  refine ⟨w, rounds, ?_⟩
  have greater : compare (((decreaseExponent m e (min e f)).1 : ℤ)
      + (decreaseExponent k f (min e f)).1) 0 = .gt := compare_gt_iff_gt.2 (by omega)
  simp only [UnpackedFloat.add, Sign.apply, UnpackedFloat.normalize, greater]
  exact spells

end

end Dyadic

/-! ## Operations on floats -/

section

variable {x y : Float} {p q : ℚ}

theorem rationalOf?_mul_rounds (hx : rationalOf? x = some p) (hy : rationalOf? y = some q)
    (full : 2 ^ (-1022 : ℤ) ≤ p) (pos : 0 < q)
    (range : 2 ^ (-1022 : ℤ) ≤ p * q ∧ p * q < 2 ^ (1023 : ℤ)) :
    ∃ w, rationalOf? (x * y) = some w ∧ RoundsTo (p * q) w := by
  obtain ⟨w, rounds, spells⟩ :=
    (Dyadic.spells_of_rationalOf? hx).exists_mul (Dyadic.spells_of_rationalOf? hy) full pos range
  exact ⟨w, spells.rationalOf?, rounds⟩

theorem rationalOf?_div_rounds (hx : rationalOf? x = some p) (hy : rationalOf? y = some q)
    (posX : 0 < p) (posY : 0 < q)
    (range : 2 ^ (-1022 : ℤ) ≤ p / q ∧ p / q < 2 ^ (1023 : ℤ)) :
    ∃ w, rationalOf? (x / y) = some w ∧ RoundsTo (p / q) w := by
  obtain ⟨w, rounds, spells⟩ :=
    (Dyadic.spells_of_rationalOf? hx).exists_div (Dyadic.spells_of_rationalOf? hy) posX posY range
  exact ⟨w, spells.rationalOf?, rounds⟩

theorem rationalOf?_add_rounds (hx : rationalOf? x = some p) (hy : rationalOf? y = some q)
    (posX : 0 < p) (posY : 0 < q)
    (range : 2 ^ (-1022 : ℤ) ≤ p + q ∧ p + q < 2 ^ (1023 : ℤ)) :
    ∃ w, rationalOf? (x + y) = some w ∧ RoundsTo (p + q) w := by
  obtain ⟨w, rounds, spells⟩ :=
    (Dyadic.spells_of_rationalOf? hx).exists_add (Dyadic.spells_of_rationalOf? hy) posX posY range
  exact ⟨w, spells.rationalOf?, rounds⟩

end

/-! ## Nearest floats -/

variable {v w q : ℚ}

/-- What a number rounds to is off by no more than a part in `2 ^ 53`. -/
theorem RoundsTo.abs_sub_le_div (h : RoundsTo v w) : |w - v| ≤ v / 2 ^ 53 := by
  obtain ⟨e, r, -, -, -, ⟨low, -⟩, near⟩ := h
  refine near.trans ?_
  rw [div_le_div_iff₀ (by norm_num) (by norm_num)]
  linarith

/-- Below a power of two it is off by no more than half a unit of the numbers below that. -/
theorem RoundsTo.abs_sub_le_of_lt (h : RoundsTo v w) {b : ℤ} (lt : v < 2 ^ b) :
    |w - v| ≤ 2 ^ (b - 54) := by
  obtain ⟨e, r, -, -, -, ⟨low, -⟩, near⟩ := h
  have below : (2 : ℚ) ^ (e + 52) < 2 ^ b := by
    refine lt_of_eq_of_lt ?_ (low.trans_lt lt)
    rw [zpow_add₀ (by norm_num), mul_comm]
    norm_num
  have le := (zpow_lt_zpow_iff_right₀ (show (1 : ℚ) < 2 by norm_num)).1 below
  have half : (2 : ℚ) ^ e / 2 = 2 ^ (e - 1) := by
    rw [zpow_sub_one₀ (by norm_num), div_eq_mul_inv]
  exact (near.trans_eq half).trans (zpow_le_zpow_right₀ (by norm_num) (by omega))

/-- A float that is as great as a number of 53 bits is a multiple of the unit. -/
theorem Representable.exists_multiple {s : ℚ} (h : Representable s) {e : ℤ}
    (least : 2 ^ 52 * 2 ^ e ≤ s) : ∃ k : ℕ, s = k * 2 ^ e := by
  obtain ⟨d, canonical, rfl⟩ := h
  have pos : 0 < d.toRat := lt_of_lt_of_le (mul_pos (by norm_num) (Dyadic.two_zpow_pos e)) least
  have same : d.toRat = d.magnitude := by rw [← Dyadic.abs_toRat, abs_of_pos pos]
  rw [same, Dyadic.magnitude] at least ⊢
  have le : e ≤ d.exponent := by
    by_contra less
    have bits : (d.significand : ℚ) < 2 ^ 53 := by exact_mod_cast canonical.lt
    have half : (2 : ℚ) ^ d.exponent ≤ 2 ^ (e - 1) :=
      zpow_le_zpow_right₀ (by norm_num) (by omega)
    have below := mul_lt_mul_of_pos_right bits (Dyadic.two_zpow_pos d.exponent)
    rw [zpow_sub_one₀ (by norm_num)] at half
    linarith
  refine ⟨d.significand * 2 ^ (d.exponent - e).toNat, ?_⟩
  rw [Dyadic.two_zpow_sub le]
  push_cast
  ring

/-- No multiple of the unit is nearer. -/
theorem RoundsTo.le_of_multiple {e : ℤ} {r k : ℕ} (value : w = r * 2 ^ e)
    (near : |w - v| ≤ 2 ^ e / 2) : |w - v| ≤ |k * 2 ^ e - v| := by
  by_contra nearer
  have apart : |(r : ℚ) * 2 ^ e - k * 2 ^ e| < 2 ^ e := by
    have := abs_sub_le ((r : ℚ) * 2 ^ e) v (k * 2 ^ e)
    rw [abs_sub_comm v] at this
    rw [value] at near nearer
    linarith
  rw [← sub_mul, abs_mul, abs_of_pos (Dyadic.two_zpow_pos e)] at apart
  have apart := (mul_lt_iff_lt_one_left (Dyadic.two_zpow_pos e)).1 apart
  have same : r = k := by
    have apart : |(r : ℤ) - k| < 1 := by exact_mod_cast apart
    have := Int.abs_lt_one_iff.1 apart
    omega
  exact nearer (same ▸ value ▸ le_rfl)

theorem RoundsTo.isNearest (h : RoundsTo v w) : IsNearest w v := by
  obtain ⟨e, r, range, bits, value, ⟨low, high⟩, near⟩ := h
  intro s representable
  rcases le_or_gt (2 ^ 52 * 2 ^ e) s with least | below
  · obtain ⟨k, rfl⟩ := representable.exists_multiple least
    exact RoundsTo.le_of_multiple value near
  · -- the least number of 53 bits is between
    have between := @RoundsTo.le_of_multiple v w e r (2 ^ 52) value near
    push_cast at between
    refine between.trans ?_
    rw [abs_of_nonpos (by linarith), abs_of_nonpos (by linarith)]
    linarith

/-- A multiple of the unit of 53 bits that lies within half of it. -/
theorem exists_near_multiple {e : ℤ} (low : 2 ^ 52 * 2 ^ e ≤ v) (high : v < 2 ^ 53 * 2 ^ e) :
    ∃ r : ℕ, (2 ^ 52 ≤ r ∧ r ≤ 2 ^ 53) ∧ |(r : ℚ) * 2 ^ e - v| ≤ 2 ^ e / 2 := by
  have pos := Dyadic.two_zpow_pos e
  have scaled : v = v / 2 ^ e * 2 ^ e := (div_mul_cancel₀ v pos.ne').symm
  rw [scaled] at low high
  have low := le_of_mul_le_mul_right low pos
  have high := lt_of_mul_lt_mul_right high pos.le
  have floor := Nat.floor_le (show (0 : ℚ) ≤ v / 2 ^ e + 1 / 2 by linarith)
  have next := Nat.lt_floor_add_one (v / 2 ^ e + 1 / 2)
  generalize ⌊v / 2 ^ e + 1 / 2⌋₊ = r at floor next
  have atLeast : 2 ^ 52 < r + 1 := by
    have : (2 ^ 52 : ℚ) < r + 1 := by linarith
    exact_mod_cast this
  have atMost : r < 2 ^ 53 + 1 := by
    have : (r : ℚ) < 2 ^ 53 + 1 := by linarith
    exact_mod_cast this
  refine ⟨r, by omega, ?_⟩
  have near : |(r : ℚ) - v / 2 ^ e| ≤ 1 / 2 := abs_le.2 ⟨by linarith, by linarith⟩
  calc |(r : ℚ) * 2 ^ e - v| = |(r - v / 2 ^ e) * 2 ^ e| := by rw [sub_mul, ← scaled]
    _ = |(r : ℚ) - v / 2 ^ e| * 2 ^ e := by rw [abs_mul, abs_of_pos pos]
    _ ≤ 1 / 2 * 2 ^ e := mul_le_mul_of_nonneg_right near pos.le
    _ = 2 ^ e / 2 := by ring

theorem IsNearest.roundsTo (h : IsNearest q v) (representable : Representable q)
    (range : 2 ^ (-1022 : ℤ) ≤ v ∧ v < 2 ^ (1023 : ℤ)) : RoundsTo v q := by
  obtain ⟨e, exponents, low, high⟩ := Dyadic.exists_unit range
  have pos := Dyadic.two_zpow_pos e
  obtain ⟨r, bits, near⟩ := exists_near_multiple low high
  have near := (h _ (Dyadic.representable_of_le exponents bits)).trans near
  have least : 2 ^ 52 * 2 ^ e ≤ q := by
    by_contra below
    have middle := h _ (@Dyadic.representable_of_le (2 ^ 52) e exponents (by norm_num))
    push_cast at middle
    rw [abs_of_nonpos (by linarith), abs_of_nonpos (by linarith)] at middle
    linarith
  obtain ⟨k, rfl⟩ := representable.exists_multiple least
  have atLeast : 2 ^ 52 ≤ k := by exact_mod_cast le_of_mul_le_mul_right least pos
  have atMost : k < 2 ^ 53 + 1 := by
    have : (k : ℚ) * 2 ^ e < (2 ^ 53 + 1) * 2 ^ e := by
      have := abs_le.1 near
      linarith
    exact_mod_cast lt_of_mul_lt_mul_right this pos.le
  exact ⟨e, k, exponents, ⟨atLeast, by omega⟩, rfl, ⟨low, high⟩, near⟩

/-- The unit is that of the number. -/
theorem RoundsTo.exists_of_unit {e : ℤ} (h : RoundsTo v w)
    (bits : 2 ^ 52 * 2 ^ e ≤ v ∧ v < 2 ^ 53 * 2 ^ e) :
    ∃ r : ℕ, 2 ^ 52 ≤ r ∧ w = r * 2 ^ e ∧ |w - v| ≤ 2 ^ e / 2 := by
  obtain ⟨f, r, -, least, value, bits', near⟩ := h
  have le : ∀ {e f : ℤ}, (2 : ℚ) ^ 52 * 2 ^ e < 2 ^ 53 * 2 ^ f → e ≤ f := by
    intro e f less
    have less : (2 : ℚ) ^ e < 2 ^ (f + 1) := by
      rw [zpow_add_one₀ (by norm_num)]
      linarith
    have := (zpow_lt_zpow_iff_right₀ (show (1 : ℚ) < 2 by norm_num)).1 less
    omega
  obtain rfl : e = f := le_antisymm (le (bits.1.trans_lt bits'.2)) (le (bits'.1.trans_lt bits.2))
  exact ⟨r, least.1, value, near⟩

end QueryForms
