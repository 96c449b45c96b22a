import QueryForms.Proofs.Number.Dyadic

/-!
# Operations on floats without loss

An operation on floats computes with forms of its operands, rounds the form of the result to one that
is canonical, and puts that back into bits. A form whose number has a canonical one is rounded to it
(`Dyadic.round_eq`), so where the exact result is the number of a float it is the result of the
operation (`rationalOf?_add`, `rationalOf?_mul`, `rationalOf?_div`).
-/

namespace QueryForms

open Float.Model Float.Model.UnpackedFloat

namespace Dyadic

/-! ## Forms and bits -/

/-- The sign of a form. -/
def sign (d : Dyadic) : Sign :=
  if d.negative then .negative else .positive

/-- The form as operations on floats take it; zero stands apart. -/
def unpacked (d : Dyadic) : UnpackedFloat :=
  if h : d.significand = 0 then .zero d.sign
  else .finite d.sign d.significand d.exponent (Nat.pos_of_ne_zero h)

/-- A significand has all its bits if its highest one is there. -/
theorem log2_significand {d : Dyadic} (h : d.IsCanonical) (nonzero : d.significand ≠ 0) :
    (d.significand.log2 + 1 = 53 ↔ 2 ^ 52 ≤ d.significand) ∧ d.significand.log2 ≤ 52 := by
  have full := Nat.le_log2 nonzero (k := 52)
  have lt := (Nat.log2_lt nonzero).2 h.lt
  omega

/-- The bits of the exponent, zero where the significand lacks its highest bit. -/
def biased (d : Dyadic) : ℕ :=
  if 2 ^ 52 ≤ d.significand then (d.exponent + 1075).toNat else 0

theorem pack_unpacked {d : Dyadic} (h : d.IsCanonical) :
    UnpackedFloat.pack Format.binary64 d.unpacked
      = packComponents Format.binary64 d.sign (.ofNat 11 d.biased) (.ofNat 52 d.significand) := by
  have bias : Format.binary64.exponentBias = 1023 := rfl
  have width : Format.binary64.mantissaBits = 53 := rfl
  have := h.least
  have := h.greatest
  rw [unpacked, biased]
  split
  · next zero =>
    rw [zero]
    rfl
  · next nonzero =>
    have bits := (log2_significand h nonzero).1
    have exponent : (d.exponent + (1023 : ℕ) + (52 : ℕ)).toNat = (d.exponent + 1075).toNat := by
      omega
    rw [UnpackedFloat.pack]
    simp only [bias, exponent, width, bits]
    rw [if_neg (by omega)]
    split <;> rfl

theorem toNat_packComponents (s : Sign) (e : BitVec 11) (m : BitVec 52) :
    (packComponents Format.binary64 s e m).toNat
      = s.toBitVec.toNat * 2 ^ 63 + e.toNat * 2 ^ 52 + m.toNat := by
  rw [packComponents, BitVec.toNat_append, BitVec.toNat_append,
    ← Nat.shiftLeft_add_eq_or_of_lt e.isLt, ← Nat.shiftLeft_add_eq_or_of_lt m.isLt,
    Nat.shiftLeft_eq, Nat.shiftLeft_eq]
  ring

/-- A canonical form that is put into bits is read back. -/
theorem ofFloat?_pack {d : Dyadic} (h : d.IsCanonical) :
    ofFloat? (.ofModel (.pack d.unpacked)) = some d := by
  refine ofFloat?_eq_some_iff.2 ⟨h, ?_⟩
  have sign : d.sign.toBitVec.toNat = d.negative.toNat := by
    cases negative : d.negative <;> simp [Dyadic.sign, negative, Sign.toBitVec]
  show (UnpackedFloat.pack Format.binary64 d.unpacked).toNat = d.word
  rw [pack_unpacked h, toNat_packComponents, sign, BitVec.toNat_ofNat, BitVec.toNat_ofNat, word,
    biased]
  obtain ⟨lt, least, greatest, full⟩ := h
  split <;> omega

theorem finite_congr {s : Sign} {m k : ℕ} {e f : ℤ} {hm : 0 < m} {hk : 0 < k} (bits : m = k)
    (exponent : e = f) : UnpackedFloat.finite s m e hm = .finite s k f hk := by
  subst bits exponent
  rfl

/-- The form of a float, taken out of its bits, is its canonical one. -/
theorem unpack_pack {d : Dyadic} (h : d.IsCanonical) :
    UnpackedFloat.unpack Format.binary64 (UnpackedFloat.pack Format.binary64 d.unpacked)
      = d.unpacked := by
  obtain ⟨lt, least, greatest, full⟩ := h
  have bias : Format.binary64.exponentBias = 1023 := rfl
  rw [pack_unpacked ⟨lt, least, greatest, full⟩, UnpackedFloat.unpack]
  simp only [unpackMantissa_packComponents, unpackExponent_packComponents,
    unpackSign_packComponents, Sign.ofBitVec_toBitVec, bias]
  have special : BitVec.ofNat 11 d.biased ≠ -1#11 := fun ones => by
    have := congrArg BitVec.toNat ones
    rw [BitVec.toNat_ofNat, show (-1#11).toNat = 2047 from rfl, biased] at this
    split at this <;> omega
  have fraction : (BitVec.ofNat 52 d.significand).toNat = d.significand % 2 ^ 52 :=
    BitVec.toNat_ofNat ..
  rw [if_neg special, unpacked]
  by_cases all : 2 ^ 52 ≤ d.significand
  · have exponent : (BitVec.ofNat 11 d.biased).toNat = (d.exponent + 1075).toNat := by
      rw [BitVec.toNat_ofNat, biased, if_pos all]
      omega
    have some : BitVec.ofNat 11 d.biased ≠ 0#11 := fun zero => by
      rw [zero, BitVec.toNat_zero] at exponent
      omega
    rw [if_neg some, dif_neg (by omega)]
    refine finite_congr ?_ (by omega)
    rw [BitVec.toNat_append, ← Nat.shiftLeft_add_eq_or_of_lt (BitVec.isLt _), fraction]
    show 1 <<< 52 + _ = _
    omega
  · have none : BitVec.ofNat 11 d.biased = 0#11 := by rw [biased, if_neg all]
    have same : (BitVec.ofNat 52 d.significand).toNat = d.significand := by omega
    rw [if_pos none]
    by_cases zero : d.significand = 0
    · rw [dif_pos zero, dif_pos (by rw [zero])]
    · rw [dif_neg zero, dif_neg fun none => zero (same.symm.trans (congrArg BitVec.toNat none))]
      refine finite_congr same ?_
      rw [none, BitVec.toNat_zero]
      omega

theorem unpack_of_ofFloat? {x : Float} {d : Dyadic} (h : ofFloat? x = some d) :
    x.toModel.unpack = d.unpacked := by
  obtain ⟨canonical, bits⟩ := ofFloat?_eq_some_iff.1 h
  have same := (ofFloat?_eq_some_iff.1 (ofFloat?_pack canonical)).2
  rw [Float.toBits_inj.1 (UInt64.toNat_inj.1 (bits.trans same.symm))]
  exact unpack_pack canonical

/-! ## Rounding what has a canonical form -/

theorem log2_mul_two_pow {k : ℕ} (nonzero : k ≠ 0) (n : ℕ) : (k * 2 ^ n).log2 = k.log2 + n := by
  induction n with
  | zero => rw [Nat.pow_zero, Nat.mul_one, Nat.add_zero]
  | succ n ih =>
    rw [Nat.pow_succ', Nat.mul_left_comm, Nat.log2_two_mul (by positivity), ih, Nat.add_assoc]

/-- The place of the highest bit is that of the magnitude, whatever the form. -/
theorem log2_add_eq {m k : ℕ} {e f : ℤ} (positive : 0 < m) (positive' : 0 < k)
    (same : (m : ℚ) * 2 ^ e = k * 2 ^ f) : (m.log2 : ℤ) + e = k.log2 + f := by
  rcases le_total e f with le | le
  · rw [eq_mul_of_magnitude_eq le same, log2_mul_two_pow positive'.ne']
    omega
  · rw [eq_mul_of_magnitude_eq le same.symm, log2_mul_two_pow positive.ne']
    omega

theorem log2_mul_le {m k : ℕ} (positive : 0 < m) (positive' : 0 < k) :
    (m * k).log2 ≤ m.log2 + k.log2 + 1 := by
  have bound : m * k < 2 ^ (m.log2 + k.log2 + 2) := by
    have := Nat.mul_lt_mul'' (Nat.lt_log2_self (n := m)) (Nat.lt_log2_self (n := k))
    rwa [← Nat.pow_add, show m.log2 + 1 + (k.log2 + 1) = m.log2 + k.log2 + 2 by omega] at this
  have := (Nat.log2_lt (Nat.mul_pos positive positive').ne').2 bound
  omega

/-- The exponent that rounding aims at is that of the canonical form. -/
theorem targetExponent_eq {d : Dyadic} (h : d.IsCanonical) {m : ℕ} (positive : 0 < m) {e : ℤ}
    (same : (m : ℚ) * 2 ^ e = d.magnitude) :
    Format.binary64.targetExponent (totalExponent m e) = d.exponent := by
  have nonzero : d.significand ≠ 0 := fun zero =>
    (mul_pos (Nat.cast_pos.2 positive) (two_zpow_pos e)).ne'
      (same.trans (magnitude_eq_zero_iff.2 zero))
  have top := log2_add_eq positive (Nat.pos_of_ne_zero nonzero) same
  have width : Format.binary64.mantissaBits = 53 := rfl
  have least : Format.binary64.minExponent = -1074 := rfl
  rw [Format.targetExponent, totalExponent, width, least]
  have := log2_significand h nonzero
  have := h.least
  have := h.full
  omega

/-- Bits that are zero are shifted out without a rest. -/
theorem shiftRight_exact (k n : ℕ) :
    ExtendedMantissa.ofMantissaAndAccuracy (k * 2 ^ n) .exact >>> n
      = ExtendedMantissa.ofMantissaAndAccuracy k .exact := by
  induction n generalizing k with
  | zero => rw [Nat.pow_zero, Nat.mul_one]; rfl
  | succ n ih =>
    have step : ExtendedMantissa.ofMantissaAndAccuracy (k * 2 ^ (n + 1)) .exact >>> (n + 1)
        = (ExtendedMantissa.ofMantissaAndAccuracy (k * 2 * 2 ^ n) .exact >>> n).shiftRightOne := by
      rw [Nat.pow_succ', Nat.mul_assoc]
      rfl
    rw [step, ih]
    simp [ExtendedMantissa.ofMantissaAndAccuracy, ExtendedMantissa.shiftRightOne]

/-- A form with more bits than the canonical one is shifted to it exactly. -/
theorem shiftToTargetExponent_eq {d : Dyadic} (h : d.IsCanonical) {m : ℕ} (positive : 0 < m) {e : ℤ}
    (same : (m : ℚ) * 2 ^ e = d.magnitude) (le : e ≤ d.exponent) :
    shiftToTargetExponent Format.binary64 m e .exact
      = (.ofMantissaAndAccuracy d.significand .exact, d.exponent) := by
  rw [shiftToTargetExponent, targetExponent_eq h positive same, shiftToExponent,
    eq_mul_of_magnitude_eq le same, shiftRight_exact, Int.toNat_of_nonneg (by omega)]
  simp

theorem roundWithAccuracy_eq {d : Dyadic} (h : d.IsCanonical) (nonzero : 0 < d.significand) (s : Sign)
    {m : ℕ} (positive : 0 < m) {e : ℤ} (same : (m : ℚ) * 2 ^ e = d.magnitude)
    (le : e ≤ d.exponent) :
    roundWithAccuracy Format.binary64 s m e .exact
      = .finite s d.significand d.exponent nonzero := by
  have kept : (ExtendedMantissa.ofMantissaAndAccuracy d.significand .exact).roundedMantissa
      = d.significand := rfl
  simp only [roundWithAccuracy, shiftToTargetExponent_eq h positive same le, kept,
    shiftToTargetExponent_eq h nonzero rfl le_rfl]
  exact dif_neg nonzero.ne'

theorem round_eq {d : Dyadic} (h : d.IsCanonical) (nonzero : 0 < d.significand) (s : Sign) {m : ℕ}
    (positive : 0 < m) {e : ℤ} (same : (m : ℚ) * 2 ^ e = d.magnitude) :
    UnpackedFloat.round Format.binary64 s m e = .finite s d.significand d.exponent nonzero := by
  simp only [UnpackedFloat.round, targetExponent_eq h positive same, decreaseExponent]
  rcases le_total e d.exponent with le | le
  · rw [Int.toNat_of_nonpos (by omega)]
    exact roundWithAccuracy_eq h nonzero s positive (by simpa using same) (by simpa using le)
  · have bits := eq_mul_of_magnitude_eq le same.symm
    rw [Nat.shiftLeft_eq, ← bits, Int.toNat_of_nonneg (by omega), Int.sub_sub_self]
    exact roundWithAccuracy_eq h nonzero s nonzero rfl le_rfl

/-! ## Forms of numbers -/

/-- The factor that a sign stands for. -/
def unit : Sign → ℚ
  | .negative => -1
  | .positive => 1

theorem abs_unit (s : Sign) : |unit s| = 1 := by
  cases s
  · exact (abs_neg 1).trans abs_one
  · exact abs_one

theorem unit_mul (s t : Sign) : unit (s * t) = unit s * unit t :=
  match s, t with
  | .negative, .negative => show (1 : ℚ) = -1 * -1 by norm_num
  | .negative, .positive => show (-1 : ℚ) = -1 * 1 by norm_num
  | .positive, .negative => show (-1 : ℚ) = 1 * -1 by norm_num
  | .positive, .positive => show (1 : ℚ) = 1 * 1 by norm_num

theorem unit_div (s t : Sign) : unit (s / t) = unit s / unit t :=
  match s, t with
  | .negative, .negative => show (1 : ℚ) = -1 / -1 by norm_num
  | .negative, .positive => show (-1 : ℚ) = -1 / 1 by norm_num
  | .positive, .negative => show (-1 : ℚ) = 1 / -1 by norm_num
  | .positive, .positive => show (1 : ℚ) = 1 / 1 by norm_num

theorem unit_neg (s : Sign) : unit (-s) = -unit s :=
  match s with
  | .negative => show (1 : ℚ) = - -1 by norm_num
  | .positive => rfl

theorem unit_apply (s : Sign) (n : ℕ) : ((s.apply n : ℤ) : ℚ) = unit s * n := by
  cases s <;> simp [unit, Sign.apply]

/-- The number that a form spells in the way that floats do. -/
inductive Spells : UnpackedFloat → ℚ → Prop
  | zero (s : Sign) : Spells (.zero s) 0
  | finite (s : Sign) {m : ℕ} {e : ℤ} (positive : 0 < m) (canonical : IsCanonical ⟨false, m, e⟩) :
    Spells (.finite s m e positive) (unit s * (m * 2 ^ e))

theorem toRat_eq (d : Dyadic) : d.toRat = unit d.sign * d.magnitude := by
  cases negative : d.negative <;> simp [toRat, sign, unit, negative]

theorem IsCanonical.spells {d : Dyadic} (h : d.IsCanonical) : Spells d.unpacked d.toRat := by
  rw [unpacked, toRat_eq]
  split
  · next zero =>
    rw [magnitude_eq_zero_iff.2 zero, mul_zero]
    exact .zero _
  · exact .finite _ _ ⟨h.lt, h.least, h.greatest, h.full⟩

/-- The sign bit of a sign. -/
def isNegative : Sign → Bool
  | .negative => true
  | .positive => false

theorem Spells.exists_isCanonical {u : UnpackedFloat} {q : ℚ} (h : Spells u q) :
    ∃ d : Dyadic, d.IsCanonical ∧ d.unpacked = u ∧ d.toRat = q := by
  cases h with
  | zero s =>
    refine ⟨⟨isNegative s, 0, -1074⟩, ⟨by norm_num, le_rfl, by norm_num, .inr rfl⟩, ?_, ?_⟩
    · cases s <;> rfl
    · rw [toRat_eq, magnitude_eq_zero_iff.2 rfl, mul_zero]
  | @finite s m e positive canonical =>
    refine ⟨⟨isNegative s, m, e⟩, ⟨canonical.lt, canonical.least, canonical.greatest,
      canonical.full⟩, ?_, ?_⟩
    · rw [unpacked, dif_neg positive.ne']
      cases s <;> rfl
    · rw [toRat_eq, magnitude]
      cases s <;> rfl

theorem spells_of_rationalOf? {x : Float} {q : ℚ} (h : rationalOf? x = some q) :
    Spells x.toModel.unpack q := by
  obtain ⟨d, found, rfl⟩ := Option.map_eq_some_iff.1 h
  rw [unpack_of_ofFloat? found]
  exact (ofFloat?_eq_some_iff.1 found).1.spells

/-- What is spelt as floats do it is the number of the float that it is put into. -/
theorem Spells.rationalOf? {u : UnpackedFloat} {q : ℚ} (h : Spells u q) :
    rationalOf? (.ofModel (.pack u)) = some q := by
  obtain ⟨d, canonical, rfl, rfl⟩ := h.exists_isCanonical
  exact Option.map_eq_some_iff.2 ⟨d, ofFloat?_pack canonical, rfl⟩

theorem exists_magnitude {s : Sign} {m : ℕ} (positive : 0 < m) {e : ℤ}
    (h : Representable (unit s * (m * 2 ^ e))) :
    ∃ d : Dyadic, d.IsCanonical ∧ 0 < d.significand ∧ (m : ℚ) * 2 ^ e = d.magnitude := by
  obtain ⟨d, canonical, value⟩ := h
  have pos : (0 : ℚ) < m * 2 ^ e := mul_pos (Nat.cast_pos.2 positive) (two_zpow_pos e)
  have same : (m : ℚ) * 2 ^ e = d.magnitude := by
    rw [← abs_toRat, value, abs_mul, abs_unit, one_mul, abs_of_pos pos]
  exact ⟨d, canonical, Nat.pos_of_ne_zero fun zero =>
    pos.ne' (same.trans (magnitude_eq_zero_iff.2 zero)), same⟩

/-- A number of a float is kept by rounding, whatever form it comes in. -/
theorem spells_round (s : Sign) {m : ℕ} (positive : 0 < m) {e : ℤ}
    (h : Representable (unit s * (m * 2 ^ e))) :
    Spells (UnpackedFloat.round Format.binary64 s m e) (unit s * (m * 2 ^ e)) := by
  obtain ⟨d, canonical, nonzero, same⟩ := exists_magnitude positive h
  rw [round_eq canonical nonzero s positive same, same]
  exact .finite s nonzero ⟨canonical.lt, canonical.least, canonical.greatest, canonical.full⟩

theorem spells_roundWithAccuracy (s : Sign) {m : ℕ} (positive : 0 < m) {e : ℤ}
    (h : Representable (unit s * (m * 2 ^ e)))
    (enough : ∀ d : Dyadic, d.IsCanonical → (m : ℚ) * 2 ^ e = d.magnitude → e ≤ d.exponent) :
    Spells (roundWithAccuracy Format.binary64 s m e .exact) (unit s * (m * 2 ^ e)) := by
  obtain ⟨d, canonical, nonzero, same⟩ := exists_magnitude positive h
  rw [roundWithAccuracy_eq canonical nonzero s positive same (enough d canonical same), same]
  exact .finite s nonzero ⟨canonical.lt, canonical.least, canonical.greatest, canonical.full⟩

theorem spells_normalize (n : ℤ) (e : ℤ) (zeroSign : Sign) (h : Representable (n * 2 ^ e)) :
    Spells (UnpackedFloat.normalize Format.binary64 n e zeroSign) (n * 2 ^ e) := by
  rw [UnpackedFloat.normalize]
  rcases lt_trichotomy n 0 with less | rfl | greater
  · have value : (n : ℚ) = unit .negative * (-n).toNat := by
      rw [← Int.cast_natCast, Int.toNat_of_nonneg (by omega), Int.cast_neg, unit, neg_one_mul, neg_neg]
    rw [value, mul_assoc] at h ⊢
    rw [compare_lt_iff_lt.2 less]
    exact spells_round _ (by omega) h
  · rw [Int.cast_zero, zero_mul]
    exact .zero _
  · have value : (n : ℚ) = unit .positive * n.toNat := by
      rw [← Int.cast_natCast, Int.toNat_of_nonneg (by omega), unit, one_mul]
    rw [value, mul_assoc] at h ⊢
    rw [compare_gt_iff_gt.2 greater]
    exact spells_round _ (by omega) h

/-! ## Operations on forms -/

theorem Spells.neg {u : UnpackedFloat} {q : ℚ} (h : Spells u q) : Spells u.neg (-q) := by
  cases h with
  | zero s =>
    rw [neg_zero]
    exact .zero _
  | finite s positive canonical =>
    rw [← neg_mul, ← unit_neg]
    exact .finite _ positive canonical

/-- A form with a lower exponent has the same number. -/
theorem decreaseExponent_eq (m : ℕ) {e f : ℤ} (le : f ≤ e) :
    ((decreaseExponent m e f).1 : ℚ) * 2 ^ f = m * 2 ^ e := by
  rw [decreaseExponent, Nat.shiftLeft_eq, two_zpow_sub le]
  push_cast
  ring

theorem Spells.add {u v : UnpackedFloat} {p q : ℚ} (hu : Spells u p) (hv : Spells v q)
    (h : Representable (p + q)) : Spells (add Format.binary64 u v) (p + q) := by
  cases hu with
  | zero s =>
    cases hv with
    | zero t =>
      rw [add_zero, UnpackedFloat.add]
      split <;> exact .zero _
    | finite t positive canonical =>
      rw [zero_add]
      exact .finite t positive canonical
  | @finite s m e positive canonical =>
    cases hv with
    | zero t =>
      rw [add_zero]
      exact .finite s positive canonical
    | @finite t k f positive' canonical' =>
      have value : unit s * (m * 2 ^ e) + unit t * (k * 2 ^ f)
          = ((s.apply (decreaseExponent m e (min e f)).1 + t.apply (decreaseExponent k f (min e f)).1
            : ℤ) : ℚ) * 2 ^ min e f := by
        rw [Int.cast_add, unit_apply, unit_apply, add_mul, mul_assoc, mul_assoc,
          decreaseExponent_eq m (min_le_left e f), decreaseExponent_eq k (min_le_right e f)]
      rw [value] at h ⊢
      exact spells_normalize _ _ _ h

theorem sub_eq (u v : UnpackedFloat) :
    UnpackedFloat.sub Format.binary64 u v = UnpackedFloat.add Format.binary64 u v.neg := by
  cases u with
  | finite s m e hm =>
    cases v with
    | finite t k f hk =>
      have opposite : ∀ n : ℤ, (-t).apply n = -t.apply n := fun n => by
        cases t
        · exact (Int.neg_neg n).symm
        · rfl
      simp only [UnpackedFloat.sub, UnpackedFloat.add, UnpackedFloat.neg, opposite,
        Int.sub_eq_add_neg]
    | _ => rfl
  | _ => cases v <;> rfl

/-- A product has as many bits as its factors, so its exponent is not above the canonical one. -/
theorem add_le_of_magnitude {s t : Bool} {m k : ℕ} {e f : ℤ} {d : Dyadic}
    (left : IsCanonical ⟨s, m, e⟩) (right : IsCanonical ⟨t, k, f⟩) (hm : 0 < m) (hk : 0 < k)
    (h : d.IsCanonical) (same : ((m * k : ℕ) : ℚ) * 2 ^ (e + f) = d.magnitude) :
    e + f ≤ d.exponent := by
  by_contra less
  have bits := eq_mul_of_magnitude_eq (Int.le_of_lt (not_le.1 less)) same.symm
  have twice : 2 ^ 1 ≤ 2 ^ (e + f - d.exponent).toNat :=
    Nat.pow_le_pow_right (by decide) (by omega)
  have all := bits ▸ h.lt
  have half : m * k < 2 ^ 52 := by
    have := Nat.mul_le_mul_left (m * k) twice
    omega
  have : m ≤ m * k := Nat.le_mul_of_pos_right m hk
  have : k ≤ m * k := Nat.le_mul_of_pos_left k hm
  have left := left.full
  have right := right.full
  have := h.least
  dsimp only at left right
  omega

theorem Spells.mul {u v : UnpackedFloat} {p q : ℚ} (hu : Spells u p) (hv : Spells v q)
    (h : Representable (p * q)) : Spells (mul Format.binary64 u v) (p * q) := by
  cases hu with
  | zero s =>
    rw [zero_mul]
    cases hv <;> exact .zero _
  | @finite s m e positive canonical =>
    cases hv with
    | zero t =>
      rw [mul_zero]
      exact .zero _
    | @finite t k f positive' canonical' =>
      have value : unit s * (m * 2 ^ e) * (unit t * (k * 2 ^ f))
          = unit (s * t) * ((m * k : ℕ) * 2 ^ (e + f)) := by
        rw [unit_mul, zpow_add₀ (by norm_num)]
        push_cast
        ring
      rw [value] at h ⊢
      exact spells_roundWithAccuracy _ (Nat.mul_pos positive positive') h fun d found =>
        add_le_of_magnitude canonical canonical' positive positive' found

/-- A quotient that has a canonical form comes out even in the form that a division computes. -/
theorem divCore_eq {m k : ℕ} (positive : 0 < m) (positive' : 0 < k) {e f : ℤ} {d : Dyadic}
    (h : d.IsCanonical) (same : (m : ℚ) * 2 ^ e = d.magnitude * (k * 2 ^ f)) :
    ∃ (j : ℕ) (g : ℤ), divCore Format.binary64 m e k f = (j, g, .exact) ∧ 0 < j ∧
      (j : ℚ) * 2 ^ g = d.magnitude ∧ g ≤ d.exponent := by
  have product : (m : ℚ) * 2 ^ e = (d.significand * k : ℕ) * 2 ^ (d.exponent + f) := by
    rw [same, magnitude, zpow_add₀ (by norm_num)]
    push_cast
    ring
  have nonzero : 0 < d.significand := Nat.pos_of_ne_zero fun zero => by
    rw [zero, Nat.zero_mul, Nat.cast_zero, zero_mul] at product
    exact (mul_pos (Nat.cast_pos.2 positive) (two_zpow_pos e)).ne' product
  generalize target : min (e - f) (Format.binary64.targetExponent
    (totalExponent m e - totalExponent k f)) = g
  have width : Format.binary64.mantissaBits = 53 := rfl
  have least : Format.binary64.minExponent = -1074 := rfl
  have below : g ≤ d.exponent := by
    have top := log2_add_eq positive (Nat.mul_pos nonzero positive') product
    have := log2_mul_le nonzero positive'
    have := (log2_significand h nonzero.ne').2
    have := h.least
    rw [Format.targetExponent, totalExponent, totalExponent, width, least] at target
    omega
  have bits : m * 2 ^ (e - f - g).toNat = d.significand * 2 ^ (d.exponent - g).toNat * k := by
    have lower : ((m * 2 ^ (e - f - g).toNat : ℕ) : ℚ) * 2 ^ (g + f) = m * 2 ^ e := by
      rw [two_zpow_sub (show g + f ≤ e by omega), show e - (g + f) = e - f - g by ring]
      push_cast
      ring
    rw [eq_mul_of_magnitude_eq (by omega) (lower.trans product), Nat.mul_right_comm,
      show d.exponent + f - (g + f) = d.exponent - g by ring]
  refine ⟨d.significand * 2 ^ (d.exponent - g).toNat, g, ?_, by positivity, ?_, below⟩
  · simp only [divCore, target]
    rw [Nat.shiftLeft_eq, bits, Nat.mul_div_cancel _ positive', Nat.mul_mod_left]
    rfl
  · rw [magnitude, two_zpow_sub below]
    push_cast
    ring

theorem Spells.div {u v : UnpackedFloat} {p q : ℚ} (hu : Spells u p) (hv : Spells v q)
    (nonzero : q ≠ 0) (h : Representable (p / q)) : Spells (div Format.binary64 u v) (p / q) := by
  cases hv with
  | zero t => exact absurd rfl nonzero
  | @finite t k f positive' canonical' =>
    cases hu with
    | zero s =>
      rw [zero_div]
      exact .zero _
    | @finite s m e positive canonical =>
      have value : unit s * (m * 2 ^ e) / (unit t * (k * 2 ^ f))
          = unit (s / t) * (m * 2 ^ e / (k * 2 ^ f)) := by
        rw [unit_div, mul_div_mul_comm]
      have pos : (0 : ℚ) < m * 2 ^ e := mul_pos (Nat.cast_pos.2 positive) (two_zpow_pos e)
      have pos' : (0 : ℚ) < k * 2 ^ f := mul_pos (Nat.cast_pos.2 positive') (two_zpow_pos f)
      rw [value] at h ⊢
      obtain ⟨d, canonical, found⟩ := h
      have quotient : (m : ℚ) * 2 ^ e / (k * 2 ^ f) = d.magnitude := by
        rw [← abs_toRat, found, abs_mul, abs_unit, one_mul, abs_of_pos (div_pos pos pos')]
      obtain ⟨j, g, computed, positive, same, le⟩ :=
        divCore_eq positive positive' canonical ((div_eq_iff pos'.ne').1 quotient)
      have rounded : UnpackedFloat.div Format.binary64 (.finite s m e ‹_›) (.finite t k f positive')
          = roundWithAccuracy Format.binary64 (s / t) j g .exact := by
        simp only [UnpackedFloat.div, computed]
      rw [rounded, quotient, ← same]
      refine spells_roundWithAccuracy _ positive ?_ fun d' canonical' same' => ?_
      · exact ⟨d, canonical, by rw [found, quotient, same]⟩
      · exact (canonical.ext canonical' (same.symm.trans same')).2 ▸ le

theorem Spells.exists_zero {u : UnpackedFloat} {q : ℚ} (h : Spells u q) (zero : q = 0) :
    ∃ s, u = .zero s := by
  cases h with
  | zero s => exact ⟨s, rfl⟩
  | @finite s m e positive canonical =>
    have value := abs_eq_zero.2 zero
    rw [abs_mul, abs_unit, one_mul, abs_eq_zero] at value
    exact absurd value (mul_pos (Nat.cast_pos.2 positive) (two_zpow_pos e)).ne'

/-- A form is equal to another one exactly if they have the same number. -/
theorem Spells.beq_iff {u v : UnpackedFloat} {p q : ℚ} (hu : Spells u p) (hv : Spells v q) :
    u.beq v = true ↔ p = q := by
  constructor
  · intro equal
    cases hu with
    | zero s =>
      cases hv with
      | zero t => rfl
      | finite t positive canonical => cases t <;> cases equal
    | finite s positive canonical =>
      cases hv with
      | zero t => cases s <;> cases equal
      | finite t positive' canonical' =>
        cases s <;> cases t <;>
          simp_all [UnpackedFloat.beq, UnpackedFloat.compare, Ordering.then_eq_eq]
  · rintro rfl
    by_cases zero : p = 0
    · obtain ⟨s, rfl⟩ := hu.exists_zero zero
      obtain ⟨t, rfl⟩ := hv.exists_zero zero
      rfl
    · obtain ⟨d, canonical, rfl, rfl⟩ := hu.exists_isCanonical
      obtain ⟨d', canonical', rfl, same⟩ := hv.exists_isCanonical
      obtain rfl := canonical.eq_of_toRat canonical' same.symm zero
      rw [unpacked]
      split
      · rfl
      · cases d.sign <;> simp [UnpackedFloat.beq, UnpackedFloat.compare]

theorem spells_ofNat {n : ℕ} (h : Representable n) :
    Spells (UnpackedFloat.ofNat Format.binary64 n) n := by
  have value : (n : ℚ) = ((n : ℤ) : ℚ) * 2 ^ (0 : ℤ) := by simp
  rw [value] at h ⊢
  exact spells_normalize _ _ _ h

theorem ofScientific_eq {n : ℕ} (positive : 0 < n) :
    UnpackedFloat.ofScientific Format.binary64 n 0
      = roundWithAccuracy Format.binary64 .positive (n * 2 ^ 53) (-53) .exact := by
  have width : Format.binary64.mantissaBits = 53 := rfl
  have range : (2 : ℤ) ^ Format.binary64.exponentBits = 2048 := rfl
  rw [UnpackedFloat.ofScientific, dif_neg positive.ne', range, if_neg (by decide),
    if_neg (by omega), if_pos le_rfl]
  simp only [UnpackedFloat.mul, width, Nat.shiftLeft_eq, Int.toNat_zero, Nat.pow_zero, Nat.mul_one]
  rfl

theorem spells_ofScientific {n : ℕ} (positive : 0 < n) (h : Representable n) :
    Spells (UnpackedFloat.ofScientific Format.binary64 n 0) n := by
  have value : (n : ℚ) = unit .positive * ((n * 2 ^ 53 : ℕ) * 2 ^ (-53 : ℤ)) := by
    rw [unit, one_mul, Nat.cast_mul, mul_assoc]
    norm_num
  rw [ofScientific_eq positive]
  rw [value] at h ⊢
  refine spells_roundWithAccuracy _ (by positivity) h fun d found same => ?_
  by_contra less
  have bits := eq_mul_of_magnitude_eq (Int.le_of_lt (not_le.1 less)) same.symm
  have : 1 ≤ 2 ^ (-53 - d.exponent).toNat := Nat.one_le_two_pow
  have := Nat.mul_le_mul_left (n * 2 ^ 53) this
  have := found.lt
  omega

end Dyadic

/-! ## Operations on floats -/

variable {x y : Float} {p q : ℚ}

theorem rationalOf?_neg (hx : rationalOf? x = some p) : rationalOf? (-x) = some (-p) :=
  (Dyadic.spells_of_rationalOf? hx).neg.rationalOf?

/-- A sum that is the number of a float is that of the sum of floats. -/
theorem rationalOf?_add (hx : rationalOf? x = some p) (hy : rationalOf? y = some q)
    (h : Representable (p + q)) : rationalOf? (x + y) = some (p + q) :=
  ((Dyadic.spells_of_rationalOf? hx).add (Dyadic.spells_of_rationalOf? hy) h).rationalOf?

theorem rationalOf?_sub (hx : rationalOf? x = some p) (hy : rationalOf? y = some q)
    (h : Representable (p - q)) : rationalOf? (x - y) = some (p - q) := by
  rw [sub_eq_add_neg p q] at h ⊢
  have summed := (Dyadic.spells_of_rationalOf? hx).add (Dyadic.spells_of_rationalOf? hy).neg h
  rw [← Dyadic.sub_eq] at summed
  exact summed.rationalOf?

theorem rationalOf?_mul (hx : rationalOf? x = some p) (hy : rationalOf? y = some q)
    (h : Representable (p * q)) : rationalOf? (x * y) = some (p * q) :=
  ((Dyadic.spells_of_rationalOf? hx).mul (Dyadic.spells_of_rationalOf? hy) h).rationalOf?

theorem rationalOf?_div (hx : rationalOf? x = some p) (hy : rationalOf? y = some q)
    (nonzero : q ≠ 0) (h : Representable (p / q)) : rationalOf? (x / y) = some (p / q) :=
  ((Dyadic.spells_of_rationalOf? hx).div (Dyadic.spells_of_rationalOf? hy) nonzero h).rationalOf?

theorem rationalOf?_one : rationalOf? (.ofBits 0x3FF0000000000000) = some 1 := by
  have form : Dyadic.ofFloat? (.ofBits 0x3FF0000000000000) = some ⟨false, 2 ^ 52, -52⟩ := rfl
  rw [rationalOf?, form, Option.map_some, Dyadic.toRat, Dyadic.magnitude]
  norm_num

/-- A whole number that is the number of a float is that of the float made from it. -/
theorem rationalOf?_ofNat {n : ℕ} (h : Representable n) : rationalOf? (.ofNat n) = some (n : ℚ) := by
  show rationalOf? (Float.ofScientific n false 0) = some (n : ℚ)
  rw [Float.ofScientific]
  split
  · next small =>
    have made : rationalOf? n.toUInt64.toFloat = some (n : ℚ) := by
      have same : n.toUInt64.toNat = n := UInt64.toNat_ofNat_of_lt' (small.1.trans (by decide))
      refine Dyadic.Spells.rationalOf? ?_
      rw [UnpackedFloat.ofUInt64, same]
      exact Dyadic.spells_ofNat h
    rw [← mul_one (n : ℚ)] at h ⊢
    exact rationalOf?_mul made rationalOf?_one h
  · next large =>
    exact (Dyadic.spells_ofScientific (by omega) h).rationalOf?

/-- Floats are equal exactly if they have the same number. -/
theorem beq_iff (hx : rationalOf? x = some p) (hy : rationalOf? y = some q) :
    (x == y) = true ↔ p = q :=
  (Dyadic.spells_of_rationalOf? hx).beq_iff (Dyadic.spells_of_rationalOf? hy)

theorem rationalOf?_zero : rationalOf? 0 = some 0 := by
  have zero := rationalOf?_ofNat (representable_of_lt (show 0 < 2 ^ 53 by decide))
  rwa [Nat.cast_zero] at zero

end QueryForms
