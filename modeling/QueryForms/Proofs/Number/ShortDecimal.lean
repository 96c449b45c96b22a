import QueryForms.Proofs.Number.Cascade
import QueryForms.Proofs.Number.Nearest

/-!
# Floats next to short decimals

A decimal of 15 digits, with at most 22 places, and the float next to it stand for each other: two floats
that are next to it are one (`RoundsTo.eq_of_short`), the decimal leaves as a float next to it
(`Decimal.rationalOf?_magnitudeFloat_rounds`), and the float enters as that decimal
(`Decimal.ofFloat?_near`) if it has as many digits as the float guarantees, the zeros at their end
included, and those below the guaranteed ones stay below four ninths.
-/

namespace QueryForms

namespace Decimal

/-- An odd number over a power of two is no greater than the digits it takes. -/
theorem odd_le_of_eq {m n k : ℕ} {e : ℤ} (odd : Odd m) (same : (n : ℚ) / 10 ^ k = m * 2 ^ e) :
    m ≤ n := by
  rcases lt_or_ge e 0 with negative | nonneg
  · have down : e = -((-e).toNat : ℤ) := by omega
    rw [down, zpow_neg, zpow_natCast, ← div_eq_mul_inv,
      div_eq_div_iff (by positivity) (by positivity)] at same
    have same : m * 10 ^ k = n * 2 ^ (-e).toNat := by exact_mod_cast same.symm
    exact (Nat.le_mul_of_pos_right m (by positivity)).trans (odd_mul_le odd same).2
  · rw [← Int.toNat_of_nonneg nonneg, zpow_natCast, div_eq_iff (by positivity)] at same
    have same : n = m * (2 ^ e.toNat * 10 ^ k) := by rw [← mul_assoc]; exact_mod_cast same
    exact same ▸ Nat.le_mul_of_pos_right m (by positivity)

end Decimal

/-- A decimal of few digits is not in the middle between two floats. -/
theorem RoundsTo.eq_of_short {n k : ℕ} {w w' : ℚ} (few : n < 2 ^ 53) (h : RoundsTo (n / 10 ^ k) w)
    (h' : RoundsTo (n / 10 ^ k) w') : w = w' := by
  have apart : ∀ {e : ℤ} {r r' : ℕ}, 2 ^ 52 ≤ r → |r * 2 ^ e - (n : ℚ) / 10 ^ k| ≤ 2 ^ e / 2 →
      |r' * 2 ^ e - (n : ℚ) / 10 ^ k| ≤ 2 ^ e / 2 → ¬r < r' := by
    intro e r r' least near near' less
    have next : (r + 1 : ℚ) * 2 ^ e ≤ r' * 2 ^ e := by
      refine mul_le_mul_of_nonneg_right ?_ (Dyadic.two_zpow_pos e).le
      exact_mod_cast less
    rw [abs_le] at near near'
    have middle : (n : ℚ) / 10 ^ k = (2 * r + 1 : ℕ) * 2 ^ (e - 1) := by
      rw [zpow_sub_one₀ (by norm_num)]
      push_cast
      linarith
    have := Decimal.odd_le_of_eq ⟨r, rfl⟩ middle
    omega
  obtain ⟨e, r, -, least, rfl, bits, near⟩ := h
  obtain ⟨r', least', rfl, near'⟩ := h'.exists_of_unit bits
  have := apart least.1 near near'
  have := apart least' near' near
  rw [show r = r' by omega]

/-- A form of 53 bits is next to the numbers that are no further away than half of its unit. -/
theorem isNearest_of_form {x : Float} {r : ℕ} {e : ℤ} {v : ℚ}
    (form : Dyadic.ofFloat? x = some ⟨false, r, e⟩) (range : -1074 ≤ e ∧ e ≤ 970)
    (bits : 2 ^ 52 ≤ r ∧ r ≤ 2 ^ 53) (unit : 2 ^ 52 * 2 ^ e ≤ v ∧ v < 2 ^ 53 * 2 ^ e)
    (near : |(r : ℚ) * 2 ^ e - v| ≤ 2 ^ e / 2) :
    rationalOf? x = some ((r : ℚ) * 2 ^ e) ∧ IsNearest (r * 2 ^ e) v :=
  ⟨congrArg (Option.map Dyadic.toRat) form, RoundsTo.isNearest ⟨e, r, range, bits, rfl, unit, near⟩⟩

namespace Decimal

/-! ## From a short decimal to a float -/

theorem abs_mul_sub_le {a b c t : ℚ} (pos : 0 < t) (h : |a - b / t| ≤ c / t) :
    |a * t - b| ≤ c := by
  have scaled : a * t - b = (a - b / t) * t := by rw [sub_mul, div_mul_cancel₀ _ pos.ne']
  rw [scaled, abs_mul, abs_of_pos pos]
  exact (le_div_iff₀ pos).1 h

section

variable {n p : ℕ}

theorem two_zpow_range {q : ℚ} (low : 1 / 10 ^ 23 ≤ q) (high : q ≤ 2 ^ 53) :
    2 ^ (-1022 : ℤ) ≤ q ∧ q < 2 ^ (1023 : ℤ) := by
  have least : (2 : ℚ) ^ (-1022 : ℤ) ≤ 2 ^ (-80 : ℤ) :=
    zpow_le_zpow_right₀ (by norm_num) (by norm_num)
  have greatest : (2 : ℚ) ^ (54 : ℤ) ≤ 2 ^ (1023 : ℤ) :=
    zpow_le_zpow_right₀ (by norm_num) (by norm_num)
  exact ⟨least.trans (le_trans (by norm_num) low), high.trans_lt (lt_of_lt_of_le (by norm_num) greatest)⟩

theorem ten_pow_le (le : p ≤ 22) : (10 : ℚ) ^ p ≤ 10 ^ 22 :=
  pow_le_pow_right₀ (by norm_num) le

/-- A quotient by a power of ten is in the range of floats with 53 bits. -/
theorem div_ten_pow_range (positive : 0 < n) (few : n < 2 ^ 53) (le : p ≤ 22) :
    2 ^ (-1022 : ℤ) ≤ (n : ℚ) / 10 ^ p ∧ (n : ℚ) / 10 ^ p < 2 ^ (1023 : ℤ) := by
  have positive : (1 : ℚ) ≤ n := by exact_mod_cast positive
  have few : (n : ℚ) < 2 ^ 53 := by exact_mod_cast few
  refine two_zpow_range ?_ ((div_le_self (by linarith) (one_le_pow₀ (by norm_num))).trans few.le)
  rw [div_le_div_iff₀ (by positivity) (by positivity)]
  have := ten_pow_le le
  linarith

/-- The digits after the point as a float. -/
theorem exists_fraction (positive : 0 < n) (few : n < 2 ^ 53) (le : p ≤ 22) :
    ∃ f, rationalOf? (.ofNat n / .ofNat (10 ^ p)) = some f ∧ 0 < f ∧ |f * 10 ^ p - n| ≤ n / 2 ^ 53 := by
  have pos : (0 : ℚ) < n := Nat.cast_pos.2 positive
  have power : (0 : ℚ) < 10 ^ p := by positivity
  obtain ⟨f, found, rounds⟩ := rationalOf?_div_rounds (rationalOf?_ofNat (representable_of_lt few))
    (rationalOf?_ten_pow le) pos power (div_ten_pow_range positive few le)
  have near := abs_mul_sub_le power (rounds.abs_sub_le_div.trans_eq (div_right_comm _ _ _))
  refine ⟨f, found, pos_of_mul_pos_left ?_ power.le, near⟩
  have := (abs_le.1 near).1
  linarith

/-- The digits before and after the point as one float. -/
theorem exists_sum (few : n < 2 ^ 51) (le : p ≤ 22) (rest : 0 < n % 10 ^ p) :
    ∃ f s, rationalOf? (.ofNat (n % 10 ^ p) / .ofNat (10 ^ p)) = some f ∧ 0 < f ∧
      rationalOf? (.ofNat (n / 10 ^ p) + .ofNat (n % 10 ^ p) / .ofNat (10 ^ p)) = some s ∧
      |s * 10 ^ p - n| < 3 / 8 := by
  have power : (0 : ℚ) < 10 ^ p := by positivity
  have split := Nat.div_add_mod n (10 ^ p)
  have lt := Nat.mod_lt n (show 0 < 10 ^ p by positivity)
  obtain ⟨f, found, pos, near⟩ := exists_fraction rest (by omega) le
  have whole := rationalOf?_ofNat
    (representable_of_lt ((Nat.div_le_self n (10 ^ p)).trans_lt (by omega : n < 2 ^ 53)))
  have bits : (n : ℚ) ≤ 2 ^ 51 - 1 := by
    have : n + 1 ≤ 2 ^ 51 := few
    rw [le_sub_iff_add_le]
    exact_mod_cast this
  generalize n / 10 ^ p = w at *
  generalize n % 10 ^ p = r at *
  have value : (n : ℚ) = 10 ^ p * w + r := by exact_mod_cast split.symm
  rw [abs_le] at near
  rcases Nat.eq_zero_or_pos w with rfl | positive
  · rw [Nat.cast_zero] at whole value
    have sum := rationalOf?_add whole found (by rw [zero_add]; exact representable_of_rationalOf? found)
    rw [zero_add] at sum
    refine ⟨f, f, found, pos, sum, abs_lt.2 ⟨?_, ?_⟩⟩ <;> linarith
  · -- the digits after the point are less than half of all
    have less : (r : ℚ) + 1 ≤ 10 ^ p := by exact_mod_cast lt
    have one : (1 : ℚ) ≤ w := by exact_mod_cast positive
    have most := le_mul_of_one_le_right power.le one
    have small : f ≤ 2 := le_of_mul_le_mul_right (by linarith) power
    have large : (w : ℚ) ≤ 10 ^ p * w :=
      le_mul_of_one_le_left (by linarith) (one_le_pow₀ (by norm_num))
    obtain ⟨s, sum, rounds⟩ := rationalOf?_add_rounds whole found (by linarith) pos
      (two_zpow_range (by linarith) (by linarith))
    have off := abs_le.1 rounds.abs_sub_le_div
    have above := mul_le_mul_of_nonneg_right off.2 power.le
    have below := mul_le_mul_of_nonneg_right off.1 power.le
    refine ⟨f, s, found, pos, sum, abs_lt.2 ⟨?_, ?_⟩⟩ <;> linarith

/-- To take the digits apart and together again is off by less than a half. -/
theorem exists_scaled (few : n < 2 ^ 51) (le : p ≤ 22) (rest : 0 < n % 10 ^ p) :
    ∃ f s, rationalOf? (.ofNat (n % 10 ^ p) / .ofNat (10 ^ p)) = some f ∧ 0 < f ∧
      rationalOf? ((.ofNat (n / 10 ^ p) + .ofNat (n % 10 ^ p) / .ofNat (10 ^ p)) * .ofNat (10 ^ p))
        = some s ∧ |s - n| < 1 / 2 := by
  obtain ⟨f, s, found, pos, summed, near⟩ := exists_sum few le rest
  have digit : (1 : ℚ) ≤ n := by
    have := Nat.mod_le n (10 ^ p)
    exact_mod_cast rest.trans_le this
  have bits : (n : ℚ) + 1 ≤ 2 ^ 51 := by exact_mod_cast few
  rw [abs_lt] at near
  have unit := ten_pow_le le
  have positive : 0 < s := pos_of_mul_pos_left (by linarith) (show (0 : ℚ) ≤ 10 ^ p by positivity)
  have least : 1 / 10 ^ 23 ≤ s := by
    have := mul_le_mul_of_nonneg_left (ten_pow_le le) positive.le
    linarith
  have most := le_mul_of_one_le_right positive.le (one_le_pow₀ (show (1 : ℚ) ≤ 10 by norm_num) (n := p))
  obtain ⟨q, product, rounds⟩ := rationalOf?_mul_rounds summed (rationalOf?_ten_pow le)
    (two_zpow_range least (by linarith)).1 (by positivity)
    (two_zpow_range (by linarith) (by linarith))
  have off := abs_le.1 (rounds.abs_sub_le_of_lt (b := 51) (by norm_num; linarith))
  norm_num at off
  refine ⟨f, q, found, pos, product, abs_lt.2 ⟨?_, ?_⟩⟩ <;> linarith

end

/-- A decimal whose last digit is after the point and not zero is not whole. -/
theorem mod_ten_pow_ne_zero {d : Decimal} (fraction : d.places ≠ 0) (last : d.digits % 10 ≠ 0) :
    d.digits % 10 ^ d.places ≠ 0 := fun zero => last <|
  Nat.mod_eq_zero_of_dvd ((dvd_pow_self 10 fraction).trans (Nat.dvd_of_mod_eq_zero zero))

/-- A short decimal leaves as a float next to it. -/
theorem rationalOf?_magnitudeFloat_rounds {d : Decimal} (few : d.digits < 2 ^ 51) (le : d.places ≤ 22)
    (fraction : d.places ≠ 0) (last : d.digits % 10 ≠ 0) :
    ∃ w, rationalOf? d.magnitudeFloat = some w ∧ RoundsTo d.magnitude w := by
  have rest := Nat.pos_of_ne_zero (mod_ten_pow_ne_zero fraction last)
  obtain ⟨f, s, found, pos, scaled, near⟩ := exists_scaled few le rest
  have digit : 0 < d.digits := rest.trans_le (Nat.mod_le _ _)
  obtain ⟨w, quotient, rounds⟩ := rationalOf?_div_rounds
    (rationalOf?_ofNat (representable_of_lt (m := d.digits) (by omega))) (rationalOf?_ten_pow le)
    (Nat.cast_pos.2 digit) (by positivity) (div_ten_pow_range digit (by omega) le)
  have some : ¬(Float.ofNat (d.digits % 10 ^ d.places) / .ofNat (10 ^ d.places) == 0) = true :=
    fun none => pos.ne' ((beq_iff found rationalOf?_zero).1 none)
  obtain ⟨form, made, rfl⟩ := Option.map_eq_some_iff.1 scaled
  have positive : 0 ≤ form.toRat := by
    have digit : (1 : ℚ) ≤ d.digits := by exact_mod_cast digit
    have := (abs_lt.1 near).1
    linarith
  rw [← abs_of_nonneg positive, Dyadic.abs_toRat] at near
  have power : Nat.pow 10 d.places = 10 ^ d.places := rfl
  refine ⟨w, ?_, rounds⟩
  simp only [magnitudeFloat, power, if_neg fraction, if_neg some, made, nearestMagnitude_eq near]
  exact quotient

/-! ## From a float to a short decimal -/

/-- A float that is next to a decimal of 51 bits and 22 places. With the zeros that may still be written
at the end of its digits it lies less than four ninths of the last digit above that decimal, as it does
anyway where the digits are no more than a ninth of `2 ^ 55`. -/
structure StandsFor (n k : ℕ) (q : ℚ) : Prop where
  nearest : IsNearest q (n / 10 ^ k)
  few : n < 2 ^ 51
  places : k ≤ 22
  below (j : ℕ) : n * 10 ^ j < 2 ^ 52 → k + j ≤ maxPlaces →
    9 * (n * 10 ^ j) ≤ 2 ^ 55 ∨ (q - n / 10 ^ k) * 10 ^ (k + j) < 4 / 9

/-- As many zeros as there is room for. -/
theorem exists_zeros {n k : ℕ} (few : n < 2 ^ 52) (le : k ≤ maxPlaces) :
    ∃ j, n * 10 ^ j < 2 ^ 52 ∧ k + j ≤ maxPlaces ∧
      (k + j = maxPlaces ∨ 2 ^ 52 ≤ 10 * (n * 10 ^ j)) := by
  have none : n * 10 ^ 0 < 2 ^ 52 := by rwa [Nat.pow_zero, Nat.mul_one]
  have room := Nat.findGreatest_spec (P := fun j => n * 10 ^ j < 2 ^ 52)
    (Nat.zero_le (maxPlaces - k)) none
  have most := Nat.findGreatest_le (P := fun j => n * 10 ^ j < 2 ^ 52) (maxPlaces - k)
  have next := fun i => Nat.findGreatest_is_greatest (P := fun j => n * 10 ^ j < 2 ^ 52)
    (n := maxPlaces - k) (k := i)
  generalize Nat.findGreatest (fun j => n * 10 ^ j < 2 ^ 52) (maxPlaces - k) = j at *
  refine ⟨j, room, by omega, or_iff_not_imp_left.2 fun less => ?_⟩
  have full := not_lt.1 (next (j + 1) (Nat.lt_succ_self j) (by omega))
  rwa [Nat.mul_left_comm, ← Nat.pow_succ']

/-- Digits without a zero at their end are no more than others of the same value. -/
theorem le_of_mul_ten_pow {m n k p : ℕ} (same : m * 10 ^ k = n * 10 ^ p)
    (last : p = 0 ∨ m % 10 ≠ 0) : m ≤ n ∧ p ≤ k := by
  rcases le_or_gt p k with le | less
  · obtain ⟨i, rfl⟩ := Nat.exists_eq_add_of_le' le
    rw [Nat.pow_add, ← Nat.mul_assoc] at same
    have same := Nat.eq_of_mul_eq_mul_right (by positivity) same
    exact ⟨same ▸ Nat.le_mul_of_pos_right m (by positivity), le⟩
  · obtain ⟨i, rfl⟩ := Nat.exists_eq_add_of_lt less
    rw [Nat.add_assoc, Nat.add_comm k, Nat.pow_add, ← Nat.mul_assoc] at same
    have same := Nat.eq_of_mul_eq_mul_right (by positivity) same
    rw [Nat.pow_succ, ← Nat.mul_assoc] at same
    omega

variable {x : Float} {f : Dyadic} {n k : ℕ}

/-- With the zeros that there is room for, the digits of a short decimal are more than one. -/
theorem two_le_filled {j : ℕ} (positive : 0 < n) (short : k ≤ 22)
    (full : k + j = maxPlaces ∨ 2 ^ 52 ≤ 10 * (n * 10 ^ j)) : 2 ≤ n * 10 ^ j := by
  rcases full with full | full
  · have places : maxPlaces = 28 := rfl
    have ten := Nat.pow_le_pow_right (show 0 < 10 by decide) (show 1 ≤ j by omega)
    have := Nat.mul_le_mul positive ten
    omega
  · omega

/-- Where the number lies from the digits of its decimal. -/
theorem StandsFor.digits_near {q : ℚ} (h : StandsFor n k q) (rounds : RoundsTo (n / 10 ^ k) q) {j : ℕ}
    (room : n * 10 ^ j < 2 ^ 52) (le : k + j ≤ maxPlaces) :
    ((n * 10 ^ j : ℕ) : ℚ) - (n * 10 ^ j : ℕ) / 2 ^ 53 ≤ q * 10 ^ (k + j) ∧
      q * 10 ^ (k + j) < (n * 10 ^ j : ℕ) + 4 / 9 := by
  have power : (0 : ℚ) < 10 ^ (k + j) := by positivity
  have off := abs_le.1 rounds.abs_sub_le_div
  have low := mul_le_mul_of_nonneg_right off.1 power.le
  have high := mul_le_mul_of_nonneg_right off.2 power.le
  have below := h.below j room le
  rw [neg_mul, div_mul_eq_mul_div, div_ten_pow_mul, sub_mul, div_ten_pow_mul] at low
  rw [div_mul_eq_mul_div, div_ten_pow_mul, sub_mul, div_ten_pow_mul] at high
  rw [sub_mul, div_ten_pow_mul] at below
  refine ⟨by linarith, ?_⟩
  rcases below with few | below
  · have few : 9 * (n * 10 ^ j) + 1 ≤ 2 ^ 55 := by omega
    have few : (9 * (n * 10 ^ j : ℕ) + 1 : ℚ) ≤ 2 ^ 55 := by exact_mod_cast few
    linarith
  · linarith

/-- The float enters as its decimal, without zeros at the end. -/
theorem ofFloat?_near (found : Dyadic.ofFloat? x = some f) (fraction : f.exponent < 0)
    (positive : 0 < n) (h : StandsFor n k f.magnitude) (rounds : RoundsTo (n / 10 ^ k) f.magnitude) :
    ∃ d : Decimal, ofFloat? x = some d ∧ d.negative = f.negative ∧ d.magnitude = n / 10 ^ k ∧
      d.digits ≤ n ∧ d.places ≤ k ∧ (d.places = 0 ∨ d.digits % 10 ≠ 0) := by
  have few := h.few
  obtain ⟨j, room, le, full⟩ := exists_zeros (show n < 2 ^ 52 by omega) (h.places.trans (by decide))
  have two := two_le_filled positive h.places full
  obtain ⟨low, high⟩ := h.digits_near rounds room le
  have bits := (Dyadic.ofFloat?_eq_some_iff.1 found).1.least
  rw [magnitude_of_fraction fraction] at low high
  obtain ⟨m, p, spelt, value, most, last⟩ :=
    exists_digitsOf_near (by omega) room le full two low high
  have nonzero : f.significand ≠ 0 := fun zero => by
    have two : (2 : ℚ) ≤ (n * 10 ^ j : ℕ) := by exact_mod_cast two
    rw [zero, Nat.cast_zero, zero_div, zero_mul] at low
    linarith
  have same : m * 10 ^ k = n * 10 ^ p := by
    refine Nat.eq_of_mul_eq_mul_right (show 0 < 10 ^ j by positivity) ?_
    rw [Nat.mul_right_comm n, ← value, Nat.mul_assoc, ← Nat.pow_add, Nat.mul_assoc, ← Nat.pow_add]
    congr 2
    omega
  obtain ⟨fewer, shorter⟩ := le_of_mul_ten_pow same last
  refine ⟨⟨f.negative, m, p⟩, ?_, rfl, ?_, fewer, shorter, last⟩
  · rw [ofFloat?_fraction found nonzero fraction, spelt]
  · rw [magnitude, div_eq_div_iff (by positivity) (by positivity)]
    exact_mod_cast same

end Decimal

end QueryForms
