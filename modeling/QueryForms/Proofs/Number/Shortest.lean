import QueryForms.Number.Shortest
import QueryForms.Proofs.Number.Dyadic

/-!
# The fewest digits belong to one float

The fewest digits of a float spell a number that rounds to it (`covers_shortest`), and no number
rounds to two floats, since the intervals of neighbours meet in their ends at most, of which one is
open then (`RoundingInterval.Covers.significand_eq`). So floats with the same fewest digits have the
same significand and exponent (`significand_eq_of_shortest`).
-/

namespace QueryForms

/-- The number as a rational one. -/
def DecimalDigits.toRat (d : DecimalDigits) : ℚ :=
  d.digits * 10 ^ d.exponent

theorem ten_zpow_pos (e : ℤ) : (0 : ℚ) < 10 ^ e :=
  zpow_pos (by norm_num) e

namespace RoundingInterval

/-- Whether a number lies in the interval. -/
def Covers (r : RoundingInterval) (q : ℚ) : Prop :=
  r.low * 10 ^ r.exponent ≤ q ∧ q ≤ r.high * 10 ^ r.exponent ∧
    (r.closed = false → r.low * 10 ^ r.exponent < q ∧ q < r.high * 10 ^ r.exponent)

/-! ## The search stays in the interval -/

theorem contains_iff {r : RoundingInterval} {n : ℕ} :
    r.contains n = true ↔ r.low ≤ n ∧ n ≤ r.high ∧ (r.closed = false → r.low < n ∧ n < r.high) := by
  rw [contains]
  cases r.closed with
  | true => simp
  | false =>
    simp only [Bool.false_eq_true, if_false, Bool.and_eq_true, decide_eq_true_eq, forall_const]
    omega

theorem covers_of_contains {r : RoundingInterval} {n : ℕ} (h : r.contains n = true) :
    r.Covers (n * 10 ^ r.exponent) := by
  obtain ⟨low, high, inside⟩ := contains_iff.1 h
  have unit := ten_zpow_pos r.exponent
  refine ⟨mul_le_mul_of_nonneg_right (Nat.cast_le.2 low) unit.le,
    mul_le_mul_of_nonneg_right (Nat.cast_le.2 high) unit.le, fun closed => ?_⟩
  exact ⟨mul_lt_mul_of_pos_right (Nat.cast_lt.2 (inside closed).1) unit,
    mul_lt_mul_of_pos_right (Nat.cast_lt.2 (inside closed).2) unit⟩

/-- A point of a grid is found only in the interval. -/
theorem contains_gridPoint {r : RoundingInterval} {tie : Tie} {places n : ℕ}
    (found : r.gridPoint? tie places = some n) : r.contains (n * 10 ^ places) = true := by
  have power : Nat.pow 10 places = 10 ^ places := rfl
  simp only [gridPoint?, power] at found
  split at found
  · next below above =>
    repeat' split at found
    all_goals cases found; first | exact below | exact above
  · next below _ => cases found; exact below
  · next _ above => cases found; exact above
  · cases found

theorem covers_search {r : RoundingInterval} (h : r.contains r.value = true) (tie : Tie)
    (places : ℕ) : r.Covers (r.search tie places).toRat := by
  induction places with
  | zero => exact covers_of_contains h
  | succ places ih =>
    rw [search]
    split
    · next n found =>
      have point := covers_of_contains (contains_gridPoint found)
      rw [DecimalDigits.toRat, zpow_add₀ (by norm_num), mul_comm (_ ^ r.exponent), ← mul_assoc]
      rwa [Nat.cast_mul, Nat.cast_pow] at point
    · exact ih

/-! ## The interval of a float -/

variable {d d' : Dyadic} {q : ℚ}

/-- Four times the distance from the significand to the lower end: the floats below a power of two
lie twice as dense. -/
def lowGap (d : Dyadic) : ℕ :=
  if d.significand = 2 ^ 52 ∧ -1074 < d.exponent then 1 else 2

theorem lowGap_le (d : Dyadic) : 1 ≤ lowGap d ∧ lowGap d ≤ 2 := by
  unfold lowGap
  split <;> omega

/-- What the ends and the value are multiples of is a quarter of the last place. -/
theorem scale_mul (e : ℤ) :
    ((2 ^ e.toNat * 5 ^ (-e).toNat : ℕ) : ℚ) * 10 ^ min e 0 = 2 ^ e := by
  rcases le_total 0 e with up | down
  · obtain ⟨n, rfl⟩ := Int.eq_ofNat_of_zero_le up
    simp
  · obtain ⟨n, rfl⟩ := Int.exists_eq_neg_ofNat down
    have ten : (10 : ℚ) ^ n = 5 ^ n * 2 ^ n := by
      rw [← mul_pow]
      norm_num
    rw [min_eq_left down, Int.toNat_of_nonpos down, neg_neg, Int.toNat_natCast, zpow_neg, zpow_neg,
      zpow_natCast, zpow_natCast, ten]
    push_cast
    field_simp

theorem low_ofDyadic (d : Dyadic) :
    ((ofDyadic d).low : ℚ) * 10 ^ (ofDyadic d).exponent
      = (4 * d.significand - lowGap d : ℕ) * 2 ^ (d.exponent - 2) := by
  rw [← scale_mul, ← mul_assoc, ← Nat.cast_mul]
  rfl

theorem high_ofDyadic (d : Dyadic) :
    ((ofDyadic d).high : ℚ) * 10 ^ (ofDyadic d).exponent
      = (4 * d.significand + 2 : ℕ) * 2 ^ (d.exponent - 2) := by
  rw [← scale_mul, ← mul_assoc, ← Nat.cast_mul]
  rfl

theorem contains_value (nonzero : d.significand ≠ 0) :
    (ofDyadic d).contains (ofDyadic d).value = true := by
  have scale : 0 < Nat.pow 2 (d.exponent - 2).toNat * Nat.pow 5 (-(d.exponent - 2)).toNat :=
    Nat.mul_pos (Nat.two_pow_pos _) (Nat.pow_pos (by decide))
  have gap := lowGap_le d
  have low : (ofDyadic d).low < (ofDyadic d).value :=
    Nat.mul_lt_mul_of_pos_right (show 4 * d.significand - lowGap d < 4 * d.significand by omega) scale
  have high : (ofDyadic d).value < (ofDyadic d).high :=
    Nat.mul_lt_mul_of_pos_right (Nat.lt_add_of_pos_right (by decide)) scale
  exact contains_iff.2 ⟨low.le, high.le, fun _ => ⟨low, high⟩⟩

theorem Covers.pos (nonzero : d.significand ≠ 0) (h : (ofDyadic d).Covers q) : 0 < q := by
  have low := h.1
  rw [low_ofDyadic] at low
  have gap := lowGap_le d
  exact (mul_pos (Nat.cast_pos.2 (by omega)) (Dyadic.two_zpow_pos _)).trans_le low

/-- A number in two intervals is an end of the lower one and of the upper one; it is in neither
unless both are closed. -/
theorem Covers.le (h : (ofDyadic d).Covers q) (h' : (ofDyadic d').Covers q)
    (le : d.exponent ≤ d'.exponent) :
    (4 * d'.significand - lowGap d') * 2 ^ (d'.exponent - d.exponent).toNat
        ≤ 4 * d.significand + 2 ∧
      (d.significand % 2 ≠ 0 ∨ d'.significand % 2 ≠ 0 →
        (4 * d'.significand - lowGap d') * 2 ^ (d'.exponent - d.exponent).toNat
          < 4 * d.significand + 2) := by
  have closed : ∀ {d : Dyadic}, d.significand % 2 ≠ 0 → (ofDyadic d).closed = false :=
    fun odd => beq_eq_false_iff_ne.2 odd
  have lower : ((ofDyadic d').low : ℚ) * 10 ^ (ofDyadic d').exponent
      = ((4 * d'.significand - lowGap d') * 2 ^ (d'.exponent - d.exponent).toNat : ℕ)
        * 2 ^ (d.exponent - 2) := by
    rw [low_ofDyadic, Dyadic.two_zpow_sub (Int.sub_le_sub_right le 2), sub_sub_sub_cancel_right,
      ← mul_assoc]
    push_cast
    rfl
  have unit := Dyadic.two_zpow_pos (d.exponent - 2)
  constructor
  · have ends := h'.1.trans h.2.1
    rw [lower, high_ofDyadic] at ends
    exact_mod_cast le_of_mul_le_mul_right ends unit
  · intro odd
    have ends : ((ofDyadic d').low : ℚ) * 10 ^ (ofDyadic d').exponent
        < (ofDyadic d).high * 10 ^ (ofDyadic d).exponent := by
      rcases odd with odd | odd
      · exact h'.1.trans_lt (h.2.2 (closed odd)).2
      · exact (h'.2.2 (closed odd)).1.trans_le h.2.1
    rw [lower, high_ofDyadic] at ends
    exact_mod_cast lt_of_mul_lt_mul_right ends unit.le

/-- The interval of a greater float lies above. -/
theorem Covers.not_lt (h : d.IsCanonical) (h' : d'.IsCanonical) (covers : (ofDyadic d).Covers q)
    (covers' : (ofDyadic d').Covers q) (le : d.exponent ≤ d'.exponent)
    (less : d.exponent = d'.exponent → d.significand < d'.significand) : False := by
  obtain ⟨ends, strict⟩ := covers.le covers' le
  have gap := lowGap_le d'
  have bits := h.lt
  rcases le.eq_or_lt with same | above
  · -- neighbours of one exponent: the significands differ by one, so one of them is odd
    have less := less same
    rw [same, Int.sub_self, Int.toNat_zero, Nat.pow_zero, Nat.mul_one] at ends strict
    omega
  · have full : 2 ^ 52 ≤ d'.significand := h'.full.resolve_right (by have := h.least; omega)
    have twice : 2 ^ 1 ≤ 2 ^ (d'.exponent - d.exponent).toNat :=
      Nat.pow_le_pow_right (by decide) (by omega)
    have low := Nat.mul_le_mul_left (4 * d'.significand - lowGap d') twice
    -- a power of two has a narrow interval, which begins where the greatest float below it ends
    have narrow : d'.significand = 2 ^ 52 → lowGap d' = 1 := fun power =>
      if_pos ⟨power, by have := h.least; omega⟩
    omega

/-- No number rounds to two magnitudes. -/
theorem Covers.significand_eq (h : d.IsCanonical) (h' : d'.IsCanonical)
    (covers : (ofDyadic d).Covers q) (covers' : (ofDyadic d').Covers q) :
    d.significand = d'.significand ∧ d.exponent = d'.exponent := by
  rcases lt_trichotomy d.exponent d'.exponent with less | same | greater
  · exact (Covers.not_lt h h' covers covers' less.le fun same => absurd same less.ne).elim
  · refine ⟨?_, same⟩
    rcases lt_trichotomy d.significand d'.significand with less | same' | greater
    · exact (Covers.not_lt h h' covers covers' same.le fun _ => less).elim
    · exact same'
    · exact (Covers.not_lt h' h covers' covers same.ge fun _ => greater).elim
  · exact (Covers.not_lt h' h covers' covers greater.le fun same => absurd same greater.ne).elim

end RoundingInterval

/-! ## The digits of floats -/

variable {d d' : Dyadic}

/-- The fewest digits of a float spell a number that rounds to it. -/
theorem covers_shortest (tie : Tie) (nonzero : d.significand ≠ 0) :
    (RoundingInterval.ofDyadic d).Covers (shortest tie d).toRat := by
  rw [shortest, if_neg nonzero]
  exact RoundingInterval.covers_search (RoundingInterval.contains_value nonzero) tie _

theorem toRat_shortest_eq_zero_iff {tie : Tie} : (shortest tie d).toRat = 0 ↔ d.significand = 0 := by
  constructor
  · intro none
    by_contra nonzero
    exact ((covers_shortest tie nonzero).pos nonzero).ne' none
  · intro zero
    rw [shortest, if_pos zero, DecimalDigits.toRat, Nat.cast_zero, zero_mul]

/-- Floats with the same fewest digits have the same magnitude. -/
theorem significand_eq_of_shortest {tie : Tie} (h : d.IsCanonical) (h' : d'.IsCanonical)
    (same : (shortest tie d).toRat = (shortest tie d').toRat) :
    d.significand = d'.significand ∧ d.exponent = d'.exponent := by
  by_cases zero : d.significand = 0
  · have zero' : d'.significand = 0 :=
      toRat_shortest_eq_zero_iff.1 (same ▸ toRat_shortest_eq_zero_iff.2 zero)
    have least := h.full
    have least' := h'.full
    omega
  · have zero' : d'.significand ≠ 0 := fun none =>
      zero (toRat_shortest_eq_zero_iff.1 (same.trans (toRat_shortest_eq_zero_iff.2 none)))
    exact RoundingInterval.Covers.significand_eq h h' (covers_shortest tie zero)
      (same ▸ covers_shortest tie zero')

end QueryForms
