import QueryForms.Proofs.Number.Decimal

/-!
# Digits rounded away one by one

To round away one digit after the other is not to round once: what is left goes up from four ninths of
its last digit on (`Decimal.le_iterate_dropDigit_iff`). What the bits of a float come to as digits is
too low by next to nothing (`Decimal.exists_halve`), so a float that lies less than four ninths of the
last digit above a decimal of as many digits as it guarantees has the digits of that decimal
(`Decimal.exists_digitsOf_near`).
-/

namespace QueryForms.Decimal

/-! ## Rounding by single digits -/

theorem dropDigit_eq (digits : ℕ) : dropDigit digits = (digits + 5) / 10 := by
  rw [dropDigit]
  split <;> omega

/-- Digits are rounded one by one up to a number from five ninths below it on. -/
theorem le_iterate_dropDigit_iff {n t digits : ℕ} :
    n ≤ dropDigit^[t] digits ↔ (n : ℚ) - 5 / 9 ≤ digits / 10 ^ t := by
  induction t generalizing n with
  | zero =>
    rw [Function.iterate_zero_apply, pow_zero, div_one]
    constructor
    · intro le
      have : (n : ℚ) ≤ digits := Nat.cast_le.2 le
      linarith
    · intro le
      have : (n : ℚ) < digits + 1 := by linarith
      exact Nat.lt_succ_iff.1 (by exact_mod_cast this)
  | succ t ih =>
    have step : n ≤ dropDigit (dropDigit^[t] digits) ↔ 10 * n - 5 ≤ dropDigit^[t] digits := by
      rw [dropDigit_eq]
      omega
    rw [Function.iterate_succ_apply', step, ih, pow_succ, ← div_div]
    rcases Nat.eq_zero_or_pos n with rfl | positive
    · have : (0 : ℚ) ≤ digits / 10 ^ t := by positivity
      rw [Nat.mul_zero, Nat.zero_sub, Nat.cast_zero]
      exact iff_of_true (by linarith) (by linarith)
    · rw [Nat.cast_sub (by omega)]
      push_cast
      constructor <;> intro le <;> linarith

theorem iterate_dropDigit_eq_iff {n t digits : ℕ} :
    dropDigit^[t] digits = n ↔
      (n : ℚ) - 5 / 9 ≤ digits / 10 ^ t ∧ (digits : ℚ) / 10 ^ t < n + 4 / 9 := by
  have atLeast := @le_iterate_dropDigit_iff n t digits
  have atMost := @le_iterate_dropDigit_iff (n + 1) t digits
  push_cast at atMost
  constructor
  · intro same
    exact ⟨atLeast.1 same.ge, by have := mt atMost.2 (by omega); linarith⟩
  · rintro ⟨low, high⟩
    have := atLeast.2 low
    have := mt atMost.1 (by linarith)
    omega

theorem iterate_dropDigit_le (t digits : ℕ) : dropDigit^[t] digits ≤ digits := by
  induction t with
  | zero => exact le_rfl
  | succ t ih =>
    rw [Function.iterate_succ_apply']
    exact (dropDigit_le _).trans ih

/-- Places are rounded away as long as there are digits before them. -/
theorem dropPlaces_eq {excess digits : ℕ} (enough : excess = 0 ∨ 10 ≤ dropDigit^[excess - 1] digits)
    (places : ℕ) :
    dropPlaces excess digits places = (dropDigit^[excess] digits, places - excess) := by
  induction excess generalizing digits places with
  | zero => rfl
  | succ excess ih =>
    have enough := enough.resolve_left (Nat.succ_ne_zero excess)
    rw [Nat.add_sub_cancel] at enough
    have := iterate_dropDigit_le excess digits
    rw [dropPlaces, if_neg (by omega), ih, Nat.sub_sub, Nat.add_comm 1]
    · rfl
    · cases excess with
      | zero => exact .inl rfl
      | succ excess => exact .inr enough

/-- Places are rounded away until the digits are few enough. -/
theorem dropUncertain_eq {t digits : ℕ} (places : ℕ) (few : dropDigit^[t] digits < 2 ^ 52)
    (many : t = 0 ∨ 2 ^ 52 ≤ dropDigit^[t - 1] digits) :
    dropUncertain digits (places + t) = (dropDigit^[t] digits, places) := by
  have bound : Nat.pow 2 52 = 2 ^ 52 := rfl
  induction t generalizing digits with
  | zero =>
    cases places with
    | zero => rfl
    | succ places => exact if_neg (not_le.2 few)
  | succ t ih =>
    have many := many.resolve_left (Nat.succ_ne_zero t)
    rw [Nat.add_sub_cancel] at many
    have := iterate_dropDigit_le t digits
    rw [← Nat.add_assoc, dropUncertain, bound, if_pos (by omega), ih few]
    · rfl
    · cases t with
      | zero => exact .inl rfl
      | succ t => exact .inr many

theorem exists_dropZeros (digits places : ℕ) :
    ∃ n k, dropZeros digits places = (n, k) ∧ n * 10 ^ (places - k) = digits ∧ k ≤ places ∧
      (k = 0 ∨ n % 10 ≠ 0) := by
  induction places generalizing digits with
  | zero => exact ⟨digits, 0, rfl, Nat.mul_one _, le_rfl, .inl rfl⟩
  | succ places ih =>
    rw [dropZeros]
    split
    · next zero =>
      obtain ⟨n, k, dropped, same, le, last⟩ := ih (digits / 10)
      refine ⟨n, k, dropped, ?_, by omega, last⟩
      rw [Nat.sub_add_comm le, Nat.pow_succ, ← Nat.mul_assoc, same,
        Nat.div_mul_cancel (Nat.dvd_of_mod_eq_zero zero)]
    · next last => exact ⟨digits, places + 1, rfl, by rw [Nat.sub_self, Nat.pow_zero, Nat.mul_one],
        le_rfl, .inr last⟩

/-! ## Digits of a power of two -/

/-- To halve digits that are even or many loses next to nothing. -/
theorem half_ge {digits : ℕ} (h : digits % 2 = 1 → capacity ≤ digits * 5) :
    (digits : ℚ) / 2 * (1 - 1 / 2 ^ 93) ≤ (digits / 2 : ℕ) := by
  have bound : capacity = 2 ^ 96 := rfl
  obtain ⟨half, rfl | rfl⟩ := Nat.even_or_odd' digits
  · rw [Nat.mul_div_cancel_left half (by decide)]
    push_cast
    have : (0 : ℚ) ≤ half := Nat.cast_nonneg half
    linarith
  · have many := h (by omega)
    rw [bound] at many
    rw [show (2 * half + 1) / 2 = half by omega]
    have many : (2 ^ 96 : ℚ) ≤ (2 * half + 1) * 5 := by exact_mod_cast many
    push_cast
    linarith

/-- The digits have the value that was to be halved, less next to nothing for every bit that went. -/
theorem exists_halve (steps digits halved : ℕ) :
    ∃ result h places, halve steps digits halved = (result, halved + h) ∧ h + places = steps ∧
      (digits : ℚ) / 2 ^ steps * (1 - 1 / 2 ^ 93) ^ steps ≤ result / 10 ^ places ∧
      (result : ℚ) / 10 ^ places ≤ digits / 2 ^ steps := by
  have half := @half_ge
  obtain ⟨c, part, nonneg, le_one⟩ : ∃ c : ℚ, 1 - 1 / 2 ^ 93 = c ∧ 0 ≤ c ∧ c ≤ 1 :=
    ⟨_, rfl, by norm_num, by norm_num⟩
  rw [part] at half ⊢
  induction steps generalizing digits halved with
  | zero => exact ⟨digits, 0, 0, rfl, rfl, by simp, by simp⟩
  | succ steps ih =>
    rw [halve]
    split
    · obtain ⟨result, h, places, computed, sum, low, high⟩ := ih (digits * 5) halved
      push_cast at low high
      have fifth : (digits : ℚ) / 2 ^ (steps + 1) = digits * 5 / 2 ^ steps / 10 := by
        rw [pow_succ]
        ring
      refine ⟨result, h, places + 1, computed, by omega, ?_, ?_⟩
      · have value : (0 : ℚ) ≤ digits * 5 / 2 ^ steps * c ^ steps := by positivity
        calc (digits : ℚ) / 2 ^ (steps + 1) * c ^ (steps + 1)
            = digits * 5 / 2 ^ steps * c ^ steps * c / 10 := by rw [fifth, pow_succ]; ring
          _ ≤ digits * 5 / 2 ^ steps * c ^ steps / 10 := by
            linarith [mul_le_of_le_one_right value le_one]
          _ ≤ result / 10 ^ places / 10 := by linarith
          _ = result / 10 ^ (places + 1) := by rw [pow_succ, div_div]
      · rw [fifth, pow_succ, ← div_div]
        linarith
    · next none =>
      obtain ⟨result, h, places, computed, sum, low, high⟩ := ih (digits / 2) (halved + 1)
      have half := half fun odd => not_lt.1 fun room => none ⟨odd, room⟩
      have less : ((digits / 2 : ℕ) : ℚ) ≤ digits / 2 := Nat.cast_div_le
      have halves : (digits : ℚ) / 2 ^ (steps + 1) = digits / 2 / 2 ^ steps := by
        rw [pow_succ', div_div]
      refine ⟨result, h + 1, places, by rw [computed, Nat.add_right_comm, Nat.add_assoc],
        by omega, ?_, high.trans (halves ▸ by gcongr)⟩
      calc (digits : ℚ) / 2 ^ (steps + 1) * c ^ (steps + 1)
          = digits / 2 * c / 2 ^ steps * c ^ steps := by rw [halves, pow_succ]; ring
        _ ≤ ((digits / 2 : ℕ) : ℚ) / 2 ^ steps * c ^ steps := by gcongr
        _ ≤ result / 10 ^ places := low

/-- So many factors that are next to one are next to one. -/
theorem one_sub_le_pow {steps : ℕ} (le : steps ≤ 1074) :
    (1 : ℚ) - 1 / 2 ^ 82 ≤ (1 - 1 / 2 ^ 93) ^ steps := by
  have bernoulli := one_add_mul_le_pow (show (-2 : ℚ) ≤ -(1 / 2 ^ 93) by norm_num) steps
  have le : (steps : ℚ) ≤ 1074 := by exact_mod_cast le
  rw [← sub_eq_add_neg] at bernoulli
  linarith

/-! ## Digits next to those of a decimal -/

theorem div_ten_pow_mul (n k j : ℕ) : (n : ℚ) / 10 ^ k * 10 ^ (k + j) = (n * 10 ^ j : ℕ) := by
  rw [pow_add, ← mul_assoc, div_mul_cancel₀ _ (by positivity)]
  push_cast
  rfl

section

variable {digits n places : ℕ} (few : n < 2 ^ 52) (le : places ≤ maxPlaces)

include few le

/-- Places that are too many go one by one, whichever of the two bounds they are too many for. -/
theorem dropUncertain_dropPlaces {t : ℕ} (kept : dropDigit^[t + 1] digits = n)
    (ten : 10 ≤ dropDigit^[t] digits)
    (many : places = maxPlaces ∨ 2 ^ 52 ≤ dropDigit^[t] digits) :
    dropUncertain (dropPlaces (places + t + 1 - maxPlaces) digits (places + t + 1)).1
      (dropPlaces (places + t + 1 - maxPlaces) digits (places + t + 1)).2 = (n, places) := by
  generalize excess : places + t + 1 - maxPlaces = e
  obtain ⟨j, rest⟩ := Nat.exists_eq_add_of_le' (show e ≤ t + 1 by omega)
  have enough : e = 0 ∨ 10 ≤ dropDigit^[e - 1] digits := by
    refine (Nat.eq_zero_or_pos e).imp_right fun positive => ten.trans ?_
    rw [show t = j + (e - 1) by omega, Function.iterate_add_apply]
    exact iterate_dropDigit_le j _
  have same : dropDigit^[j] (dropDigit^[e] digits) = n := by
    rw [← Function.iterate_add_apply, ← rest, kept]
  have left : j = 0 ∨ 2 ^ 52 ≤ dropDigit^[j - 1] (dropDigit^[e] digits) := by
    rcases many with rfl | many
    · exact .inl (by omega)
    · refine (Nat.eq_zero_or_pos j).imp_right fun positive => ?_
      rwa [← Function.iterate_add_apply, show j - 1 + e = t by omega]
  rw [dropPlaces_eq enough, show places + t + 1 - e = places + j by omega,
    dropUncertain_eq places (same ▸ few) left, same]

/-- Digits with more places than a decimal that they are next to are rounded to that decimal, if it has
as many digits as are kept. -/
theorem dropUncertain_dropPlaces_near {t : ℕ} (full : places = maxPlaces ∨ 2 ^ 52 ≤ 10 * n)
    (two : (2 : ℚ) ≤ n)
    (low : (n : ℚ) - n * (1 / 2 ^ 53 + 1 / 2 ^ 82)
      ≤ (digits : ℚ) / 10 ^ (places + t + 1) * 10 ^ places)
    (high : (digits : ℚ) / 10 ^ (places + t + 1) * 10 ^ places < n + 4 / 9) :
    dropUncertain (dropPlaces (places + t + 1 - maxPlaces) digits (places + t + 1)).1
      (dropPlaces (places + t + 1 - maxPlaces) digits (places + t + 1)).2 = (n, places) := by
  have bound : (n : ℚ) < 2 ^ 52 := by exact_mod_cast few
  have scaled : (digits : ℚ) / 10 ^ (places + t + 1) * 10 ^ places = digits / 10 ^ t / 10 := by
    rw [Nat.add_assoc, pow_add, pow_succ]
    field_simp
  rw [scaled] at low high
  have kept : dropDigit^[t + 1] digits = n := by
    rw [iterate_dropDigit_eq_iff, pow_succ, ← div_div]
    exact ⟨by linarith, high⟩
  -- what the bounds say of the digits before the last one is rounded away
  refine dropUncertain_dropPlaces few le kept ?_ (full.imp_right fun full => ?_)
  · rw [le_iterate_dropDigit_iff]
    push_cast
    linarith
  · have more : (2 ^ 52 + 4 : ℚ) ≤ 10 * n := by
      have : 2 ^ 52 + 4 ≤ 10 * n := by omega
      exact_mod_cast this
    rw [le_iterate_dropDigit_iff]
    push_cast
    linarith

/-- Digits that are next to a decimal of as many digits as are kept are rounded to that decimal. -/
theorem exists_dropUncertain {p : ℕ} (full : places = maxPlaces ∨ 2 ^ 52 ≤ 10 * n) (two : 2 ≤ n)
    (low : (n : ℚ) - n * (1 / 2 ^ 53 + 1 / 2 ^ 82) ≤ (digits : ℚ) / 10 ^ p * 10 ^ places)
    (high : (digits : ℚ) / 10 ^ p * 10 ^ places < n + 4 / 9) :
    ∃ certain q, dropUncertain (dropPlaces (p - maxPlaces) digits p).1
        (dropPlaces (p - maxPlaces) digits p).2 = (certain, q) ∧
      certain * 10 ^ (places - q) = n ∧ q ≤ places := by
  rcases le_or_gt p places with shorter | longer
  · obtain ⟨j, rfl⟩ := Nat.exists_eq_add_of_le shorter
    have bound : (n : ℚ) < 2 ^ 52 := by exact_mod_cast few
    rw [div_ten_pow_mul] at low high
    have above : n < digits * 10 ^ j + 1 := by
      have : (n : ℚ) < (digits * 10 ^ j : ℕ) + 1 := by linarith
      exact_mod_cast this
    have below : digits * 10 ^ j < n + 1 := by
      have : ((digits * 10 ^ j : ℕ) : ℚ) < n + 1 := by linarith
      exact_mod_cast this
    have same : digits * 10 ^ j = n := by omega
    have := Nat.le_mul_of_pos_right digits (Nat.pow_pos (n := j) (show 0 < 10 by decide))
    refine ⟨digits, p, ?_, by rw [Nat.add_sub_cancel_left, same], shorter⟩
    rw [Nat.sub_eq_zero_of_le (by omega), dropPlaces]
    exact dropUncertain_eq (t := 0) p (lt_of_le_of_lt (same ▸ this) few) (.inl rfl)
  · obtain ⟨t, rfl⟩ := Nat.exists_eq_add_of_lt longer
    refine ⟨n, places, ?_, by rw [Nat.sub_self, Nat.pow_zero, Nat.mul_one], le_rfl⟩
    exact dropUncertain_dropPlaces_near few le full (by exact_mod_cast two) low high

end

/-- The digits of a number that is next to a decimal: those of the decimal, without zeros at their
end. -/
theorem exists_digitsOf_near {significand down n places : ℕ} (steps : down ≤ 1074)
    (few : n < 2 ^ 52) (le : places ≤ maxPlaces) (full : places = maxPlaces ∨ 2 ^ 52 ≤ 10 * n)
    (two : 2 ≤ n) (low : (n : ℚ) - n / 2 ^ 53 ≤ significand / 2 ^ down * 10 ^ places)
    (high : (significand : ℚ) / 2 ^ down * 10 ^ places < n + 4 / 9) :
    ∃ m k, digitsOf down significand = (m, k) ∧ m * 10 ^ (places - k) = n ∧ k ≤ places ∧
      (k = 0 ∨ m % 10 ≠ 0) := by
  obtain ⟨digits, h, p, halved, sum, least, most⟩ := exists_halve down significand 0
  rw [Nat.zero_add] at halved
  have count : down - h = p := by omega
  have nonneg : (0 : ℚ) ≤ n := Nat.cast_nonneg n
  have low := calc
    (n : ℚ) - n * (1 / 2 ^ 53 + 1 / 2 ^ 82) ≤ (n - n / 2 ^ 53) * (1 - 1 / 2 ^ 82) := by linarith
    _ ≤ (significand : ℚ) / 2 ^ down * 10 ^ places * (1 - 1 / 2 ^ 93) ^ down :=
        mul_le_mul low (one_sub_le_pow steps) (by norm_num) (by positivity)
    _ = (significand : ℚ) / 2 ^ down * (1 - 1 / 2 ^ 93) ^ down * 10 ^ places := by ring
    _ ≤ (digits : ℚ) / 10 ^ p * 10 ^ places := by gcongr
  have high := (mul_le_mul_of_nonneg_right most (by positivity)).trans_lt high
  obtain ⟨certain, q, dropped, value, shorter⟩ := exists_dropUncertain few le full two low high
  obtain ⟨m, k, zeros, same, le', last⟩ := exists_dropZeros certain q
  refine ⟨m, k, ?_, ?_, le'.trans shorter, last⟩
  · simp only [digitsOf, halved, count, dropped, zeros]
  · rw [← value, ← same, Nat.mul_assoc, ← Nat.pow_add]
    congr 2
    omega

end QueryForms.Decimal
