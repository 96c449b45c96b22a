import Mathlib.Algebra.Order.Ring.Nat
import QueryForms.Number.Scientific

/-!
# Numbers in digits

The number that digits spell is put together from the places of the digits, so it lies below the power
of ten with as many places, and is at least the power below if no zero is in front. Of two numbers the
higher places decide the order.
-/

namespace QueryForms

theorem toNat_of_isDigit {c : Char} (h : c.isDigit = true) : 48 ≤ c.toNat ∧ c.toNat ≤ 57 :=
  Char.isDigit_iff_toNat.1 h

theorem digitsValue_eq_ofDigitChars (digits : List Char) :
    digitsValue digits = Nat.ofDigitChars 10 digits 0 := by
  have step : appendDigit = fun value digit => 10 * value + (digit.toNat - '0'.toNat) := by
    funext value digit
    rw [appendDigit, Nat.mul_comm]
  rw [digitsValue, step, ← Nat.ofDigitChars_eq_foldl]

/-- The digits of a number spell it. -/
theorem digitsValue_toDigits (n : Nat) : digitsValue (Nat.toDigits 10 n) = n := by
  rw [digitsValue_eq_ofDigitChars, Nat.ofDigitChars_ten_toDigits]

theorem digitsValue_cons (c : Char) (cs : List Char) :
    digitsValue (c :: cs) = (c.toNat - '0'.toNat) * 10 ^ cs.length + digitsValue cs := by
  rw [digitsValue_eq_ofDigitChars, Nat.ofDigitChars_cons, Nat.ofDigitChars_eq_ofDigitChars_zero,
    ← digitsValue_eq_ofDigitChars, Nat.mul_zero, Nat.zero_add, Nat.mul_comm]

/-- Digits spell a number of no more places than they are. -/
theorem digitsValue_lt {digits : List Char} (h : ∀ c ∈ digits, c.isDigit = true) :
    digitsValue digits < 10 ^ digits.length := by
  induction digits with
  | nil => exact Nat.one_pos
  | cons c cs ih =>
    obtain ⟨digit, h⟩ := List.forall_mem_cons.1 h
    have place : c.toNat - '0'.toNat ≤ 9 := Nat.sub_le_sub_right (toNat_of_isDigit digit).2 48
    calc digitsValue (c :: cs)
        = (c.toNat - '0'.toNat) * 10 ^ cs.length + digitsValue cs := digitsValue_cons c cs
      _ < 9 * 10 ^ cs.length + 10 ^ cs.length :=
        Nat.add_lt_add_of_le_of_lt (Nat.mul_le_mul_right _ place) (ih h)
      _ = 10 ^ (cs.length + 1) := by rw [Nat.pow_succ]; omega

/-- A digit other than zero in front gives a number all the places of its digits. -/
theorem le_digitsValue_of_front {c : Char} {cs : List Char} (digit : c.isDigit = true)
    (nonzero : c ≠ '0') : 10 ^ cs.length ≤ digitsValue (c :: cs) := by
  have place : 1 ≤ c.toNat - '0'.toNat := by
    have low := (Char.isDigit_iff_toNat.1 digit).1
    have other : c.toNat ≠ '0'.toNat := fun same => nonzero (Char.toNat_inj.1 same)
    omega
  rw [digitsValue_cons]
  exact Nat.le_add_right_of_le (Nat.le_mul_of_pos_left _ place)

/-- Numbers are compared by their higher places first. -/
theorem compare_places {x y u v base : Nat} (hu : u < base) (hv : v < base) :
    compare (x * base + u) (y * base + v) = (compare x y).then (compare u v) := by
  have higher : ∀ {x y u v : Nat}, u < base → x < y → x * base + u < y * base + v :=
    fun {x y u v} hu less => calc
      x * base + u < x * base + base := Nat.add_lt_add_left hu _
      _ = (x + 1) * base := (Nat.succ_mul x base).symm
      _ ≤ y * base := Nat.mul_le_mul_right base less
      _ ≤ y * base + v := Nat.le_add_right _ _
  rcases Nat.lt_trichotomy x y with less | rfl | greater
  · rw [Nat.compare_eq_lt.2 (higher hu less), Nat.compare_eq_lt.2 less]
    rfl
  · rw [Nat.compare_eq_eq.2 (rfl : x = x), Ordering.eq_then]
    simp only [Nat.compare_eq_ite_lt, Nat.add_lt_add_iff_left]
  · rw [Nat.compare_eq_gt.2 (higher hv greater), Nat.compare_eq_gt.2 greater]
    rfl

end QueryForms
