import Mathlib.Algebra.Field.Rat
import Mathlib.Data.Rat.Cast.Defs
import Mathlib.Tactic.NormNum.Basic
import QueryForms.Arithmetic

/-!
# Arithmetic on integers

The four operators on rational numbers say what the exact result is (`ArithmeticOp.IsExact`).
`applyArithmetic_integers`: on integers every outcome has its own condition. An exact result that is
an integer value is given as it is, a division by zero is an error, and anything else is a float,
except that one quotient stops the program: that of the least integer by minus one, which is one
more than the greatest.
-/

namespace QueryForms

namespace ArithmeticOp

/-- The operator on rational numbers. -/
def onRationals : ArithmeticOp → ℚ → ℚ → ℚ
  | add, x, y => x + y
  | subtract, x, y => x - y
  | multiply, x, y => x * y
  | divide, x, y => x / y

/-- A whole number is the exact result on whole numbers. A division by zero has no result. -/
def IsExact (op : ArithmeticOp) (a b r : Int) : Prop :=
  ¬(op = divide ∧ b = 0) ∧ op.onRationals a b = r

variable {op : ArithmeticOp} {a b r s : Int}

theorem isExact_divide_iff : IsExact divide a b r ↔ b ≠ 0 ∧ a = r * b := by
  rw [IsExact, and_iff_right rfl]
  refine and_congr_right fun nonzero => ?_
  have rational : (b : ℚ) ≠ 0 := Int.cast_ne_zero.2 nonzero
  rw [onRationals, div_eq_iff rational, ← Int.cast_mul, Int.cast_inj]

theorem IsExact.unique (hr : op.IsExact a b r) (hs : op.IsExact a b s) : r = s :=
  Int.cast_inj.1 (hr.2.symm.trans hs.2)

/-- The result that is computed on whole numbers is the exact one, and where there is one it is
found. -/
theorem onInts?_eq_some_iff : op.onInts? a b = some r ↔ op.IsExact a b r := by
  cases op with
  | divide =>
    rw [isExact_divide_iff, onInts?]
    constructor
    · intro h
      split at h
      · next even =>
        rw [← Option.some.inj h]
        exact ⟨even.1, (Int.ediv_mul_cancel_of_emod_eq_zero even.2).symm⟩
      · cases h
    · rintro ⟨nonzero, rfl⟩
      rw [if_pos ⟨nonzero, Int.mul_emod_left r b⟩, Int.mul_ediv_cancel r nonzero]
  | add | subtract | multiply =>
    simp only [onInts?, Option.some.injEq, IsExact, onRationals, reduceCtorEq, false_and,
      not_false_eq_true, true_and]
    norm_cast

/-- An exact result is given if it is an integer value. -/
theorem fit?_onInts?_eq_some_iff {n : Int64} :
    (op.onInts? a b).bind fit? = some n ↔ op.IsExact a b n.toInt := by
  rw [Option.bind_eq_some_iff]
  constructor
  · rintro ⟨exact, found, fits⟩
    rw [fit?_eq_some_iff.1 fits]
    exact onInts?_eq_some_iff.1 found
  · intro h
    exact ⟨n.toInt, onInts?_eq_some_iff.2 h, fit?_eq_some_iff.2 rfl⟩

/-- The quotient of the least integer by minus one is no integer value. -/
theorem not_isExact_beyond (n : Int64) : ¬IsExact divide leastInt (-1) n.toInt := by
  intro h
  have negated : leastInt = n.toInt * -1 := (isExact_divide_iff.1 h).2
  have greatest : n.toInt ≤ greatestInt := Int64.toInt_le n
  have ends : leastInt = -greatestInt - 1 := by decide
  omega

end ArithmeticOp

/-- There are four outcomes of an operator on integers. -/
theorem integerArithmetic_cases (op : ArithmeticOp) (a b : Int64) :
    (op = .divide ∧ b.toInt = 0) ∧ integerArithmetic op a b = .error .divisionByZero ∨
      (op = .divide ∧ a.toInt = leastInt ∧ b.toInt = -1) ∧
        integerArithmetic op a b = .error .quotientOverflow ∨
      (∃ n : Int64, op.IsExact a.toInt b.toInt n.toInt ∧
        integerArithmetic op a b = .ok (.integer n)) ∨
      (¬(op = .divide ∧ b.toInt = 0) ∧ ¬(op = .divide ∧ a.toInt = leastInt ∧ b.toInt = -1) ∧
        ∀ n : Int64, ¬op.IsExact a.toInt b.toInt n.toInt) ∧
        integerArithmetic op a b
          = .ok (.float (op.onFloats (floatOfInt64 a) (floatOfInt64 b))) := by
  rw [integerArithmetic]
  by_cases byZero : op = .divide ∧ b.toInt = 0
  · exact .inl ⟨byZero, if_pos byZero⟩
  by_cases beyond : op = .divide ∧ a.toInt = leastInt ∧ b.toInt = -1
  · exact .inr (.inl ⟨beyond, by rw [if_neg byZero, if_pos beyond]⟩)
  rw [if_neg byZero, if_neg beyond]
  cases fits : (op.onInts? a.toInt b.toInt).bind fit? with
  | some n => exact .inr (.inr (.inl ⟨n, ArithmeticOp.fit?_onInts?_eq_some_iff.1 fits, rfl⟩))
  | none =>
    refine .inr (.inr (.inr ⟨⟨byZero, beyond, fun n exact => ?_⟩, rfl⟩))
    rw [ArithmeticOp.fit?_onInts?_eq_some_iff.2 exact] at fits
    cases fits

/-- An exact result that is an integer value is given. -/
theorem applyArithmetic_of_isExact {op : ArithmeticOp} {a b n : Int64}
    (exact : op.IsExact a.toInt b.toInt n.toInt) :
    applyArithmetic op (.integer a) (.integer b) = .ok (.integer n) := by
  show integerArithmetic op a b = _
  rcases integerArithmetic_cases op a b with ⟨byZero, -⟩ | ⟨⟨rfl, least, minus⟩, -⟩
    | ⟨m, other, outcome⟩ | ⟨⟨-, -, inexact⟩, -⟩
  · exact absurd byZero exact.1
  · rw [least, minus] at exact
    exact absurd exact (ArithmeticOp.not_isExact_beyond n)
  · rw [outcome, Int64.toInt_inj.1 (exact.unique other)]
  · exact absurd exact (inexact n)

/-- On two integers an operator gives the exact result if that is an integer value. A division by
zero is an error, the quotient of the least integer by minus one stops the program, and everything
else is the float of the operands. -/
theorem applyArithmetic_integers (op : ArithmeticOp) (a b : Int64) :
    reduce op [.integer a, .integer b] = applyArithmetic op (.integer a) (.integer b) ∧
      (applyArithmetic op (.integer a) (.integer b) = .error .divisionByZero
        ↔ op = .divide ∧ b.toInt = 0) ∧
      (applyArithmetic op (.integer a) (.integer b) = .error .quotientOverflow
        ↔ op = .divide ∧ a.toInt = leastInt ∧ b.toInt = -1) ∧
      (∀ n : Int64, applyArithmetic op (.integer a) (.integer b) = .ok (.integer n)
        ↔ op.IsExact a.toInt b.toInt n.toInt) ∧
      ∀ x : Float, applyArithmetic op (.integer a) (.integer b) = .ok (.float x)
        ↔ x = op.onFloats (floatOfInt64 a) (floatOfInt64 b) ∧
          ¬(op = .divide ∧ b.toInt = 0) ∧
          ¬(op = .divide ∧ a.toInt = leastInt ∧ b.toInt = -1) ∧
          ∀ n : Int64, ¬op.IsExact a.toInt b.toInt n.toInt := by
  have applied : applyArithmetic op (.integer a) (.integer b) = integerArithmetic op a b := rfl
  have folded : reduce op [.integer a, .integer b] = integerArithmetic op a b := by
    have spreads : spreadAll [.integer a, .integer b] = [.integer a, .integer b] := rfl
    simp only [reduce.eq_def, spreads]
    exact bind_pure _
  have notBeyond : ∀ n : Int64, op.IsExact a.toInt b.toInt n.toInt →
      ¬(op = .divide ∧ a.toInt = leastInt ∧ b.toInt = -1) := by
    rintro n exact ⟨rfl, least, minus⟩
    rw [least, minus] at exact
    exact ArithmeticOp.not_isExact_beyond n exact
  rw [applied]
  refine ⟨folded, ?_⟩
  -- each case has its own outcome, and its condition excludes those of the others
  rcases integerArithmetic_cases op a b with ⟨byZero, outcome⟩ | ⟨beyond, outcome⟩
    | ⟨n, exact, outcome⟩ | ⟨⟨notZero, within, inexact⟩, outcome⟩ <;> rw [outcome]
  · have apart : ¬(op = .divide ∧ a.toInt = leastInt ∧ b.toInt = -1) := by
      rintro ⟨-, -, minus⟩
      exact absurd (byZero.2.symm.trans minus) (by decide)
    exact ⟨iff_of_true rfl byZero, iff_of_false nofun apart,
      fun n => iff_of_false nofun fun exact => exact.1 byZero,
      fun x => iff_of_false nofun fun float => float.2.1 byZero⟩
  · have apart : ¬(op = .divide ∧ b.toInt = 0) := by
      rintro ⟨-, zero⟩
      exact absurd (zero.symm.trans beyond.2.2) (by decide)
    exact ⟨iff_of_false nofun apart, iff_of_true rfl beyond,
      fun n => iff_of_false nofun fun exact => notBeyond n exact beyond,
      fun x => iff_of_false nofun fun float => float.2.2.1 beyond⟩
  · refine ⟨iff_of_false nofun exact.1, iff_of_false nofun (notBeyond n exact), fun m => ⟨?_, ?_⟩,
      fun x => iff_of_false nofun fun float => float.2.2.2 n exact⟩
    · rintro ⟨⟩
      exact exact
    · intro other
      rw [Int64.toInt_inj.1 (exact.unique other)]
  · refine ⟨iff_of_false nofun notZero, iff_of_false nofun within,
      fun n => iff_of_false nofun (inexact n), fun x => ⟨?_, ?_⟩⟩
    · rintro ⟨⟩
      exact ⟨rfl, notZero, within, inexact⟩
    · rintro ⟨rfl, -⟩
      rfl

/-- The quotient of the least integer by minus one is no integer value, and stops the program. -/
theorem quotient_beyond_integers :
    applyArithmetic .divide (.integer Int64.minValue) (.integer (-1)) = .error .quotientOverflow ∧
      ArithmeticOp.IsExact .divide Int64.minValue.toInt (-1) (greatestInt + 1) ∧
      ∀ n : Int64, ¬ArithmeticOp.IsExact .divide Int64.minValue.toInt (-1) n.toInt :=
  ⟨rfl, ArithmeticOp.isExact_divide_iff.2 (by decide), ArithmeticOp.not_isExact_beyond⟩

end QueryForms
