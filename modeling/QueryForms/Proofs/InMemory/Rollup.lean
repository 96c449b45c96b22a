import Mathlib.Algebra.Order.BigOperators.Group.List
import Mathlib.Data.List.ReduceOption
import QueryForms.Proofs.InMemory.Windows
import QueryForms.Proofs.Totals

/-!
# Rolling up

The aggregates that count, add up or choose among integers have the same value on a whole source as
on the values that they have on its groups: counts and sums are added up, and of the least or the
greatest numbers the least or the greatest is chosen (`InMemory.rollup_of_groups`). Groups without
numbers do not take part. This rests on two facts about what numbers are combined to: their order
does not matter (`Aggregate.combined_perm`), and parts may be combined first
(`Aggregate.combined_flatten`).
-/

namespace QueryForms

open Interpretation (evaluateAll)

/-- An integer as a value; null without one. -/
def Value.ofNumber : Option Int64 → Value
  | some n => .integer n
  | none => .null

namespace Aggregate

/-! ## Combining numbers -/

/-- Numbers combined from left to right; nothing without numbers. -/
def folded (combine : Int → Int → Int) : List Int → Option Int
  | [] => none
  | first :: rest => some (rest.foldl combine first)

section

variable {combine : Int → Int → Int} [Std.Associative combine]

theorem folded_cons (n : Int) (ns : List Int) :
    folded combine (n :: ns) = Option.merge combine (some n) (folded combine ns) := by
  cases ns with
  | nil => rfl
  | cons m ns => exact congrArg some List.foldl_assoc

theorem folded_append (ns ms : List Int) :
    folded combine (ns ++ ms) = Option.merge combine (folded combine ns) (folded combine ms) := by
  induction ns with
  | nil =>
    rw [List.nil_append]
    cases folded combine ms <;> rfl
  | cons n ns ih =>
    rw [List.cons_append, folded_cons, ih, folded_cons]
    exact (Std.Associative.assoc (some n) (folded combine ns) (folded combine ms)).symm

theorem folded_flatten (parts : List (List Int)) :
    folded combine parts.flatten = folded combine (parts.map (folded combine)).reduceOption := by
  induction parts with
  | nil => rfl
  | cons part rest ih =>
    rw [List.flatten_cons, folded_append, ih, List.map_cons]
    cases folded combine part with
    | none =>
      rw [List.reduceOption_cons_of_none]
      cases folded combine _ <;> rfl
    | some n => rw [List.reduceOption_cons_of_some, folded_cons]

theorem folded_perm [Std.Commutative combine] {ns ms : List Int} (perm : ns.Perm ms) :
    folded combine ns = folded combine ms := by
  induction perm with
  | nil => rfl
  | cons n _ ih => rw [folded_cons, folded_cons, ih]
  | swap m n ns =>
    have assoc := (Option.associative_merge combine).assoc
    have comm := (Option.commutative_merge combine).comm
    rw [folded_cons, folded_cons, folded_cons, folded_cons, ← assoc, ← assoc, comm (some n)]
  | trans _ _ first second => exact first.trans second

end

/-- What an aggregate makes of numbers. -/
def combined : Operator → List Int → Option Int
  | .count, ns => some ns.sum
  | .sum, ns => if ns.isEmpty then none else some ns.sum
  | .min, ns => ns.min?
  | .max, ns => ns.max?
  | _, _ => none

theorem combined_sum : combined .sum = folded (· + ·) := by
  funext ns
  cases ns with
  | nil => rfl
  | cons n ns =>
    show some (n :: ns).sum = some (ns.foldl (· + ·) n)
    rw [List.sum_eq_foldl, List.foldl_cons, Int.zero_add]

theorem combined_min : combined .min = folded min := by
  funext ns
  cases ns <;> rfl

theorem combined_max : combined .max = folded max := by
  funext ns
  cases ns <;> rfl

/-- The order of numbers does not matter. -/
theorem combined_perm (op : Operator) {ns ms : List Int} (perm : ns.Perm ms) :
    combined op ns = combined op ms := by
  cases op
  case count => exact congrArg some perm.sum_eq
  case sum => rw [combined_sum, folded_perm perm]
  case min => rw [combined_min, folded_perm perm]
  case max => rw [combined_max, folded_perm perm]
  all_goals rfl

/-- Parts may be combined first. -/
theorem combined_flatten (op : Operator) (parts : List (List Int)) :
    combined op parts.flatten = combined op (parts.map (combined op)).reduceOption := by
  cases op
  case count =>
    have counts : (parts.map (combined .count)).reduceOption = parts.map List.sum := by
      show (parts.map fun part => some part.sum).reduceOption = parts.map List.sum
      rw [List.reduceOption, List.filterMap_map]
      exact congrFun List.filterMap_eq_map parts
    rw [counts, combined, combined, List.sum_flatten]
  case sum => rw [combined_sum, folded_flatten]
  case min => rw [combined_min, folded_flatten]
  case max => rw [combined_max, folded_flatten]
  all_goals rfl

/-- The sum of the magnitudes of numbers. -/
def magnitude (ns : List Int) : Nat :=
  (ns.map Int.natAbs).sum

theorem magnitude_cons (n : Int) (ns : List Int) :
    magnitude (n :: ns) = n.natAbs + magnitude ns :=
  rfl

/-- Some of the numbers, in any order, have no greater magnitudes. -/
theorem magnitude_le_of_subperm {ns ms : List Int} (some : ns.Subperm ms) :
    magnitude ns ≤ magnitude ms := by
  obtain ⟨part, perm, sublist⟩ := some
  rw [magnitude, ← (perm.map Int.natAbs).sum_eq]
  exact (sublist.map Int.natAbs).sum_le_sum fun _ _ => Nat.zero_le _

theorem natAbs_sum_le (ns : List Int) : ns.sum.natAbs ≤ magnitude ns := by
  induction ns with
  | nil => exact Nat.le_refl _
  | cons n ns ih =>
    rw [List.sum_cons, magnitude_cons]
    exact (Int.natAbs_add_le ..).trans (Nat.add_le_add_left ih _)

/-- Running totals are in range if the sum of the magnitudes is. -/
theorem runsInRange_of_magnitude {ns : List Int} (within : (magnitude ns : Int) ≤ greatestInt) :
    RunsInRange ns := by
  intro part inside
  have less := (natAbs_sum_le part).trans (magnitude_le_of_subperm inside.sublist.subperm)
  have least : leastInt = -greatestInt - 1 := by decide
  exact ⟨by omega, by omega⟩

/-- What numbers are combined to is not beyond the sum of their magnitudes. -/
theorem natAbs_combined_le {op : Operator} {ns : List Int} {n : Int} (h : combined op ns = some n) :
    n.natAbs ≤ magnitude ns := by
  have among : n ∈ ns → n.natAbs ≤ magnitude ns := fun inside =>
    List.single_le_sum (fun _ _ => Nat.zero_le _) _ (List.mem_map_of_mem inside)
  cases op <;> simp only [combined, Option.some.injEq, reduceCtorEq] at h
  case count => exact h ▸ natAbs_sum_le ns
  case sum =>
    split at h
    · cases h
    · exact Option.some.inj h ▸ natAbs_sum_le ns
  case min => exact among (List.min?_mem h)
  case max => exact among (List.max?_mem h)

/-! ## Aggregates of numbers -/

section

variable {eval : Evaluator} {env : Environment} {e : Expr} {number : Row → Option Int64}

/-- A number within the range of integers is one. -/
theorem toInt_ofInt {n : Int} (within : (n.natAbs : Int) ≤ greatestInt) :
    (Int64.ofInt n).toInt = n := by
  have greatest : greatestInt = 2 ^ 63 - 1 := rfl
  exact Int64.toInt_ofInt_of_le (by omega) (by omega)

theorem filter_ofNumber (rows : List Row) :
    (rows.map fun row => Value.ofNumber (number row)).filter (fun v => !v.isNull)
      = (rows.filterMap number).map .integer := by
  induction rows with
  | nil => rfl
  | cons row rest ih =>
    rw [List.map_cons, List.filter_cons, ih, List.filterMap_cons]
    cases number row <;> rfl

/-- The values of an operand that is a number or null on every member are the numbers. -/
theorem memberValues_of_numbers
    (numbered : ∀ row ∈ members env, eval e (env.surround row) = .ok (.ofNumber (number row))) :
    memberValues eval e env = .ok (((members env).filterMap number).map .integer) := by
  simp only [memberValues, bind, Except.bind, mapM_eq_ok numbered, pure, Except.pure,
    filter_ofNumber]

/-- The sum of integers, some of them missing, is exact if all running totals are in range. -/
theorem sum_of_running
    (numbered : ∀ row ∈ members env, eval e (env.surround row) = .ok (.ofNumber (number row)))
    (filled : (members env).filterMap number ≠ [])
    (within : RunsInRange (((members env).filterMap number).map Int64.toInt)) :
    ∃ n : Int64, n.toInt = (((members env).filterMap number).map Int64.toInt).sum ∧
      sum eval [e] env = .ok (.integer n) := by
  obtain ⟨n, total, reduced⟩ := reduce_add_of_nested filled within (nested_integers _)
  refine ⟨n, total, ?_⟩
  simp only [sum, oneOperand, bind, Except.bind, memberValues_of_numbers numbered, reduced,
    List.isEmpty_map, List.isEmpty_eq_false_iff.2 filled, Bool.false_eq_true, if_false]

theorem sum_of_numbers
    (numbered : ∀ row ∈ members env, eval e (env.surround row) = .ok (.ofNumber (number row)))
    (within : (magnitude (((members env).filterMap number).map Int64.toInt) : Int)
      ≤ greatestInt) :
    sum eval [e] env = .ok (.ofNumber
      ((combined .sum (((members env).filterMap number).map Int64.toInt)).map Int64.ofInt)) := by
  by_cases filled : (members env).filterMap number = []
  · simp only [sum, oneOperand, bind, Except.bind, memberValues_of_numbers numbered, filled]
    rfl
  · obtain ⟨n, total, summed⟩ := sum_of_running numbered filled (runsInRange_of_magnitude within)
    have empty : (((members env).filterMap number).map Int64.toInt).isEmpty = false :=
      List.isEmpty_eq_false_iff.2 (mt List.map_eq_nil_iff.1 filled)
    rw [summed, combined, empty, ← total]
    exact congrArg (Except.ok ∘ Value.integer) (Int64.ofInt_toInt n).symm

theorem toInt_lesser (best n : Int64) :
    (if (compare n.toInt best.toInt).isLT then n else best).toInt = min best.toInt n.toInt := by
  split
  · next less =>
    have := Int.compare_eq_lt.1 (Ordering.isLT_iff_eq_lt.1 less)
    omega
  · next other =>
    have := mt (Ordering.isLT_iff_eq_lt.2 ∘ Int.compare_eq_lt.2) other
    omega

theorem toInt_greater (best n : Int64) :
    (if (compare n.toInt best.toInt).isGT then n else best).toInt = max best.toInt n.toInt := by
  split
  · next greater =>
    have := Int.compare_eq_gt.1 (Ordering.isGT_iff_eq_gt.1 greater)
    omega
  · next other =>
    have := mt (Ordering.isGT_iff_eq_gt.2 ∘ Int.compare_eq_gt.2) other
    omega

/-- An integer is preferred, or the best one so far stays. -/
theorem foldlM_better {accepted : Ordering → Bool} {combine : Int → Int → Int}
    (chosen : ∀ best n : Int64, (if accepted (compare n.toInt best.toInt) then n else best).toInt
      = combine best.toInt n.toInt) (start : Int64) (ns : List Int64) :
    (ns.map Value.integer).foldlM (better accepted) (.integer start)
      = .ok (.integer (Int64.ofInt ((ns.map Int64.toInt).foldl combine start.toInt))) := by
  induction ns generalizing start with
  | nil => exact congrArg (Except.ok ∘ Value.integer) (Int64.ofInt_toInt start).symm
  | cons n ns ih =>
    have kept : better accepted (.integer start) (.integer n) = .ok (.integer
        (if accepted (compare n.toInt start.toInt) then n else start)) := by
      show Except.ok (if accepted (compare n.toInt start.toInt) then Value.integer n
        else .integer start) = _
      split <;> rfl
    rw [List.map_cons, List.foldlM_cons, kept, List.map_cons, List.foldl_cons, ← chosen]
    exact ih _

theorem extreme_of_numbers (op : String) {accepted : Ordering → Bool} {combine : Int → Int → Int}
    (chosen : ∀ best n : Int64, (if accepted (compare n.toInt best.toInt) then n else best).toInt
      = combine best.toInt n.toInt)
    (numbered : ∀ row ∈ members env, eval e (env.surround row) = .ok (.ofNumber (number row))) :
    extreme op accepted eval [e] env = .ok (.ofNumber
      ((folded combine (((members env).filterMap number).map Int64.toInt)).map Int64.ofInt)) := by
  simp only [extreme, oneOperand, bind, Except.bind, memberValues_of_numbers numbered]
  cases (members env).filterMap number with
  | nil => rfl
  | cons n ns => exact foldlM_better chosen n ns

/-- One for a row with a value, nothing for any other. -/
def presence (value : Row → Value) (row : Row) : Int :=
  if (value row).isNull then 0 else 1

theorem sum_presence (value : Row → Value) (rows : List Row) :
    (rows.map (presence value)).sum = ((rows.map value).filter fun v => !v.isNull).length := by
  induction rows with
  | nil => rfl
  | cons row rest ih =>
    rw [List.map_cons, List.sum_cons, ih, List.map_cons, List.filter_cons, presence]
    cases (value row).isNull
    · simp [Int.add_comm]
    · simp

theorem count_of_values {value : Row → Value}
    (valued : ∀ row ∈ members env, eval (if e.asName? = some "*" then .symbol ":id" else e)
      (env.surround row) = .ok (value row)) :
    count eval [e] env = .ok (.ofNumber
      ((combined .count ((members env).map (presence value))).map Int64.ofInt)) := by
  simp only [count, oneOperand, bind, Except.bind, memberValues, mapM_eq_ok valued, pure,
    Except.pure, combined, sum_presence, Option.map_some, Value.ofNumber,
    PlainOperators.lengthValue, Int64.ofInt_eq_ofNat]

end

/-! ## Parts of rows -/

/-- What a row adds to an aggregate: one for a value that is counted, or its number. -/
def share (op : Operator) (value : Row → Value) (number : Row → Option Int64) (row : Row) :
    Option Int :=
  if op = .count then some (presence value row) else (number row).map Int64.toInt

section

variable {op : Operator} {value : Row → Value} {number : Row → Option Int64} {rows : List Row}

theorem filterMap_share_count (value : Row → Value) (number : Row → Option Int64)
    (rows : List Row) :
    rows.filterMap (share .count value number) = rows.map (presence value) :=
  congrFun List.filterMap_eq_map rows

theorem filterMap_share (other : op ≠ .count) (value : Row → Value) (number : Row → Option Int64)
    (rows : List Row) :
    rows.filterMap (share op value number) = (rows.filterMap number).map Int64.toInt := by
  rw [List.map_filterMap]
  exact List.filterMap_congr fun row _ => if_neg other

/-- Some of the rows add no greater magnitudes. -/
theorem magnitude_filterMap_le (shares : Row → Option Int) {part : List Row}
    (some : part.Subperm rows) :
    magnitude (part.filterMap shares) ≤ magnitude (rows.filterMap shares) := by
  obtain ⟨ordered, perm, sublist⟩ := some
  exact magnitude_le_of_subperm ⟨_, perm.filterMap shares, sublist.filterMap shares⟩

/-- What the rows are combined to is what their parts are, combined. -/
theorem combined_of_parts (shares : Row → Option Int) {parts : List (List Row)}
    (perm : parts.flatten.Perm rows) :
    combined op (rows.filterMap shares)
      = combined op (parts.map fun part => combined op (part.filterMap shares)).reduceOption := by
  rw [← combined_perm op (perm.filterMap shares), List.filterMap_flatten, combined_flatten,
    List.map_map]
  rfl

/-- What is combined is exact where the sum of the magnitudes is in range. -/
theorem toInt_combined {ns : List Int} (within : (magnitude ns : Int) ≤ greatestInt) :
    ((combined op ns).map Int64.ofInt).map Int64.toInt = combined op ns := by
  cases whole : combined op ns with
  | none => rfl
  | some n =>
    have le := natAbs_combined_le whole
    exact congrArg some (toInt_ofInt (by omega))

theorem magnitude_presence_le (value : Row → Value) (rows : List Row) :
    magnitude (rows.map (presence value)) ≤ rows.length := by
  induction rows with
  | nil => exact Nat.le_refl _
  | cons row rest ih =>
    have one : (presence value row).natAbs ≤ 1 := by
      rw [presence]
      split <;> decide
    rw [List.map_cons, magnitude_cons, List.length_cons]
    omega

/-- The integers that parts of the rows are combined to. -/
def integersOf (op : Operator) (shares : Row → Option Int) (parts : List (List Row)) :
    List (Option Int64) :=
  parts.map fun part => (combined op (part.filterMap shares)).map Int64.ofInt

theorem reduceOption_integersOf (op : Operator) (shares : Row → Option Int)
    (parts : List (List Row)) :
    (integersOf op shares parts).reduceOption
      = (parts.map fun part => combined op (part.filterMap shares)).reduceOption.map
          Int64.ofInt := by
  rw [← List.reduceOption_map, List.map_map]
  rfl

/-- The integer of all rows is what the integers of their parts are combined to, if the sum of the
magnitudes is in range. -/
theorem toInt_combined_of_parts {shares : Row → Option Int} {parts : List (List Row)}
    (perm : parts.flatten.Perm rows)
    (within : (magnitude (rows.filterMap shares) : Int) ≤ greatestInt) :
    ((combined op (rows.filterMap shares)).map Int64.ofInt).map Int64.toInt
      = combined op ((integersOf op shares parts).reduceOption.map Int64.toInt) := by
  have exact : ∀ n ∈ (parts.map fun part => combined op (part.filterMap shares)).reduceOption,
      (Int64.ofInt n).toInt = n := fun n hn => by
    obtain ⟨part, hp, whole⟩ := List.mem_map.1 (List.reduceOption_mem_iff.1 hn)
    have le := natAbs_combined_le whole
    have inside := magnitude_filterMap_le shares
      ((List.sublist_flatten_of_mem hp).subperm.trans perm.subperm)
    exact toInt_ofInt (by omega)
  rw [toInt_combined within, combined_of_parts shares perm, reduceOption_integersOf, List.map_map]
  exact congrArg (combined op) ((List.map_congr_left exact).trans (List.map_id _)).symm

/-- Counts that are taken modulo the range of integers add up to the count of all, modulo it. -/
theorem count_of_parts (shares : Row → Option Int) {parts : List (List Row)}
    (perm : parts.flatten.Perm rows) :
    (combined .count (rows.filterMap shares)).map Int64.ofInt
      = (combined .count ((integersOf .count shares parts).reduceOption.map Int64.toInt)).map
          Int64.ofInt := by
  have modulo : ∀ ns : List Int,
      Int64.ofInt ((ns.map Int64.ofInt).map Int64.toInt).sum = Int64.ofInt ns.sum := fun ns => by
    induction ns with
    | nil => rfl
    | cons n ns ih =>
      rw [List.map_cons, List.map_cons, List.sum_cons, List.sum_cons, Int64.ofInt_add,
        Int64.ofInt_add, Int64.ofInt_toInt, ih]
  rw [combined_of_parts shares perm, reduceOption_integersOf]
  exact congrArg some (modulo _).symm

section

variable {parts : List (List Row)} (perm : parts.flatten.Perm rows)
  (within : (magnitude ((rows.filterMap number).map Int64.toInt) : Int) ≤ greatestInt)

include perm within

/-- An aggregate of all rows is what those of their parts are combined to. For counts there are to be
no more rows than integers. -/
theorem toInt_rolled (short : op ≠ .count ∨ rows.length ≤ greatestInt) :
    ((combined op (rows.filterMap (share op value number))).map Int64.ofInt).map Int64.toInt
      = combined op ((integersOf op (share op value number) parts).reduceOption.map
          Int64.toInt) := by
  refine toInt_combined_of_parts perm ?_
  by_cases counts : op = .count
  · subst counts
    rw [filterMap_share_count]
    have := magnitude_presence_le value rows
    have := short.resolve_left (· rfl)
    omega
  · rwa [filterMap_share counts]

/-- As machine integers they are the same for any number of rows. -/
theorem ofInt_rolled :
    (combined op (rows.filterMap (share op value number))).map Int64.ofInt
      = (combined op ((integersOf op (share op value number) parts).reduceOption.map
          Int64.toInt)).map Int64.ofInt := by
  by_cases counts : op = .count
  · subst counts
    exact count_of_parts _ perm
  · rw [← toInt_rolled perm within (.inl counts), Option.map_map]
    cases combined op _ with
    | none => rfl
    | some n => exact congrArg some (Int64.ofInt_toInt _).symm

end

end

end Aggregate

namespace Relation

/-- A projection of an aggregate shows rows whose members are the rows that were grouped. -/
theorem flatten_members_shown {name : String} {e : Expr} (combines : e.isAggregated = true)
    (names : List String) (key : Row → List Value) (rows : List Row) :
    ((selectedRows [.list [.symbol "$as", .symbol name, e]] (groupsOf names key rows)).map
      Row.members).flatten.Perm rows := by
  have gathered : ((groupsOf names key rows).map Row.members).flatten.Perm rows :=
    members_groupsOf names key rows ▸ (gathered_gatherBy _ rows).perm
  rw [selectedRows_named, combines, Bool.true_and]
  cases groups : groupsOf names key rows with
  | nil =>
    -- there are no rows, and the one that is shown has no members
    rw [groups] at gathered
    exact gathered
  | cons group rest =>
    have inside : group ∈ groupsOf names key rows := groups ▸ List.mem_cons_self
    have grouped : group.isGrouped = true := isGrouped_of_mem_groupsOf inside
    rw [groups] at gathered
    rw [List.any_cons, grouped, Bool.true_or, Bool.not_true]
    exact gathered

end Relation

/-! ## Queries -/

namespace InMemory

open Aggregate

section

variable {env : Environment} {op : Operator} {f source keyList : Expr} {rows : List Row}
  {key : Row → List Value} {value : Row → Value} {number : Row → Option Int64}

theorem isAggregate_of_rolls (rolls : op ∈ [Operator.count, .sum, .min, .max]) :
    op.isAggregate = true := by
  revert op
  decide

/-- A symbol has a value on every row. -/
theorem exists_evaluate_symbol (env : Environment) (s : String) :
    ∃ v, evaluateIn env (.symbol s) = .ok v := by
  show ∃ v, interpretation.resolveSymbol env s = .ok v
  rw [Interpretation.resolveSymbol]
  split
  · next token name found =>
    show ∃ v, resolve env token name = .ok v
    rw [resolve]
    split
    · split <;> exact ⟨_, rfl⟩
    · split <;> exact ⟨_, rfl⟩
  · exact ⟨_, rfl⟩

/-- What is counted has a value on every row if the operand has. -/
theorem exists_counted (numbered : ∀ row ∈ rows,
      evaluateIn (env.surround row) f = .ok (.ofNumber (number row))) :
    ∃ value : Row → Value, ∀ row ∈ rows,
      evaluateIn (env.surround row) (if f.asName? = some "*" then .symbol ":id" else f)
        = .ok (value row) := by
  split
  · choose value evaluated using fun row : Row => exists_evaluate_symbol (env.surround row) ":id"
    exact ⟨value, fun row _ => evaluated row⟩
  · exact ⟨_, numbered⟩

section

variable (rolls : op ∈ [Operator.count, .sum, .min, .max])
  (valued : ∀ row ∈ rows,
    evaluateIn (env.surround row) (if f.asName? = some "*" then .symbol ":id" else f)
      = .ok (value row))
  (numbered : ∀ row ∈ rows, evaluateIn (env.surround row) f = .ok (.ofNumber (number row)))
  (within : (magnitude ((rows.filterMap number).map Int64.toInt) : Int) ≤ greatestInt)

include rolls valued numbered within

/-- An aggregate of some of the rows is what their shares are combined to. -/
theorem evaluate_aggregate_of_numbers {row : Row} (some : row.members.Subperm rows) :
    evaluateIn (env.surround row) (.aggregate op f) = .ok (.ofNumber
      ((combined op (row.members.filterMap (share op value number))).map Int64.ofInt)) := by
  have numbers : ∀ member ∈ members (env.surround row),
      interpretation.evaluate f ((env.surround row).surround member)
        = .ok (.ofNumber (number member)) := fun member hm => numbered member (some.subset hm)
  simp only [List.mem_cons, List.not_mem_nil, or_false] at rolls
  rcases rolls with rfl | rfl | rfl | rfl
  · rw [filterMap_share_count]
    exact (evaluate_call .count rfl [f] _).trans
      (count_of_values fun member hm => valued member (some.subset hm))
  · rw [filterMap_share (by decide)]
    have part : magnitude ((row.members.filterMap number).map Int64.toInt)
        ≤ magnitude ((rows.filterMap number).map Int64.toInt) := by
      rw [List.map_filterMap, List.map_filterMap]
      exact magnitude_filterMap_le _ some
    exact (evaluate_call .sum rfl [f] _).trans
      (sum_of_numbers numbers (Int.le_trans (Int.ofNat_le.2 part) within))
  · rw [filterMap_share (by decide), combined_min]
    exact (evaluate_call .min rfl [f] _).trans (extreme_of_numbers "$min" toInt_lesser numbers)
  · rw [filterMap_share (by decide), combined_max]
    exact (evaluate_call .max rfl [f] _).trans (extreme_of_numbers "$max" toInt_greater numbers)

/-- A projection of an aggregate has the integers of the members that it shows. -/
theorem evaluate_selectAs_of_numbers (free : f.Windowless) (name : String) {e : Expr}
    {list shown : List Row} (sourced : Relation.sourceRows interpretation.evaluate e env = .ok list)
    (selected : Relation.selectedRows [.list [.symbol "$as", .symbol name, .aggregate op f]] list
      = shown) (some : ∀ row ∈ shown, row.members.Subperm rows) :
    evaluateIn env (.selectAs name (.aggregate op f) e)
      = .ok (.array ((integersOf op (share op value number) (shown.map Row.members)).map fun part =>
          .object [(name, .ofNumber part)])) := by
  have combines : op.isAggregate = true := isAggregate_of_rolls rolls
  rw [evaluate_selectAs_aggregate combines free name sourced selected fun row hr =>
    evaluate_aggregate_of_numbers rolls valued numbered within (some row hr)]
  conv_rhs => rw [← Windowed.map_snd_indexed shown]
  rw [integersOf, List.map_map, List.map_map, List.map_map]
  rfl

end

/-- Over a whole source an aggregate that counts, adds up or chooses has the value that its values on
the groups are combined to, if its operand is an integer or null on every row and the sum of the
magnitudes is in range. Counts of more rows than there are integers are taken modulo the range, on
both sides. -/
theorem rollup_of_groups (rolls : op ∈ [Operator.count, .sum, .min, .max]) (free : f.Windowless)
    (sourced : Relation.sourceRows interpretation.evaluate source env = .ok rows)
    (single : ∀ row ∈ rows, row.isGrouped = false)
    (keyed : ∀ row ∈ rows, evaluateAll interpretation.evaluate keyList.itemsOrNone
      (env.surround row) = .ok (key row))
    (numbered : ∀ row ∈ rows, evaluateIn (env.surround row) f = .ok (.ofNumber (number row)))
    (within : (magnitude ((rows.filterMap number).map Int64.toInt) : Int) ≤ greatestInt)
    (name : String) :
    ∃ (total : Option Int64) (parts : List (Option Int64)),
      evaluateIn env (.selectAs name (.aggregate op f) source)
        = .ok (.array [.object [(name, .ofNumber total)]]) ∧
      evaluateIn env (.selectAs name (.aggregate op f)
          (.list [.symbol "$group", keyList, source]))
        = .ok (.array (parts.map fun part => .object [(name, .ofNumber part)])) ∧
      (op = .count → none ∉ parts) ∧
      total = (combined op (parts.reduceOption.map Int64.toInt)).map Int64.ofInt ∧
      (op ≠ .count ∨ rows.length ≤ greatestInt →
        total.map Int64.toInt = combined op (parts.reduceOption.map Int64.toInt)) := by
  have aggregated := Expr.isAggregated_aggregate (isAggregate_of_rolls rolls) f
  obtain ⟨value, valued⟩ := exists_counted numbered
  have whole : Relation.selectedRows [.list [.symbol "$as", .symbol name, .aggregate op f]] rows
      = [Row.ofGroup [] rows] := by
    have none : rows.any Row.isGrouped = false :=
      List.any_eq_false.2 fun row hr => ne_true_of_eq_false (single row hr)
    rw [Relation.selectedRows_named, aggregated, none]
    rfl
  have grouped : evaluateIn env (.list [.symbol "$group", keyList, source]) = .ok (.rows
      (Relation.groupsOf (keyList.itemsOrNone.map (Relation.groupKeyName env)) key rows)) :=
    (evaluate_call .group rfl [keyList, source] env).trans (Relation.group_eq_ok sourced keyed)
  generalize shown : Relation.selectedRows [.list [.symbol "$as", .symbol name, .aggregate op f]]
    (Relation.groupsOf (keyList.itemsOrNone.map (Relation.groupKeyName env)) key rows) = groups
  have perm : (groups.map Row.members).flatten.Perm rows :=
    shown ▸ Relation.flatten_members_shown aggregated _ key rows
  have inside : ∀ group ∈ groups, group.members.Subperm rows := fun group hg =>
    (List.sublist_flatten_of_mem (List.mem_map_of_mem hg)).subperm.trans perm.subperm
  refine ⟨_, _, ?_, evaluate_selectAs_of_numbers rolls valued numbered within free name
    (Relation.sourceRows_of_rows grouped) shown inside, ?_, ofInt_rolled perm within,
    toInt_rolled perm within⟩
  · exact evaluate_selectAs_of_numbers rolls valued numbered within free name sourced whole
      (List.forall_mem_singleton.2 (List.Perm.refl rows).subperm)
  · rintro rfl missing
    obtain ⟨part, -, absent⟩ := List.mem_map.1 missing
    cases absent

/-- The sum of a whole source of three records is that of its two groups, of which one has no
numbers. -/
theorem rollup_of_letters :
    ∃ (total : Option Int64) (parts : List (Option Int64)),
      evaluateIn (Environment.ofContext []) (.selectAs "sum" (.aggregate .sum (.symbol ":n"))
          (.quoted [.object [("k", .string "a"), ("n", .integer 1)],
            .object [("k", .string "b"), ("n", .null)],
            .object [("k", .string "a"), ("n", .integer 2)]]))
        = .ok (.array [.object [("sum", .ofNumber total)]]) ∧
      evaluateIn (Environment.ofContext []) (.selectAs "sum" (.aggregate .sum (.symbol ":n"))
          (.list [.symbol "$group", .list [.symbol ":k"],
            .quoted [.object [("k", .string "a"), ("n", .integer 1)],
              .object [("k", .string "b"), ("n", .null)],
              .object [("k", .string "a"), ("n", .integer 2)]]]))
        = .ok (.array (parts.map fun part => .object [("sum", .ofNumber part)])) ∧
      total.map Int64.toInt = combined .sum (parts.reduceOption.map Int64.toInt) := by
  let rows := [Row.single "" (.object [("k", .string "a"), ("n", .integer 1)]),
    .single "" (.object [("k", .string "b"), ("n", .null)]),
    .single "" (.object [("k", .string "a"), ("n", .integer 2)])]
  have sourced : Relation.sourceRows interpretation.evaluate
      (.quoted [.object [("k", .string "a"), ("n", .integer 1)],
        .object [("k", .string "b"), ("n", .null)],
        .object [("k", .string "a"), ("n", .integer 2)]]) (Environment.ofContext []) = .ok rows := rfl
  have single : ∀ row ∈ rows, row.isGrouped = false := by
    simp only [rows, List.forall_mem_cons, List.not_mem_nil, false_implies, implies_true, and_true]
    exact ⟨rfl, rfl, rfl⟩
  have keyed : ∀ row ∈ rows, evaluateAll interpretation.evaluate
      (Expr.list [.symbol ":k"]).itemsOrNone ((Environment.ofContext []).surround row)
        = .ok [row.lookup "k"] := by
    simp only [rows, List.forall_mem_cons, List.not_mem_nil, false_implies, implies_true, and_true]
    exact ⟨rfl, rfl, rfl⟩
  have numbered : ∀ row ∈ rows,
      evaluateIn ((Environment.ofContext []).surround row) (.symbol ":n")
        = .ok (.ofNumber (row.lookup "n").asInt64?) := by
    simp only [rows, List.forall_mem_cons, List.not_mem_nil, false_implies, implies_true, and_true]
    exact ⟨rfl, rfl, rfl⟩
  obtain ⟨total, parts, whole, grouped, -, -, exact⟩ := rollup_of_groups
    (by decide : Operator.sum ∈ [Operator.count, .sum, .min, .max])
    (Expr.Everywhere.symbol_iff.2 nofun) sourced single keyed numbered (by decide) "sum"
  exact ⟨total, parts, whole, grouped, exact (.inl (by decide))⟩

end

end InMemory

end QueryForms
