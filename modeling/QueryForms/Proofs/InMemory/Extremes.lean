import QueryForms.Proofs.Coherence
import QueryForms.Proofs.InMemory.Windows

/-!
# Extremes

`$min` and `$max` go through the values of their operand on the members of a row and keep the best one
so far until a better one comes. Values of one simple type have a total preorder, so what is kept in the
end is the first value that no other is better than, and in any order of the members an equal one
(`InMemory.extremes_of_members`).
-/

namespace QueryForms

/-! ## The first of the least -/

section

variable {α : Type} {cmp : α → α → Ordering}

/-- The best so far, unless a new one is less. -/
def lesser (cmp : α → α → Ordering) (best a : α) : α :=
  if cmp a best = .lt then a else best

/-- What is kept of a list, from left to right. -/
def firstLeast? (cmp : α → α → Ordering) : List α → Option α
  | [] => none
  | first :: rest => some (rest.foldl (lesser cmp) first)

theorem firstLeast?_eq_none_iff {list : List α} : firstLeast? cmp list = none ↔ list = [] := by
  cases list <;> simp [firstLeast?]

/-- What is kept is less than all before it, and nothing after it is less. -/
theorem foldl_lesser [Std.TransCmp cmp] (first : α) (rest : List α) :
    ∃ before after, first :: rest = before ++ rest.foldl (lesser cmp) first :: after ∧
      (∀ a ∈ before, cmp (rest.foldl (lesser cmp) first) a = .lt) ∧
      ∀ a ∈ after, cmp a (rest.foldl (lesser cmp) first) ≠ .lt := by
  induction rest generalizing first with
  | nil => exact ⟨[], [], rfl, nofun, nofun⟩
  | cons a rest ih =>
    rw [List.foldl_cons, lesser]
    split
    · next less =>
      obtain ⟨before, after, split, greater, notLess⟩ := ih a
      generalize rest.foldl (lesser cmp) a = kept at split greater notLess ⊢
      refine ⟨first :: before, after, congrArg (first :: ·) split, ?_, notLess⟩
      refine List.forall_mem_cons.2 ⟨?_, greater⟩
      cases before with
      | nil => exact (List.cons.inj split).1 ▸ less
      | cons _ _ =>
        obtain ⟨rfl, -⟩ := List.cons.inj split
        exact Std.TransCmp.lt_trans (greater a (.head _)) less
    · next notLess' =>
      obtain ⟨before, after, split, greater, notLess⟩ := ih first
      generalize rest.foldl (lesser cmp) first = kept at split greater notLess ⊢
      cases before with
      | nil =>
        obtain ⟨rfl, rfl⟩ := List.cons.inj split
        exact ⟨[], a :: rest, rfl, nofun, List.forall_mem_cons.2 ⟨notLess', notLess⟩⟩
      | cons _ before =>
        obtain ⟨rfl, rfl⟩ := List.cons.inj split
        obtain ⟨own, greater⟩ := List.forall_mem_cons.1 greater
        refine ⟨first :: a :: before, after, rfl, ?_, notLess⟩
        refine List.forall_mem_cons.2 ⟨own, List.forall_mem_cons.2 ⟨?_, greater⟩⟩
        -- what is kept is less than the first, which is not greater than the new one
        exact Std.TransCmp.lt_of_lt_of_isLE own
          (Std.OrientedCmp.isLE_of_isGE (Ordering.isGE_iff_ne_lt.2 notLess'))

/-- What is kept is the first of a list that nothing is less than. -/
theorem firstLeast?_eq_some [Std.TransCmp cmp] {list : List α} {a : α}
    (h : firstLeast? cmp list = some a) :
    ∃ before after, list = before ++ a :: after ∧ (∀ b ∈ list, cmp b a ≠ .lt) ∧
      ∀ b ∈ before, cmp a b = .lt := by
  cases list with
  | nil => cases h
  | cons first rest =>
    obtain ⟨before, after, split, greater, notLess⟩ := @foldl_lesser _ cmp _ first rest
    rw [Option.some.inj h] at split greater notLess
    refine ⟨before, after, split, fun b hb => ?_, greater⟩
    rw [split] at hb
    rcases List.mem_append.1 hb with earlier | hb
    · exact fun less => Std.OrientedCmp.not_lt_of_lt (greater b earlier) less
    · rcases List.mem_cons.1 hb with rfl | later
      · exact ne_of_eq_of_ne Std.ReflCmp.compare_self nofun
      · exact notLess b later

theorem mem_of_firstLeast? [Std.TransCmp cmp] {list : List α} {a : α}
    (h : firstLeast? cmp list = some a) : a ∈ list := by
  obtain ⟨before, after, split, -⟩ := firstLeast?_eq_some h
  exact split ▸ List.mem_append_right _ (.head _)

/-- In any order of a list what is kept is level. -/
theorem firstLeast?_perm [Std.TransCmp cmp] {list other : List α} (perm : list.Perm other)
    {a b : α} (ha : firstLeast? cmp list = some a) (hb : firstLeast? cmp other = some b) :
    cmp a b = .eq := by
  obtain ⟨-, -, -, leastA, -⟩ := firstLeast?_eq_some ha
  obtain ⟨-, -, -, leastB, -⟩ := firstLeast?_eq_some hb
  have notLess := Ordering.isGE_iff_ne_lt.2 (leastB a (perm.subset (mem_of_firstLeast? ha)))
  have notLess' := Ordering.isGE_iff_ne_lt.2 (leastA b (perm.symm.subset (mem_of_firstLeast? hb)))
  exact Std.OrientedCmp.isLE_antisymm (Std.OrientedCmp.isLE_of_isGE notLess')
    (Std.OrientedCmp.isLE_of_isGE notLess)

end

/-! ## Values of one type -/

namespace Value

/-- The order of the measures of two values. -/
def order (a b : Value) : Ordering :=
  (a.measure?.getD default).order (b.measure?.getD default)

instance : Std.TransCmp Value.order :=
  Text.transCmp_comap fun v : Value => v.measure?.getD default

end Value

/-- The types of values that have an order among themselves, other than floats. -/
def Kind.ordered : List Kind :=
  [.integer, .string, .boolean, .date]

theorem Kind.ne_float_of_ordered {k : Kind} (ordered : k ∈ Kind.ordered) : k ≠ .float :=
  fun same => absurd (same ▸ ordered) (by decide)

/-- Values of one such type have measures of one sort. -/
theorem exists_measures_of_kind {k : Kind} (ordered : k ∈ Kind.ordered) {a b : Value}
    (ha : a.kind = k) (hb : b.kind = k) :
    ∃ m n, a.measure? = some m ∧ b.measure? = some n ∧ m.sort = n.sort := by
  subst ha
  cases a <;> simp only [Value.kind, Kind.ordered, List.mem_cons, List.not_mem_nil, reduceCtorEq,
    or_self] at ordered
  all_goals
    cases b <;> cases hb
    refine ⟨_, _, rfl, rfl, ?_⟩
    simp only [Measure.sort]

/-- Values of one such type have the order of their measures. -/
theorem compareValues_of_kind {k : Kind} (ordered : k ∈ Kind.ordered) {a b : Value}
    (ha : a.kind = k) (hb : b.kind = k) : compareValues a b = .ok (some (a.order b)) := by
  have exact := Kind.ne_float_of_ordered ordered
  obtain ⟨m, n, left, right, sorts⟩ := exists_measures_of_kind ordered ha hb
  refine (compareValues_eq_some_iff (ha ▸ exact) (hb ▸ exact)).2 ⟨m, n, left, right, sorts, ?_⟩
  rw [Value.order, left, right, Option.getD_some, Option.getD_some]

/-- Values of one such type that are level are equal. -/
theorem looseEq_of_order_eq_eq {k : Kind} (ordered : k ∈ Kind.ordered) {a b : Value}
    (ha : a.kind = k) (hb : b.kind = k) (level : a.order b = .eq) : looseEq a b = true := by
  have exact := Kind.ne_float_of_ordered ordered
  exact (compareValues_eq_iff_looseEq (ha ▸ exact) (hb ▸ exact)
    (compareValues_of_kind ordered ha hb)).1 level

namespace Aggregate

section

variable {accepted : Ordering → Bool} {cmp : Value → Value → Ordering} {k : Kind}
  (chosen : ∀ a b : Value, accepted (a.order b) = true ↔ cmp a b = .lt)
  (ordered : k ∈ Kind.ordered)

include chosen ordered

/-- The value to keep of two of one type. -/
theorem better_eq_ok {best v : Value} (hb : best.kind = k) (hv : v.kind = k) :
    better accepted best v = .ok (lesser cmp best v) := by
  rw [better, compareValues_of_kind ordered hv hb, lesser]
  simp only [bind, Except.bind, pure, Except.pure, Option.any_some, chosen]

/-- The value to keep of several of one type. -/
theorem foldlM_better_eq_ok {first : Value} {rest : List Value} (hf : first.kind = k)
    (hr : ∀ v ∈ rest, v.kind = k) :
    rest.foldlM (better accepted) first = .ok (rest.foldl (lesser cmp) first) := by
  induction rest generalizing first with
  | nil => rfl
  | cons v rest ih =>
    obtain ⟨hv, hr⟩ := List.forall_mem_cons.1 hr
    rw [List.foldlM_cons, better_eq_ok chosen ordered hf hv, List.foldl_cons]
    refine ih ?_ hr
    rw [lesser]
    split
    · exact hv
    · exact hf

/-- An extreme of values of one type is the first of the least, in the order of the extreme. -/
theorem extreme_eq_ok (name : String) {eval : Evaluator} {env : Environment} {f : Expr}
    {values : List Value} (given : memberValues eval f env = .ok values)
    (alike : ∀ v ∈ values, v.kind = k) :
    extreme name accepted eval [f] env = .ok ((firstLeast? cmp values).getD .null) := by
  simp only [extreme, oneOperand, bind, Except.bind, given]
  cases values with
  | nil => rfl
  | cons first rest =>
    obtain ⟨hf, hr⟩ := List.forall_mem_cons.1 alike
    exact foldlM_better_eq_ok chosen ordered hf hr

end

end Aggregate

/-! ## Extremes of members -/

namespace InMemory

open Aggregate

/-- The values of an operand on the members of a row, without nulls. -/
def valuesOn (value : Row → Value) (row : Row) : List Value :=
  (row.members.map value).filter fun v => !v.isNull

theorem valuesOn_perm (value : Row → Value) {row other : Row}
    (perm : other.members.Perm row.members) :
    (valuesOn value other).Perm (valuesOn value row) :=
  (perm.map value).filter _

/-- No value of a list compares so to a value: as less if that is a least one, as greater if it is a
greatest one. -/
def IsExtreme (o : Ordering) (values : List Value) (v : Value) : Prop :=
  ∀ w ∈ values, compareValues w v ≠ .ok (some o)

/-- The operators of extremes, and how no other value compares to theirs. -/
def Seeks (op : Operator) (o : Ordering) : Prop :=
  op = .min ∧ o = .lt ∨ op = .max ∧ o = .gt

/-- The order in which an extreme is the least: that of values, or the same the other way round. -/
def orderTo (o : Ordering) (a b : Value) : Ordering :=
  if o = .lt then a.order b else b.order a

instance (o : Ordering) : Std.TransCmp (orderTo o) := by
  by_cases least : o = .lt
  · have same : orderTo o = Value.order := funext fun a => funext fun b => if_pos least
    exact same ▸ inferInstance
  · have same : orderTo o = fun a b => Value.order b a :=
      funext fun a => funext fun b => if_neg least
    exact same ▸ Std.TransCmp.opposite

section

variable {op : Operator} {o : Ordering} (seeks : Seeks op o)

include seeks

theorem orderTo_eq_lt_iff (a b : Value) : orderTo o a b = .lt ↔ a.order b = o := by
  rcases seeks with ⟨-, rfl⟩ | ⟨-, rfl⟩
  · rfl
  · exact Std.OrientedCmp.gt_iff_lt.symm

section

variable {env : Environment} {f : Expr} {value : Row → Value} {k : Kind} {row : Row}
  (ordered : k ∈ Kind.ordered)
  (valued : ∀ member ∈ row.members, evaluateIn (env.surround member) f = .ok (value member))
  (alike : ∀ v ∈ valuesOn value row, v.kind = k)

include ordered alike

include valued in
/-- What an extreme of a row is. -/
theorem evaluate_extreme : evaluateIn (env.surround row) (.aggregate op f)
    = .ok ((firstLeast? (orderTo o) (valuesOn value row)).getD .null) := by
  have given : memberValues interpretation.evaluate f (env.surround row)
      = .ok (valuesOn value row) := by
    have values : (members (env.surround row)).mapM (fun member =>
        interpretation.evaluate f ((env.surround row).surround member))
          = .ok (row.members.map value) := mapM_eq_ok valued
    simp only [memberValues, values, bind, Except.bind, pure, Except.pure, valuesOn]
  have chosen := orderTo_eq_lt_iff seeks
  rcases seeks with ⟨rfl, rfl⟩ | ⟨rfl, rfl⟩
  · exact (evaluate_call .min rfl [f] _).trans (extreme_eq_ok
      (fun a b => Ordering.isLT_iff_eq_lt.trans (chosen a b).symm) ordered "$min" given alike)
  · exact (evaluate_call .max rfl [f] _).trans (extreme_eq_ok
      (fun a b => Ordering.isGT_iff_eq_gt.trans (chosen a b).symm) ordered "$max" given alike)

/-- Of values of one type, the extremes are those that nothing is less than in the order of the
extreme. -/
theorem isExtreme_iff {v : Value} (inside : v ∈ valuesOn value row) :
    IsExtreme o (valuesOn value row) v ↔ ∀ w ∈ valuesOn value row, orderTo o w v ≠ .lt := by
  refine forall₂_congr fun w hw => ?_
  rw [compareValues_of_kind ordered (alike w hw) (alike v inside), ne_eq, Except.ok.injEq,
    Option.some.injEq]
  exact not_congr (orderTo_eq_lt_iff seeks w v).symm

/-- What is kept of values of one type is the first extreme. -/
theorem isExtreme_of_firstLeast? {v : Value}
    (kept : firstLeast? (orderTo o) (valuesOn value row) = some v) :
    ∃ before after, valuesOn value row = before ++ v :: after ∧
      IsExtreme o (valuesOn value row) v ∧
      ∀ w ∈ before, ¬IsExtreme o (valuesOn value row) w := by
  obtain ⟨before, after, split, least, greater⟩ := firstLeast?_eq_some kept
  have inside : v ∈ valuesOn value row := mem_of_firstLeast? kept
  refine ⟨before, after, split, (isExtreme_iff seeks ordered alike inside).2 least, ?_⟩
  intro w hw extreme
  have earlier : w ∈ valuesOn value row := split ▸ List.mem_append_left _ hw
  exact (isExtreme_iff seeks ordered alike earlier).1 extreme v inside (greater w hw)

omit seeks in
/-- In any order of the members what is kept is equal. -/
theorem looseEq_of_firstLeast? {other : Row} (perm : other.members.Perm row.members) :
    looseEq ((firstLeast? (orderTo o) (valuesOn value row)).getD .null)
      ((firstLeast? (orderTo o) (valuesOn value other)).getD .null) = true := by
  have values := valuesOn_perm value perm
  cases kept : firstLeast? (orderTo o) (valuesOn value row) with
  | none =>
    rw [firstLeast?_eq_none_iff.1 kept] at values
    rw [List.perm_nil.1 values]
    rfl
  | some v =>
    cases kept' : firstLeast? (orderTo o) (valuesOn value other) with
    | none =>
      rw [firstLeast?_eq_none_iff.1 kept'] at values
      rw [List.nil_perm.1 values] at kept
      cases kept
    | some w =>
      have level := firstLeast?_perm values.symm kept kept'
      have inside := mem_of_firstLeast? kept
      have inside' := values.subset (mem_of_firstLeast? kept')
      refine looseEq_of_order_eq_eq ordered (alike v inside) (alike w inside') ?_
      rw [orderTo] at level
      split at level
      · exact level
      · exact Std.OrientedCmp.eq_symm level

include valued in
/-- An extreme of members whose values, null apart, are all integers, all texts, all truth values or
all dates is the first of these that no other is better than, and null without values. On a row with
the same members in any order it is an equal value. -/
theorem extremes_of_members :
    ∃ v, evaluateIn (env.surround row) (.aggregate op f) = .ok v ∧
      (valuesOn value row = [] → v = .null) ∧
      (valuesOn value row ≠ [] →
        ∃ before after, valuesOn value row = before ++ v :: after ∧
          IsExtreme o (valuesOn value row) v ∧
          ∀ w ∈ before, ¬IsExtreme o (valuesOn value row) w) ∧
      ∀ other : Row, other.members.Perm row.members →
        ∃ w, evaluateIn (env.surround other) (.aggregate op f) = .ok w ∧ looseEq v w = true := by
  refine ⟨_, evaluate_extreme seeks ordered valued alike, fun none => ?_, fun filled => ?_,
    fun other perm => ⟨_, ?_, looseEq_of_firstLeast? ordered alike perm⟩⟩
  · rw [none]
    rfl
  · cases kept : firstLeast? (orderTo o) (valuesOn value row) with
    | none => exact absurd (firstLeast?_eq_none_iff.1 kept) filled
    | some v => exact isExtreme_of_firstLeast? seeks ordered alike kept
  · exact evaluate_extreme seeks ordered (fun member hm => valued member (perm.subset hm))
      fun v hv => alike v ((valuesOn_perm value perm).subset hv)

end

end

/-- Of a date, no date and two dates within one millisecond before it, the first of the two is the
least. -/
theorem extremes_of_dates :
    ∃ v, evaluateIn ((Environment.ofContext []).surround (.ofGroup []
        [.single "" (.object [("t", .date ⟨2, 0⟩)]), .single "" (.object [("t", .null)]),
          .single "" (.object [("t", .date ⟨1, 500⟩)]), .single "" (.object [("t", .date ⟨1, 0⟩)])]))
        (.aggregate .min (.symbol ":t")) = .ok v ∧
      ∃ before after, [.date ⟨2, 0⟩, .date ⟨1, 500⟩, .date ⟨1, 0⟩] = before ++ v :: after ∧
        IsExtreme .lt [.date ⟨2, 0⟩, .date ⟨1, 500⟩, .date ⟨1, 0⟩] v ∧
        ∀ w ∈ before, ¬IsExtreme .lt [.date ⟨2, 0⟩, .date ⟨1, 500⟩, .date ⟨1, 0⟩] w := by
  let row := Row.ofGroup [] [.single "" (.object [("t", .date ⟨2, 0⟩)]),
    .single "" (.object [("t", .null)]), .single "" (.object [("t", .date ⟨1, 500⟩)]),
    .single "" (.object [("t", .date ⟨1, 0⟩)])]
  have valued : ∀ member ∈ row.members, evaluateIn ((Environment.ofContext []).surround member)
      (.symbol ":t") = .ok (member.lookup "t") := by
    simp only [row, Row.members, Row.ofGroup, Option.getD_some, List.forall_mem_cons,
      List.not_mem_nil, false_implies, implies_true, and_true]
    exact ⟨rfl, rfl, rfl, rfl⟩
  have values : valuesOn (fun member => member.lookup "t") row
      = [.date ⟨2, 0⟩, .date ⟨1, 500⟩, .date ⟨1, 0⟩] := rfl
  have alike : ∀ v ∈ valuesOn (fun member => member.lookup "t") row, v.kind = .date := by
    rw [values]
    simp [Value.kind]
  have seeks : Seeks .min .lt := .inl ⟨rfl, rfl⟩
  obtain ⟨v, least, -, first, -⟩ := extremes_of_members seeks (k := .date) (by decide) valued alike
  exact ⟨v, least, values ▸ first (values ▸ List.cons_ne_nil _ _)⟩

end InMemory

end QueryForms
