import QueryForms.Proofs.InMemory.Windows
import QueryForms.Proofs.Sorting

/-!
# Window order

A window call puts the partition of its own row in window order, finds the place of the row in it,
and evaluates its function with the frame around that place (`InMemory.evaluate_windowCall`). Window
order is an order of places in the source: a row precedes another if its order keys are less, or level
with the other's and it stands before it. Of two rows of a partition exactly one precedes the other,
so the partition has one listing in window order (`Windowed.pairwise_placed`), and although each row
makes it anew, the places that rows find are the places of one list (`Windowed.place_of_getElem?`).
-/

namespace QueryForms

open Interpretation (evaluateAll)

/-- There is one value for each expression. -/
theorem Interpretation.length_evaluateAll {eval : Evaluator} {es : List Expr} {env : Environment}
    {values : List Value} (evaluated : evaluateAll eval es env = .ok values) :
    values.length = es.length :=
  Yields.length_mapM _ _ _ evaluated

/-- In a list that a relation orders one way, the items stand in its order. -/
theorem lt_iff_of_pairwise {α : Type} {relates : α → α → Prop}
    (asymm : ∀ a b, relates a b → ¬relates b a) {list : List α} (sorted : list.Pairwise relates)
    {i j : Nat} {a b : α} (ha : list[i]? = some a) (hb : list[j]? = some b) :
    i < j ↔ relates a b := by
  have before : ∀ {i j : Nat} {a b : α}, list[i]? = some a → list[j]? = some b → i < j →
      relates a b := by
    intro i j a b ha hb less
    obtain ⟨hi, rfl⟩ := List.getElem?_eq_some_iff.1 ha
    obtain ⟨hj, rfl⟩ := List.getElem?_eq_some_iff.1 hb
    exact List.pairwise_iff_getElem.1 sorted i j hi hj less
  refine ⟨before ha hb, fun first => ?_⟩
  rcases Nat.lt_trichotomy i j with less | rfl | greater
  · exact less
  · obtain rfl : a = b := Option.some.inj (ha.symm.trans hb)
    exact absurd first (asymm _ _ first)
  · exact absurd (before hb ha greater) (asymm _ _ first)

/-! ## The order of a partition -/

namespace Windowed

/-- Whether a row precedes another in window order: its keys are less, or level and it is the earlier
one in the source. -/
def Precedes (descending : List Bool) (order : Row → List Value) (a b : Nat × Row) : Prop :=
  compareKeys descending (order a.2) (order b.2) = .lt ∨
    compareKeys descending (order a.2) (order b.2) = .eq ∧ a.1 < b.1

theorem Precedes.asymm {descending : List Bool} {order : Row → List Value} {a b : Nat × Row}
    (first : Precedes descending order a b) : ¬Precedes descending order b a := by
  intro second
  rw [Precedes, ← compareKeys_swap] at second
  rcases first with less | ⟨level, earlier⟩
  · rw [less] at second
    simp at second
  · rw [level] at second
    rcases second with other | ⟨-, later⟩
    · cases other
    · omega

/-- The rows of a row's partition in window order. -/
def placed (spec : WindowSpec) (key order : Row → List Value) (rows : List Row) (row : Row) :
    List (Nat × Row) :=
  sortedBy (spec.order.map OrderSpec.descending) (fun member => order member.2)
    (partition key rows row)

/-- The place of a row in the window order of its partition. -/
def place (spec : WindowSpec) (key order : Row → List Value) (rows : List Row)
    (member : Nat × Row) : Nat :=
  (placed spec key order rows member.2).findIdx fun other => other.1 == member.1

/-- The window of a row. -/
def frameFor (spec : WindowSpec) (key order : Row → List Value) (rows : List Row)
    (member : Nat × Row) : Frame where
  partition := (placed spec key order rows member.2).map fun other => (order other.2, other.2)
  descending := spec.order.map OrderSpec.descending
  position := place spec key order rows member
  bounds := spec.effectiveFrame.resolve? (place spec key order rows member)
    (placed spec key order rows member.2).length

section

variable {spec : WindowSpec} {key order : Row → List Value} {rows : List Row} {row : Row}
  {member : Nat × Row}

theorem placed_perm (spec : WindowSpec) (key order : Row → List Value) (rows : List Row)
    (row : Row) : (placed spec key order rows row).Perm (partition key rows row) :=
  sortedBy_perm ..

theorem pairwise_placed {keys : Nat} (alike : ∀ row ∈ rows, (order row).length = keys) :
    (placed spec key order rows row).Pairwise
      (Precedes (spec.order.map OrderSpec.descending) order) :=
  pairwise_sortedBy (fun _ hm => alike _ (mem_of_mem_indexed (List.mem_filter.1 hm).1))
    ((pairwise_indexed rows).filter _)

/-- Rows with one text of their keys have one partition. -/
theorem placed_congr {other : Row}
    (same : Relation.keyText key row = Relation.keyText key other) :
    placed spec key order rows row = placed spec key order rows other := by
  rw [placed, placed, partition, partition, same]

theorem placed_of_mem (h : member ∈ placed spec key order rows row) :
    placed spec key order rows member.2 = placed spec key order rows row :=
  placed_congr (eq_of_beq (List.mem_filter.1 ((placed_perm ..).mem_iff.1 h)).2)

theorem mem_indexed_of_mem_placed (h : member ∈ placed spec key order rows row) :
    member ∈ indexed rows :=
  (List.mem_filter.1 ((placed_perm ..).mem_iff.1 h)).1

theorem nodup_placed : (placed spec key order rows row).Nodup := by
  refine (placed_perm ..).nodup_iff.2 (List.Pairwise.imp ?_ ((pairwise_indexed rows).filter _))
  rintro a _ less rfl
  exact Nat.lt_irrefl _ less

/-- A row is found at its place. -/
theorem getElem?_place (spec : WindowSpec) (key order : Row → List Value)
    (h : member ∈ indexed rows) :
    (placed spec key order rows member.2)[place spec key order rows member]? = some member := by
  have inside : member ∈ placed spec key order rows member.2 :=
    (placed_perm ..).mem_iff.2 (mem_partition key (getElem?_of_mem_indexed h))
  have bound : place spec key order rows member < (placed spec key order rows member.2).length :=
    List.findIdx_lt_length_of_exists ⟨member, inside, beq_self_eq_true _⟩
  have index : (placed spec key order rows member.2)[place spec key order rows member].1 = member.1 :=
    eq_of_beq (List.findIdx_getElem (w := bound))
  rw [List.getElem?_eq_getElem bound]
  exact congrArg some (eq_of_mem_indexed (mem_indexed_of_mem_placed (List.getElem_mem bound)) h index)

/-- The places that rows find are those of the one listing of their partition. -/
theorem place_of_getElem? {i : Nat} (found : (placed spec key order rows row)[i]? = some member) :
    place spec key order rows member = i := by
  have inside := List.mem_of_getElem? found
  have there := getElem?_place spec key order (mem_indexed_of_mem_placed inside)
  rw [placed_of_mem inside, ← found] at there
  obtain ⟨bound, -⟩ := List.getElem?_eq_some_iff.1 found
  exact ((List.getElem?_inj bound nodup_placed).1 there.symm).symm

/-- Of two rows of one partition the one that precedes the other has the lesser place. -/
theorem place_lt_iff {keys : Nat} (alike : ∀ row ∈ rows, (order row).length = keys)
    {a b : Nat × Row} (ha : a ∈ indexed rows) (hb : b ∈ indexed rows)
    (same : Relation.keyText key a.2 = Relation.keyText key b.2) :
    place spec key order rows a < place spec key order rows b ↔
      Precedes (spec.order.map OrderSpec.descending) order a b := by
  have hb := getElem?_place spec key order hb
  rw [placed_congr same.symm] at hb
  exact lt_iff_of_pairwise (fun _ _ => Precedes.asymm) (pairwise_placed alike)
    (getElem?_place spec key order ha) hb

/-- The window that a row finds among the members of its partition. -/
theorem frameOf_eq_ok (spec : WindowSpec) (key order : Row → List Value)
    (h : member ∈ indexed rows) :
    frameOf spec member.1
        ((partition key rows member.2).map fun other => (order other.2, other))
      = .ok (frameFor spec key order rows member) := by
  have sorted : sortByKeys (spec.order.map OrderSpec.descending)
      ((partition key rows member.2).map fun other => (order other.2, other))
        = (placed spec key order rows member.2).map fun other => (order other.2, other) :=
    sortByKeys_keyed ..
  have found : ((placed spec key order rows member.2).map fun other =>
      (order other.2, other)).findIdx? (fun other => other.2.1 == member.1)
        = some (place spec key order rows member) := by
    rw [List.findIdx?_map]
    exact List.findIdx?_eq_some_of_exists
      ⟨member, List.mem_of_getElem? (getElem?_place spec key order h), beq_self_eq_true _⟩
  simp only [frameOf, sorted, found, List.map_map, List.length_map]
  rfl

end

/-- The scope in which a window call evaluates its function: the row with the rows of the frame for
members, and the window. -/
def scope (env : Environment) (f : Frame) (row : Row) : Environment :=
  (env.surround { row with items := some f.rows }).withWindow (.frame f)

end Windowed

/-! ## Queries -/

namespace InMemory

section

variable {env : Environment} {window : Expr} {spec : WindowSpec} {rows : List Row}
  {key order : Row → List Value}

/-- A window call evaluates its function with the window of the row. -/
theorem evaluate_windowCall {member : Nat × Row} (parsed : WindowSpec.parse (some window) = .ok spec)
    (seen : env.window = some (.source rows member.1)) (inside : member ∈ Windowed.indexed rows)
    (keyed : ∀ row ∈ rows,
      evaluateAll interpretation.evaluate spec.partition (env.surround row) = .ok (key row))
    (ordered : ∀ row ∈ rows, evaluateAll interpretation.evaluate (spec.order.map OrderSpec.expr)
      (env.surround row) = .ok (order row)) (function : Expr) :
    evaluateIn env (.windowCall function window)
      = evaluateIn (Windowed.scope env (Windowed.frameFor spec key order rows member) member.2)
          function := by
  have here := Windowed.getElem?_of_mem_indexed inside
  have partition : Windowed.partitionOf interpretation.evaluate spec env rows member.1
      = .ok ((Windowed.partition key rows member.2).map fun other => (order other.2, other)) :=
    Windowed.partitionOf_eq_ok order here keyed ordered
  refine (evaluate_call .windowed rfl _ env).trans ?_
  simp only [Windowed.call, List.head?_cons, parsed, seen, partition,
    Windowed.frameOf_eq_ok spec key order inside, here, Option.getD_some, bind, Except.bind]
  rfl

/-- Where the keys look at no window themselves, the window of a row is the same as outside of its
projection. -/
theorem evaluate_windowCall_of_windowless {member : Nat × Row}
    (parsed : WindowSpec.parse (some window) = .ok spec)
    (free : ∀ e ∈ spec.partition ++ spec.order.map OrderSpec.expr, e.Windowless)
    (inside : member ∈ Windowed.indexed rows)
    (keyed : ∀ row ∈ rows,
      evaluateAll interpretation.evaluate spec.partition (env.surround row) = .ok (key row))
    (ordered : ∀ row ∈ rows, evaluateAll interpretation.evaluate (spec.order.map OrderSpec.expr)
      (env.surround row) = .ok (order row)) (function : Expr) :
    evaluateIn (Relation.rowScope env rows true member) (.windowCall function window)
      = evaluateIn (Windowed.scope env (Windowed.frameFor spec key order rows member) member.2)
          function := by
  obtain ⟨partitionFree, orderFree⟩ := List.forall_mem_append.1 free
  have seen : (Relation.rowScope env rows true member).window = some (.source rows member.1) := rfl
  exact evaluate_windowCall parsed seen inside
    (fun row hr =>
      (evaluateAll_besideWindow partitionFree (env.surround row) _).trans (keyed row hr))
    (fun row hr =>
      (evaluateAll_besideWindow orderFree (env.surround row) _).trans (ordered row hr)) function

/-- A projection of a window call has the value of the call for each row of its source. -/
theorem evaluate_selectAs_windowCall {function source : Expr} {value : Nat × Row → Value}
    (called : ∀ member ∈ Windowed.indexed rows,
      evaluateIn (Relation.rowScope env rows true member) (.windowCall function window)
        = .ok (value member))
    (sourced : Relation.sourceRows interpretation.evaluate source env = .ok rows) (name : String) :
    evaluateIn env (.selectAs name (.windowCall function window) source)
      = .ok (.array ((Windowed.indexed rows).map fun member =>
          .object [(name, value member)])) := by
  have shown : Relation.selectedRows
      [.list [.symbol "$as", .symbol name, .windowCall function window]] rows = rows := by
    rw [Relation.selectedRows_named, Expr.isAggregated_windowCall]
    rfl
  refine evaluate_selectAs value sourced shown fun member hm => ?_
  rw [Expr.isWindowed_windowCall]
  exact called member hm

end

end InMemory

end QueryForms
