import QueryForms.Proofs.InMemory.WindowOrder

/-!
# Order

A relation put in order has its rows sorted by the values of the order keys, and a window sees its
partition sorted in the same way, so the rank of a row is one more than the number of rows of its
partition before it (`Frame.rank_eq`).

By a key that is an integer on every row this is the order of the numbers, but for rows with negative
ones (`sorts_integers`).
-/

namespace QueryForms

open Interpretation (evaluateAll)

/-! ## Relations -/

namespace Relation

/-- Rows sorted by the values of their keys. -/
def ordered (descending : List Bool) (key : Row → List Value) (rows : List Row) : List Row :=
  (sortByKeys descending (rows.map fun row => (key row, row))).map Prod.snd

section

variable {descending : List Bool} {key : Row → List Value} {rows : List Row} {keys : Nat}

theorem ordered_perm (descending : List Bool) (key : Row → List Value) (rows : List Row) :
    (ordered descending key rows).Perm rows :=
  sortedBy_perm descending key rows

/-- Rows with as many keys are in order. -/
theorem pairwise_ordered (alike : ∀ row ∈ rows, (key row).length = keys) :
    (ordered descending key rows).Pairwise
      fun a b => (compareKeys descending (key a) (key b)).isLE :=
  pairwise_le_sortedBy alike

/-- Rows whose keys are level keep their order. -/
theorem ordered_stable {row : Row} (alike : ∀ other ∈ rows, (key other).length = (key row).length) :
    (ordered descending key rows).filter
        (fun other => compareKeys descending (key other) (key row) == .eq)
      = rows.filter fun other => compareKeys descending (key other) (key row) == .eq :=
  sortedBy_stable alike

/-- What is kept of rows in order is what is kept of them, put in order. -/
theorem filter_ordered (kept : Row → Bool) (alike : ∀ row ∈ rows, (key row).length = keys) :
    (ordered descending key rows).filter kept = ordered descending key (rows.filter kept) :=
  filter_sortedBy kept alike

end

/-- A relation put in order has the rows of its source. -/
theorem order_eq_ok {eval : Evaluator} {env : Environment} {specList e : Expr}
    {specs : List OrderSpec} {rows : List Row} {key : Row → List Value}
    (parsed : OrderSpec.parseList specList = .ok specs)
    (source : sourceRows eval e env = .ok rows)
    (keyed : ∀ row ∈ rows,
      evaluateAll eval (specs.map OrderSpec.expr) (env.surround row) = .ok (key row)) :
    order eval [specList, e] env
      = .ok (.rows (ordered (specs.map OrderSpec.descending) key rows)) := by
  have items : (rows.mapM fun row => do
      let keys ← evaluateAll eval (specs.map OrderSpec.expr) (env.surround row)
      return (keys, row)) = .ok (rows.map fun row => (key row, row)) := by
    refine mapM_eq_ok fun row hr => ?_
    rw [keyed row hr]
    rfl
  simp only [bind, Except.bind] at items
  simp only [order, clauseOperands, bind, Except.bind, parsed, source, items]
  rfl

end Relation

/-! ## Windows -/

/-- In a list in which whatever precedes an item with a property has it too, the items with the
property are the first ones. -/
theorem lt_countP_iff {α : Type} {p : α → Bool} {list : List α}
    (before : list.Pairwise fun a b => p b = true → p a = true) {i : Nat} {item : α}
    (here : list[i]? = some item) : p item = true ↔ i < list.countP p := by
  induction list generalizing i with
  | nil => cases here
  | cons first rest ih =>
    obtain ⟨front, before⟩ := List.pairwise_cons.1 before
    by_cases holds : p first = true
    · rw [List.countP_cons_of_pos holds]
      cases i with
      | zero =>
        cases here
        exact iff_of_true holds (Nat.succ_pos _)
      | succ i =>
        rw [List.getElem?_cons_succ] at here
        exact (ih before here).trans Nat.succ_lt_succ_iff.symm
    · have none : rest.countP p = 0 :=
        List.countP_eq_zero.2 fun later h property => holds (front later h property)
      have other : p item ≠ true := fun property => by
        cases i with
        | zero =>
          cases here
          exact holds property
        | succ i => exact holds (front item (List.mem_of_getElem? here) property)
      rw [List.countP_cons_of_neg holds, none]
      exact iff_of_false other (Nat.not_lt_zero i)

namespace Frame

section

variable {f : Frame} {keys : Nat} {own : List Value} {row : Row}
  (alike : ∀ item ∈ f.partition, item.1.length = keys)
  (sorted : f.partition.Pairwise (KeysLE f.descending))
  (here : f.partition[f.position]? = some (own, row))

include alike sorted here

/-- The rows with lesser keys than the current row's are the first ones of a partition in order. -/
theorem lt_own_iff {i : Nat} {item : List Value × Row} (there : f.partition[i]? = some item) :
    compareKeys f.descending item.1 own = .lt
      ↔ i < f.partition.countP fun item => compareKeys f.descending item.1 own == .lt := by
  have level : own.length = keys := alike _ (List.mem_of_getElem? here)
  have before : f.partition.Pairwise fun a b =>
      (compareKeys f.descending b.1 own == .lt) = true →
        (compareKeys f.descending a.1 own == .lt) = true := by
    refine sorted.imp_of_mem fun {a b} ha hb le less => ?_
    exact beq_iff_eq.2 (compareKeys_lt_of_isLE_of_lt ((alike a ha).trans (alike b hb).symm)
      ((alike b hb).trans level.symm) le (beq_iff_eq.1 less))
  exact beq_iff_eq.symm.trans (lt_countP_iff before there)

/-- The rank of a row is one more than the number of rows of its partition with lesser keys. -/
theorem rank_eq :
    f.rank
      = f.partition.countP (fun item => compareKeys f.descending item.1 own == .lt) + 1 := by
  have keysAt : ∀ {i item}, f.partition[i]? = some item → f.keysAt i = item.1 := by
    intro i item there
    rw [Frame.keysAt, there]
    rfl
  generalize least : f.partition.countP _ = before
  have reached : ¬f.position < before := by
    rw [← least, ← lt_own_iff alike sorted here here, compareKeys_self]
    exact nofun
  -- up to the current row's position the keys are its own or lesser
  have peers : ∀ i < f.position, (f.peers i f.position = true ↔ before ≤ i) := by
    intro i earlier
    obtain ⟨inside, current⟩ := List.getElem?_eq_some_iff.1 here
    have there := List.getElem?_eq_getElem (Nat.lt_trans earlier inside)
    have le : KeysLE f.descending f.partition[i] (own, row) :=
      current ▸ List.pairwise_iff_getElem.1 sorted i _ _ inside earlier
    rw [Frame.peers, keysAt there, keysAt here, beq_iff_eq, ← Nat.not_lt, ← least,
      ← lt_own_iff alike sorted here there]
    cases order : compareKeys f.descending f.partition[i].1 own with
    | lt => exact iff_of_false nofun fun other => other rfl
    | eq => exact iff_of_true rfl nofun
    | gt => rw [KeysLE, order] at le; cases le
  rw [Frame.rank]
  congr 1
  cases found : (List.range f.position).find? fun i => f.peers i f.position with
  | none =>
    refine Nat.le_antisymm (Nat.not_lt.1 fun earlier => ?_) (Nat.not_lt.1 reached)
    have other := List.find?_range_eq_none.1 found before earlier
    rw [(peers before earlier).2 (Nat.le_refl _)] at other
    cases other
  | some i =>
    obtain ⟨peer, inside, others⟩ := List.find?_range_eq_some.1 found
    have inside := List.mem_range.1 inside
    refine Nat.le_antisymm (Nat.not_lt.1 fun later => ?_) ((peers i inside).1 peer)
    have other := others before later
    rw [(peers before (Nat.lt_trans later inside)).2 (Nat.le_refl _)] at other
    cases other

end

end Frame

namespace Windowed

section

variable {spec : WindowSpec} {key order : Row → List Value} {rows : List Row}
  {member : Nat × Row} {keys : Nat}

theorem length_of_mem_frameFor (alike : ∀ row ∈ rows, (order row).length = keys) :
    ∀ item ∈ (frameFor spec key order rows member).partition, item.1.length = keys :=
  List.forall_mem_map.2 fun _ h =>
    alike _ (mem_of_mem_indexed (mem_indexed_of_mem_placed h))

/-- The window of a row has its partition in order. -/
theorem pairwise_frameFor (alike : ∀ row ∈ rows, (order row).length = keys) :
    (frameFor spec key order rows member).partition.Pairwise
      (KeysLE (frameFor spec key order rows member).descending) := by
  refine List.pairwise_map.2 ((pairwise_placed alike).imp fun {a b} first => ?_)
  show (compareKeys (spec.order.map OrderSpec.descending) (order a.2) (order b.2)).isLE
  rcases first with less | ⟨level, -⟩
  · rw [less]
    rfl
  · rw [level]
    rfl

/-- The window of a row has the row in its place. -/
theorem current_frameFor (spec : WindowSpec) (key order : Row → List Value)
    (h : member ∈ indexed rows) :
    (frameFor spec key order rows member).partition[
        (frameFor spec key order rows member).position]?
      = some (order member.2, member.2) := by
  show ((placed spec key order rows member.2).map _)[place spec key order rows member]? = _
  rw [List.getElem?_map, getElem?_place spec key order h]
  rfl

/-- The keys of the rows in a window are those of the rows of the partition. -/
theorem perm_frameFor (spec : WindowSpec) (key order : Row → List Value) (rows : List Row)
    (member : Nat × Row) :
    ((frameFor spec key order rows member).partition.map Prod.fst).Perm
      ((Relation.companions key rows member.2).map order) := by
  show (((placed spec key order rows member.2).map _).map Prod.fst).Perm _
  rw [← map_snd_partition, List.map_map, List.map_map]
  exact (placed_perm spec key order rows member.2).map (order ∘ Prod.snd)

/-- The rank of a row is one more than the number of rows of its partition with lesser keys. -/
theorem rank_frameFor (alike : ∀ row ∈ rows, (order row).length = keys)
    (h : member ∈ indexed rows) :
    (frameFor spec key order rows member).rank
      = (Relation.companions key rows member.2).countP (fun other =>
          compareKeys (spec.order.map OrderSpec.descending) (order other) (order member.2) == .lt)
        + 1 := by
  have counted := (perm_frameFor spec key order rows member).countP_eq fun keys =>
    compareKeys (spec.order.map OrderSpec.descending) keys (order member.2) == .lt
  rw [List.countP_map, List.countP_map] at counted
  rw [Frame.rank_eq (length_of_mem_frameFor alike) (pairwise_frameFor alike)
    (current_frameFor spec key order h)]
  exact congrArg (· + 1) counted

end

end Windowed

/-! ## Queries -/

namespace InMemory

section

variable {env : Environment} {window : Expr} {spec : WindowSpec} {rows : List Row} {index : Nat}
  {row : Row} {key order : Row → List Value}

/-- The rank of a row is one more than the number of rows of its partition with lesser order keys. -/
theorem evaluate_rank (parsed : WindowSpec.parse (some window) = .ok spec)
    (seen : env.window = some (.source rows index)) (here : rows[index]? = some row)
    (keyed : ∀ row ∈ rows,
      evaluateAll interpretation.evaluate spec.partition (env.surround row) = .ok (key row))
    (ordered : ∀ row ∈ rows, evaluateAll interpretation.evaluate (spec.order.map OrderSpec.expr)
      (env.surround row) = .ok (order row)) :
    evaluateIn env (.list [.symbol "$over", .list [.symbol "$rank"], window])
      = .ok (PlainOperators.lengthValue
          ((Relation.companions key rows row).countP (fun other =>
            compareKeys (spec.order.map OrderSpec.descending) (order other) (order row) == .lt)
              + 1)) := by
  have inside : (index, row) ∈ Windowed.indexed rows :=
    List.mem_of_getElem? (Windowed.getElem?_indexed here)
  refine (evaluate_windowCall parsed seen inside keyed ordered (.list [.symbol "$rank"])).trans ?_
  refine (evaluate_call .rank rfl [] _).trans ?_
  rw [← Windowed.rank_frameFor (fun row hr => Interpretation.length_evaluateAll (ordered row hr))
    inside]
  rfl

/-- By a key that is an integer on every row a source is put in the order of the numbers, and ranked
by it, but for negative ones: of these the lesser are after the greater in sorting, though they
compare as less. -/
theorem sorts_integers (spec : OrderSpec) {env : Environment} {rows : List Row}
    {number : Row → Int64}
    (numbered : ∀ row ∈ rows,
      evaluateIn (env.surround row) spec.expr = .ok (.integer (number row))) :
    (∀ a b : Int64, collate (.integer a) (.integer b) = integerOrder a b ∧
      compareValues (.integer a) (.integer b) = .ok (some (compare a.toInt b.toInt))) ∧
    (∀ specList source, OrderSpec.parseList specList = .ok [spec] →
      Relation.sourceRows interpretation.evaluate source env = .ok rows →
      ∃ sorted, evaluateIn env (.list [.symbol "$order", specList, source]) = .ok (.rows sorted) ∧
        sorted.Perm rows ∧
        sorted.Pairwise (fun a b =>
          (directed spec.descending (integerOrder (number a) (number b))).isLE) ∧
        ∀ row ∈ rows, sorted.filter (number · == number row)
          = rows.filter (number · == number row)) ∧
    ∀ window w index row key, WindowSpec.parse (some window) = .ok w → w.order = [spec] →
      env.window = some (.source rows index) → rows[index]? = some row →
      (∀ row ∈ rows,
        evaluateAll interpretation.evaluate w.partition (env.surround row) = .ok (key row)) →
      evaluateIn env (.list [.symbol "$over", .list [.symbol "$rank"], window])
        = .ok (PlainOperators.lengthValue
            ((Relation.companions key rows row).countP (fun other =>
              directed spec.descending (integerOrder (number other) (number row)) == .lt) + 1)) := by
  have keyed : ∀ row ∈ rows, evaluateAll interpretation.evaluate ([spec].map OrderSpec.expr)
      (env.surround row) = .ok [.integer (number row)] := fun row hr => by
    have value : interpretation.evaluate spec.expr (env.surround row)
        = .ok (.integer (number row)) := numbered row hr
    simp only [evaluateAll, List.map_cons, List.map_nil, List.mapM_cons, List.mapM_nil, value]
    rfl
  have one : ∀ row ∈ rows, [Value.integer (number row)].length = 1 := fun _ _ => rfl
  refine ⟨fun a b => ⟨collate_integers a b, rfl⟩, fun specList source parsed sourced => ?_,
    fun window w index row key parsed single seen here partitioned => ?_⟩
  · refine ⟨_, (evaluate_call .order rfl [specList, source] env).trans
      (Relation.order_eq_ok parsed sourced keyed), Relation.ordered_perm .., ?_, fun row hr => ?_⟩
    · refine (Relation.pairwise_ordered one).imp fun before => ?_
      rwa [List.map_cons, List.map_nil, compareKeys_integers] at before
    · have level : ∀ other,
          (compareKeys [spec.descending] [.integer (number other)] [.integer (number row)] == .eq)
            = (number other == number row) := fun other => by
        rw [compareKeys_integers, Bool.eq_iff_iff, beq_iff_eq, beq_iff_eq, directed_eq_iff,
          integerOrder_eq_iff]
      have stable :=
        @Relation.ordered_stable [spec.descending] (fun row => [.integer (number row)]) rows row one
      simp only [level] at stable
      exact stable
  · have ranked := evaluate_rank parsed seen here partitioned (single.symm ▸ keyed)
    simpa only [single, List.map_cons, List.map_nil, compareKeys_integers] using ranked

/-- Two numbers in descending order, and the first of them ranked. -/
theorem sorts_two_integers :
    ∃ env rows sorted, rows.length = 2 ∧
      evaluateIn env (.list [.symbol "$order",
          .list [.record [("field", .symbol ":n"), ("direction", .symbol "desc")]],
          .quoted [.object [("n", .integer 10)], .object [("n", .integer (-5))]]])
        = .ok (.rows sorted) ∧
      sorted.Perm rows ∧
      evaluateIn env (.list [.symbol "$over", .list [.symbol "$rank"], .record [("order",
          .list [.record [("field", .symbol ":n"), ("direction", .symbol "desc")]])]])
        = .ok (.integer 1) := by
  let rows := [Row.single "" (.object [("n", .integer 10)]),
    Row.single "" (.object [("n", .integer (-5))])]
  let env : Environment := { environment [] (.list [.symbol ":n"]) with
    window := some (.source rows 0) }
  have numbered : ∀ row ∈ rows, evaluateIn (env.surround row) (.symbol ":n")
      = .ok (.integer ((row.lookup "n").asInt64?.getD 0)) := by
    simp only [rows, List.forall_mem_cons, List.not_mem_nil, false_implies, implies_true, and_true]
    exact ⟨rfl, rfl⟩
  obtain ⟨-, puts, ranks⟩ := sorts_integers ⟨.symbol ":n", true⟩ numbered
  obtain ⟨sorted, evaluated, perm, -⟩ := puts (.list [.record [("field", .symbol ":n"),
    ("direction", .symbol "desc")]])
    (.quoted [.object [("n", .integer 10)], .object [("n", .integer (-5))]]) rfl rfl
  refine ⟨env, rows, sorted, rfl, evaluated, perm, ?_⟩
  rw [ranks (.record [("order", .list [.record [("field", .symbol ":n"),
    ("direction", .symbol "desc")]])]) ⟨[], [⟨.symbol ":n", true⟩], none⟩ 0 _ (fun _ => []) rfl rfl
    rfl rfl fun _ _ => rfl]
  rfl

/-- The lesser of two negative numbers is the second, put in order. -/
theorem reverses_negatives :
    compareValues (.integer (-5)) (.integer (-3)) = .ok (some .lt) ∧
      collate (.integer (-5)) (.integer (-3)) = .gt ∧
      evaluate (.list [.symbol "$order", .list [.symbol ":n"],
          .quoted [.object [("n", .integer (-5))], .object [("n", .integer (-3))]]]) []
        = .ok (.array [.object [("n", .integer (-3))], .object [("n", .integer (-5))]]) :=
  ⟨rfl, collate_integers (-5) (-3), rfl⟩

end

end InMemory

end QueryForms
