import Mathlib.Data.Finset.Card
import QueryForms.Proofs.InMemory.Ordering

/-!
# Ranking

Every row makes the window order of its partition anew, but what the rows of a partition find are the
places of one list. So row numbers count a partition through, in window order
(`InMemory.rowNumbers_of_partition`).

The rank of a row is one more than the number of rows of its partition with lesser order keys, and its
dense rank one more than the number of classes of such keys, where level keys are of one class
(`InMemory.ranks_of_partition`). A dense rank counts how often the keys change on the way to the row.
In a list in order each change leaves a class behind (`classCount_next`), and the keys behind a place
are those less than its own.
-/

namespace QueryForms

open Interpretation (evaluateAll)

/-! ## Classes of keys -/

/-- Lists of as many keys are level if neither is less than the other. -/
def levelKeys (descending : List Bool) : Setoid (List Value) where
  r a b := a.length = b.length ∧ compareKeys descending a b = .eq
  iseqv := {
    refl := fun a => ⟨rfl, compareKeys_self descending a⟩
    symm := fun ⟨alike, level⟩ => ⟨alike.symm, by rw [← compareKeys_swap, level]; rfl⟩
    trans := fun ⟨alike, level⟩ ⟨alike', level'⟩ => by
      rw [compareKeys_eq_eq_iff] at level level'
      exact ⟨alike.trans alike', compareKeys_eq_eq_iff.2
        ⟨compareKeys_trans alike alike' level.1 level'.1,
          compareKeys_trans alike'.symm alike.symm level'.2 level.2⟩⟩ }

instance (descending : List Bool) : DecidableEq (Quotient (levelKeys descending)) :=
  @Quotient.decidableEq _ (levelKeys descending) fun a b =>
    inferInstanceAs (Decidable (a.length = b.length ∧ compareKeys descending a b = .eq))

/-- The classes that keys are of. -/
def classesOf (descending : List Bool) (keys : List (List Value)) :
    Finset (Quotient (levelKeys descending)) :=
  (keys.map (Quotient.mk (levelKeys descending))).toFinset

/-- How many classes keys are of. -/
def classCount (descending : List Bool) (keys : List (List Value)) : Nat :=
  (classesOf descending keys).card

/-- The keys that are less than some. -/
def lesserKeys (descending : List Bool) (own : List Value) (keys : List (List Value)) :
    List (List Value) :=
  keys.filter fun other => compareKeys descending other own == .lt

theorem mem_classesOf {descending : List Bool} {keys : List (List Value)}
    {c : Quotient (levelKeys descending)} :
    c ∈ classesOf descending keys ↔ ∃ k ∈ keys, Quotient.mk (levelKeys descending) k = c := by
  rw [classesOf, List.mem_toFinset, List.mem_map]

theorem classCount_perm {descending : List Bool} {keys others : List (List Value)}
    (same : keys.Perm others) : classCount descending keys = classCount descending others := by
  rw [classCount, classCount, classesOf, classesOf,
    List.toFinset_eq_of_perm _ _ (same.map (Quotient.mk (levelKeys descending)))]

theorem lesserKeys_perm {descending : List Bool} {own : List Value}
    {keys others : List (List Value)} (same : keys.Perm others) :
    (lesserKeys descending own keys).Perm (lesserKeys descending own others) :=
  same.filter _

section

variable {descending : List Bool} {list : List (List Value)} {keys : Nat}
  (alike : ∀ k ∈ list, k.length = keys)
  (sorted : list.Pairwise fun a b => (compareKeys descending a b).isLE)

include sorted

/-- In a list in order no item is less than one before it. -/
theorem isLE_of_getElem? {i j : Nat} {a b : List Value} (ha : list[i]? = some a)
    (hb : list[j]? = some b) (le : i ≤ j) : (compareKeys descending a b).isLE := by
  obtain ⟨hi, rfl⟩ := List.getElem?_eq_some_iff.1 ha
  obtain ⟨hj, rfl⟩ := List.getElem?_eq_some_iff.1 hb
  rcases Nat.lt_or_eq_of_le le with less | rfl
  · exact List.pairwise_iff_getElem.1 sorted i j hi hj less
  · rw [compareKeys_self]
    rfl

/-- Nothing in a list in order is less than its first item. -/
theorem lesserKeys_first {first : List Value} (here : list[0]? = some first) :
    lesserKeys descending first list = [] := by
  refine List.filter_eq_nil_iff.2 fun k hk less => ?_
  obtain ⟨i, there⟩ := List.mem_iff_getElem?.1 hk
  have le := isLE_of_getElem? sorted here there (Nat.zero_le i)
  exact compareKeys_eq_lt_iff.1 (eq_of_beq less) le

include alike

/-- In a list in order the classes less than an item are those less than the item before it, and the
class of that one unless the two are level. -/
theorem classCount_next {i : Nat} {a b : List Value} (ha : list[i]? = some a)
    (hb : list[i + 1]? = some b) :
    classCount descending (lesserKeys descending b list)
      = classCount descending (lesserKeys descending a list)
        + if compareKeys descending a b = .eq then 0 else 1 := by
  have memA := List.mem_of_getElem? ha
  have memB := List.mem_of_getElem? hb
  have sameLength : ∀ {k l : List Value}, k ∈ list → l ∈ list → k.length = l.length :=
    fun hk hl => (alike _ hk).trans (alike _ hl).symm
  have le := isLE_of_getElem? sorted ha hb (Nat.le_succ i)
  split
  · next level =>
    have back : (compareKeys descending b a).isLE := (compareKeys_eq_eq_iff.1 level).2
    have same : lesserKeys descending b list = lesserKeys descending a list := by
      refine List.filter_congr fun k hk => ?_
      rw [Bool.eq_iff_iff, beq_iff_eq, beq_iff_eq]
      constructor
      · intro less
        exact compareKeys_lt_of_lt_of_isLE (sameLength hk memB) (sameLength memB memA) less back
      · intro less
        exact compareKeys_lt_of_lt_of_isLE (sameLength hk memA) (sameLength memA memB) less le
    rw [same, Nat.add_zero]
  · next differ =>
    have less : compareKeys descending a b = .lt := by
      rw [compareKeys_eq_lt_iff]
      exact fun back => differ (compareKeys_eq_eq_iff.2 ⟨le, back⟩)
    have added : classesOf descending (lesserKeys descending b list)
        = insert (Quotient.mk (levelKeys descending) a)
            (classesOf descending (lesserKeys descending a list)) := by
      ext c
      rw [Finset.mem_insert, mem_classesOf, mem_classesOf]
      constructor
      · rintro ⟨k, hk, rfl⟩
        obtain ⟨inside, before⟩ := List.mem_filter.1 hk
        obtain ⟨j, there⟩ := List.mem_iff_getElem?.1 inside
        -- a lesser item stands before the second, so not after the first
        have earlier : j ≤ i := by
          by_contra later
          exact compareKeys_eq_lt_iff.1 (eq_of_beq before)
            (isLE_of_getElem? sorted hb there (by omega))
        have leA := isLE_of_getElem? sorted there ha earlier
        by_cases back : (compareKeys descending a k).isLE
        · exact .inl (Quotient.sound
            ⟨sameLength inside memA, compareKeys_eq_eq_iff.2 ⟨leA, back⟩⟩)
        · exact .inr ⟨k, List.mem_filter.2 ⟨inside, beq_iff_eq.2 (compareKeys_eq_lt_iff.2 back)⟩, rfl⟩
      · rintro (rfl | ⟨k, hk, rfl⟩)
        · exact ⟨a, List.mem_filter.2 ⟨memA, beq_iff_eq.2 less⟩, rfl⟩
        · obtain ⟨inside, before⟩ := List.mem_filter.1 hk
          exact ⟨k, List.mem_filter.2 ⟨inside, beq_iff_eq.2 (compareKeys_lt_of_lt_of_isLE
            (sameLength inside memA) (sameLength memA memB) (eq_of_beq before) le)⟩, rfl⟩
    have fresh : Quotient.mk (levelKeys descending) a
        ∉ classesOf descending (lesserKeys descending a list) := by
      rw [mem_classesOf]
      rintro ⟨k, hk, same⟩
      have level : k.length = a.length ∧ compareKeys descending k a = .eq := Quotient.exact same
      have before := eq_of_beq (List.mem_filter.1 hk).2
      rw [level.2] at before
      cases before
    rw [classCount, added, Finset.card_insert_of_notMem fresh, classCount]

end

namespace Frame

section

variable {f : Frame} {keys : Nat} (alike : ∀ item ∈ f.partition, item.1.length = keys)
  (sorted : f.partition.Pairwise (KeysLE f.descending))

include alike sorted

/-- The keys change on the way to a row as often as there are classes of lesser keys. -/
theorem countP_changes {i : Nat} {item : List Value × Row} (here : f.partition[i]? = some item) :
    (List.range i).countP (fun j => !f.peers j (j + 1))
      = classCount f.descending
          (lesserKeys f.descending item.1 (f.partition.map Prod.fst)) := by
  have sorted' : (f.partition.map Prod.fst).Pairwise
      fun a b => (compareKeys f.descending a b).isLE := List.pairwise_map.2 sorted
  have keysOf : ∀ {i : Nat} {item : List Value × Row}, f.partition[i]? = some item →
      (f.partition.map Prod.fst)[i]? = some item.1 := fun there => by
    rw [List.getElem?_map, there]
    rfl
  have keysAt : ∀ {i : Nat} {item : List Value × Row}, f.partition[i]? = some item →
      f.keysAt i = item.1 := fun there => by
    rw [Frame.keysAt, there]
    rfl
  induction i generalizing item with
  | zero =>
    rw [lesserKeys_first sorted' (keysOf here)]
    rfl
  | succ i ih =>
    obtain ⟨bound, -⟩ := List.getElem?_eq_some_iff.1 here
    obtain ⟨last, before⟩ : ∃ last, f.partition[i]? = some last :=
      ⟨_, List.getElem?_eq_getElem (Nat.lt_of_succ_lt bound)⟩
    rw [List.range_succ, List.countP_append, ih before,
      classCount_next (List.forall_mem_map.2 alike) sorted' (keysOf before) (keysOf here),
      List.countP_singleton, Frame.peers, keysAt before, keysAt here]
    by_cases level : compareKeys f.descending last.1 item.1 = .eq
    · simp [level]
    · simp [level]

/-- The dense rank of a row is one more than the number of classes of lesser keys. -/
theorem denseRank_eq {own : List Value} {row : Row}
    (here : f.partition[f.position]? = some (own, row)) :
    f.denseRank
      = classCount f.descending (lesserKeys f.descending own (f.partition.map Prod.fst)) + 1 := by
  rw [Frame.denseRank, countP_changes alike sorted here, Nat.add_comm]

end

end Frame

/-- The dense rank of a row is one more than the number of classes of lesser keys in its partition. -/
theorem Windowed.denseRank_frameFor {spec : WindowSpec} {key order : Row → List Value}
    {rows : List Row} {member : Nat × Row} {keys : Nat}
    (alike : ∀ row ∈ rows, (order row).length = keys) (h : member ∈ indexed rows) :
    (frameFor spec key order rows member).denseRank
      = classCount (spec.order.map OrderSpec.descending)
          (lesserKeys (spec.order.map OrderSpec.descending) (order member.2)
            ((Relation.companions key rows member.2).map order)) + 1 := by
  rw [Frame.denseRank_eq (length_of_mem_frameFor alike) (pairwise_frameFor alike)
    (current_frameFor spec key order h)]
  exact congrArg (· + 1)
    (classCount_perm (lesserKeys_perm (perm_frameFor spec key order rows member)))

/-! ## Queries -/

namespace InMemory

section

variable {env : Environment} {window : Expr} {spec : WindowSpec} {rows : List Row}
  {key order : Row → List Value}

/-- The row numbers of the rows of a projection. Over the rows of a partition they count from one
through the number of its rows, and of two rows in a partition the one has the lesser number that
precedes the other in window order: whose order keys are less in the directions of the window, or
level, and which stands before the other in the source. -/
theorem rowNumbers_of_partition (parsed : WindowSpec.parse (some window) = .ok spec)
    (free : ∀ e ∈ spec.partition ++ spec.order.map OrderSpec.expr, e.Windowless)
    (keyed : ∀ row ∈ rows,
      evaluateAll interpretation.evaluate spec.partition (env.surround row) = .ok (key row))
    (ordered : ∀ row ∈ rows, evaluateAll interpretation.evaluate (spec.order.map OrderSpec.expr)
      (env.surround row) = .ok (order row)) :
    ∃ number : Nat × Row → Nat,
      (∀ member ∈ Windowed.indexed rows, evaluateIn (Relation.rowScope env rows true member)
          (.windowCall (.list [.symbol "$row_number"]) window)
        = .ok (PlainOperators.lengthValue (number member))) ∧
      (∀ source, Relation.sourceRows interpretation.evaluate source env = .ok rows → ∀ name,
        evaluateIn env
            (.selectAs name (.windowCall (.list [.symbol "$row_number"]) window) source)
          = .ok (.array ((Windowed.indexed rows).map fun member =>
              .object [(name, PlainOperators.lengthValue (number member))]))) ∧
      (∀ row ∈ rows, ((Windowed.partition key rows row).map number).Perm
        (List.range' 1 (Windowed.partition key rows row).length)) ∧
      ∀ a ∈ Windowed.indexed rows, ∀ b ∈ Windowed.indexed rows,
        Relation.keyText key a.2 = Relation.keyText key b.2 →
          (number a < number b ↔
            compareKeys (spec.order.map OrderSpec.descending) (order a.2) (order b.2) = .lt ∨
              compareKeys (spec.order.map OrderSpec.descending) (order a.2) (order b.2) = .eq ∧
                a.1 < b.1) := by
  have called : ∀ member ∈ Windowed.indexed rows,
      evaluateIn (Relation.rowScope env rows true member)
          (.windowCall (.list [.symbol "$row_number"]) window)
        = .ok (PlainOperators.lengthValue (Windowed.place spec key order rows member + 1)) :=
    fun member hm =>
      (evaluate_windowCall_of_windowless parsed free hm keyed ordered
          (.list [.symbol "$row_number"])).trans
        (evaluate_call .rowNumber rfl [] _)
  refine ⟨fun member => Windowed.place spec key order rows member + 1, called,
    fun source sourced => evaluate_selectAs_windowCall called sourced, fun row hr => ?_,
    fun a ha b hb same => ?_⟩
  · -- along the listing in window order the places are counted through
    have perm := Windowed.placed_perm spec key order rows row
    have counted : (Windowed.placed spec key order rows row).map
        (fun member => Windowed.place spec key order rows member + 1)
          = List.range' 1 (Windowed.placed spec key order rows row).length := by
      refine List.ext_getElem (by simp) fun i hi _ => ?_
      rw [List.length_map] at hi
      rw [List.getElem_map, List.getElem_range',
        Windowed.place_of_getElem? (List.getElem?_eq_getElem hi)]
      omega
    rw [← perm.length_eq, ← counted]
    exact perm.symm.map _
  · exact Nat.succ_lt_succ_iff.trans (Windowed.place_lt_iff
      (fun row hr => Interpretation.length_evaluateAll (ordered row hr)) ha hb same)

/-- Four records in two partitions by letter, in descending order of their numbers. In the first
partition the second record comes first, and the last one, level with the first, after it. -/
theorem rowNumbers_of_letters :
    ∃ (rows : List Row) (number : Nat × Row → Nat),
      evaluateIn (Environment.ofContext []) (.selectAs "x"
          (.windowCall (.list [.symbol "$row_number"])
            (.record [("partition", .list [.symbol ":k"]), ("order", .list [
              .record [("field", .symbol ":n"), ("direction", .symbol "desc")]])]))
          (.quoted [.object [("k", .string "a"), ("n", .integer 7)],
            .object [("k", .string "a"), ("n", .integer 8)],
            .object [("k", .string "b"), ("n", .integer 9)],
            .object [("k", .string "a"), ("n", .integer 7)]]))
        = .ok (.array ((Windowed.indexed rows).map fun member =>
            .object [("x", PlainOperators.lengthValue (number member))])) ∧
      ∃ a b c d, Windowed.indexed rows = [a, b, c, d] ∧ number b < number a ∧
        number a < number d := by
  let rows := [Row.single "" (.object [("k", .string "a"), ("n", .integer 7)]),
    .single "" (.object [("k", .string "a"), ("n", .integer 8)]),
    .single "" (.object [("k", .string "b"), ("n", .integer 9)]),
    .single "" (.object [("k", .string "a"), ("n", .integer 7)])]
  have free : ∀ e ∈ [Expr.symbol ":k"] ++ [⟨.symbol ":n", true⟩].map OrderSpec.expr,
      e.Windowless := by
    simp only [List.map_cons, List.map_nil, List.cons_append, List.nil_append,
      List.forall_mem_cons, List.not_mem_nil, false_implies, implies_true, and_true]
    exact ⟨Expr.Everywhere.symbol_iff.2 nofun, Expr.Everywhere.symbol_iff.2 nofun⟩
  have keyed : ∀ row ∈ rows, evaluateAll interpretation.evaluate [.symbol ":k"]
      ((Environment.ofContext []).surround row) = .ok [row.lookup "k"] := by
    simp only [rows, List.forall_mem_cons, List.not_mem_nil, false_implies, implies_true, and_true]
    exact ⟨rfl, rfl, rfl, rfl⟩
  have ordered : ∀ row ∈ rows, evaluateAll interpretation.evaluate
      ([⟨.symbol ":n", true⟩].map OrderSpec.expr)
      ((Environment.ofContext []).surround row) = .ok [row.lookup "n"] := by
    simp only [rows, List.forall_mem_cons, List.not_mem_nil, false_implies, implies_true, and_true]
    exact ⟨rfl, rfl, rfl, rfl⟩
  have parsed : WindowSpec.parse (some (.record [("partition", .list [.symbol ":k"]),
      ("order", .list [.record [("field", .symbol ":n"), ("direction", .symbol "desc")]])]))
        = .ok ⟨[.symbol ":k"], [⟨.symbol ":n", true⟩], none⟩ := rfl
  obtain ⟨number, -, values, -, less⟩ := rowNumbers_of_partition parsed free keyed ordered
  refine ⟨rows, number, values (.quoted [.object [("k", .string "a"), ("n", .integer 7)],
    .object [("k", .string "a"), ("n", .integer 8)],
    .object [("k", .string "b"), ("n", .integer 9)],
    .object [("k", .string "a"), ("n", .integer 7)]]) rfl "x", _, _, _, _, rfl, ?_, ?_⟩
  · exact (less _ (.tail _ (.head _)) _ (.head _) rfl).2 (.inl rfl)
  · exact (less _ (.head _) _ (.tail _ (.tail _ (.tail _ (.head _)))) rfl).2
      (.inr ⟨rfl, by decide⟩)

/-- The ranks of the rows of a projection. The rank of a row is one more than the number of rows of its
partition with order keys less than its own in the directions of the window, and the dense rank one
more than the number of classes of these keys. Both are the same whatever the order in which the rows
are shown. -/
theorem ranks_of_partition (parsed : WindowSpec.parse (some window) = .ok spec)
    (free : ∀ e ∈ spec.partition ++ spec.order.map OrderSpec.expr, e.Windowless)
    (keyed : ∀ row ∈ rows,
      evaluateAll interpretation.evaluate spec.partition (env.surround row) = .ok (key row))
    (ordered : ∀ row ∈ rows, evaluateAll interpretation.evaluate (spec.order.map OrderSpec.expr)
      (env.surround row) = .ok (order row)) :
    ∃ rank dense : Row → Nat,
      (∀ row ∈ rows, rank row = (Relation.companions key rows row).countP (fun other =>
        compareKeys (spec.order.map OrderSpec.descending) (order other) (order row) == .lt) + 1) ∧
      (∀ row ∈ rows, dense row = classCount (spec.order.map OrderSpec.descending)
        (lesserKeys (spec.order.map OrderSpec.descending) (order row)
          ((Relation.companions key rows row).map order)) + 1) ∧
      ∀ shown : List Row, shown.Perm rows →
        (∀ member ∈ Windowed.indexed shown,
          evaluateIn (Relation.rowScope env shown true member)
              (.windowCall (.list [.symbol "$rank"]) window)
            = .ok (PlainOperators.lengthValue (rank member.2)) ∧
          evaluateIn (Relation.rowScope env shown true member)
              (.windowCall (.list [.symbol "$dense_rank"]) window)
            = .ok (PlainOperators.lengthValue (dense member.2))) ∧
        ∀ source, Relation.sourceRows interpretation.evaluate source env = .ok shown → ∀ name,
          evaluateIn env (.selectAs name (.windowCall (.list [.symbol "$rank"]) window) source)
            = .ok (.array (shown.map fun row =>
                .object [(name, PlainOperators.lengthValue (rank row))])) ∧
          evaluateIn env
              (.selectAs name (.windowCall (.list [.symbol "$dense_rank"]) window) source)
            = .ok (.array (shown.map fun row =>
                .object [(name, PlainOperators.lengthValue (dense row))])) := by
  refine ⟨_, _, fun _ _ => rfl, fun _ _ => rfl, fun shown reordered => ?_⟩
  have keyed' := fun row hr => keyed row (reordered.mem_iff.1 hr)
  have ordered' := fun row hr => ordered row (reordered.mem_iff.1 hr)
  have alike : ∀ row ∈ shown, (order row).length = (spec.order.map OrderSpec.expr).length :=
    fun row hr => Interpretation.length_evaluateAll (ordered' row hr)
  have companions : ∀ row, (Relation.companions key shown row).Perm
      (Relation.companions key rows row) := fun row => reordered.filter _
  have ranked : ∀ member ∈ Windowed.indexed shown,
      evaluateIn (Relation.rowScope env shown true member)
          (.windowCall (.list [.symbol "$rank"]) window)
        = .ok (PlainOperators.lengthValue ((Relation.companions key rows member.2).countP
            (fun other => compareKeys (spec.order.map OrderSpec.descending) (order other)
              (order member.2) == .lt) + 1)) := fun member hm => by
    refine (evaluate_windowCall_of_windowless parsed free hm keyed' ordered'
      (.list [.symbol "$rank"])).trans ((evaluate_call .rank rfl [] _).trans ?_)
    rw [← (companions member.2).countP_eq, ← Windowed.rank_frameFor alike hm]
    rfl
  have denselyRanked : ∀ member ∈ Windowed.indexed shown,
      evaluateIn (Relation.rowScope env shown true member)
          (.windowCall (.list [.symbol "$dense_rank"]) window)
        = .ok (PlainOperators.lengthValue (classCount (spec.order.map OrderSpec.descending)
            (lesserKeys (spec.order.map OrderSpec.descending) (order member.2)
              ((Relation.companions key rows member.2).map order)) + 1)) := fun member hm => by
    refine (evaluate_windowCall_of_windowless parsed free hm keyed' ordered'
      (.list [.symbol "$dense_rank"])).trans ((evaluate_call .denseRank rfl [] _).trans ?_)
    rw [← classCount_perm (lesserKeys_perm ((companions member.2).map order)),
      ← Windowed.denseRank_frameFor alike hm]
    rfl
  have listed : ∀ (name : String) (value : Row → Value), (Windowed.indexed shown).map
      (fun member => Value.object [(name, value member.2)])
        = shown.map fun row => .object [(name, value row)] := fun name value => by
    conv_rhs => rw [← Windowed.map_snd_indexed shown, List.map_map]
    rfl
  refine ⟨fun member hm => ⟨ranked member hm, denselyRanked member hm⟩,
    fun source sourced name => ?_⟩
  rw [← listed, ← listed]
  exact ⟨evaluate_selectAs_windowCall ranked sourced name,
    evaluate_selectAs_windowCall denselyRanked sourced name⟩

/-- Three records, the last two of them level. -/
theorem ranks_of_numbers :
    evaluateIn (Environment.ofContext []) (.selectAs "x" (.windowCall (.list [.symbol "$rank"])
        (.record [("order", .list [.symbol ":n"])]))
        (.quoted [.object [("n", .integer 8)], .object [("n", .integer 7)],
          .object [("n", .integer 7)]]))
      = .ok (.array [.object [("x", .integer 3)], .object [("x", .integer 1)],
          .object [("x", .integer 1)]]) ∧
    evaluateIn (Environment.ofContext []) (.selectAs "x" (.windowCall (.list [.symbol "$dense_rank"])
        (.record [("order", .list [.symbol ":n"])]))
        (.quoted [.object [("n", .integer 8)], .object [("n", .integer 7)],
          .object [("n", .integer 7)]]))
      = .ok (.array [.object [("x", .integer 2)], .object [("x", .integer 1)],
          .object [("x", .integer 1)]]) := by
  let less := Row.single "" (.object [("n", .integer 7)])
  let greater := Row.single "" (.object [("n", .integer 8)])
  have free : ∀ e ∈ [] ++ [⟨.symbol ":n", false⟩].map OrderSpec.expr, e.Windowless :=
    List.forall_mem_singleton.2 (Expr.Everywhere.symbol_iff.2 nofun)
  have ordered : ∀ row ∈ [less, greater, less], evaluateAll interpretation.evaluate
      ([⟨.symbol ":n", false⟩].map OrderSpec.expr)
      ((Environment.ofContext []).surround row) = .ok [row.lookup "n"] := by
    simp only [List.forall_mem_cons, List.not_mem_nil, false_implies, implies_true, and_true]
    exact ⟨rfl, rfl, rfl⟩
  have keyed : ∀ row ∈ [less, greater, less], evaluateAll interpretation.evaluate []
      ((Environment.ofContext []).surround row) = .ok [] := fun _ _ => rfl
  have parsed : WindowSpec.parse (some (.record [("order", .list [.symbol ":n"])]))
      = .ok ⟨[], [⟨.symbol ":n", false⟩], none⟩ := rfl
  have sourced : Relation.sourceRows interpretation.evaluate (.quoted [.object [("n", .integer 8)],
      .object [("n", .integer 7)], .object [("n", .integer 7)]]) (Environment.ofContext [])
        = .ok [greater, less, less] := rfl
  obtain ⟨rank, dense, ranks, denseRanks, shows⟩ := ranks_of_partition parsed free keyed ordered
  obtain ⟨ranked, denselyRanked⟩ := (shows _ (.swap less greater [less])).2 _ sourced "x"
  have lookups : less.lookup "n" = .integer 7 ∧ greater.lookup "n" = .integer 8 := ⟨rfl, rfl⟩
  simp only [List.forall_mem_cons, Relation.companions_nil, List.countP_cons, List.countP_nil,
    List.map_cons, List.map_nil, lookups] at ranks denseRanks
  have ofLess : rank less = 1 ∧ dense less = 1 := ⟨ranks.1, denseRanks.1⟩
  have ofGreater : rank greater = 3 ∧ dense greater = 2 := ⟨ranks.2.1, denseRanks.2.1⟩
  simp only [List.map_cons, List.map_nil, ofLess, ofGreater] at ranked denselyRanked
  exact ⟨ranked, denselyRanked⟩

end

end InMemory

end QueryForms
