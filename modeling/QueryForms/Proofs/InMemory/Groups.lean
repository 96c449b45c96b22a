import Mathlib.Data.List.Basic
import QueryForms.Proofs.Equality
import QueryForms.Proofs.Json.Exact
import QueryForms.Proofs.Levels

/-!
# Groups

A source is cut into groups by the text of the keys: `Gathered` says what that means for any items
and any text, and `gathered_gatherBy` that gathering does it. So `group_of_source`: the groups of a
source share out its rows, and two rows are in one group exactly if their keys have one JSON text,
which for keys of exact values is to say that they have the same keys. Whether the keys are equal is
another question (`groups_unlike_equality`), as the text and equality forget different things of a
key; the answers are one where two keys differ in none of these (`group_of_equal_keys`).
-/

namespace QueryForms

/-! ## Items with one text -/

section Gathering

variable {α β : Type}

/-- Items gathered by their text, in the order of first occurrence. -/
def gatherBy (text : α → String) (items : List α) : List (List α) :=
  (items.map text).eraseDups.map fun id => items.filter fun item => text item == id

/-- Parts that share out items by their text. -/
structure Gathered (text : α → String) (items : List α) (parts : List (List α)) : Prop where
  /-- Every item is in a part as often as it is an item, and nothing else is. -/
  perm : parts.flatten.Perm items
  /-- No part is empty. -/
  nonempty : ∀ part ∈ parts, part ≠ []
  /-- The items of a part come in their order. -/
  ordered : ∀ part ∈ parts, part.Sublist items
  /-- The parts come in the order of their first items. -/
  firsts : (parts.filterMap List.head?).Sublist items
  /-- Two items are in one part exactly if they have one text. -/
  shared : ∀ a ∈ items, ∀ b ∈ items, (∃ part ∈ parts, a ∈ part ∧ b ∈ part) ↔ text a = text b

/-- The first item is gathered with all items of its text, and the others among themselves. -/
theorem gatherBy_cons (text : α → String) (item : α) (rest : List α) :
    gatherBy text (item :: rest)
      = (item :: rest.filter fun other => text other == text item) ::
        gatherBy text (rest.filter fun other => !(text other == text item)) := by
  have others : (rest.map text).filter (fun id => !(id == text item))
      = (rest.filter fun other => !(text other == text item)).map text := List.filter_map
  rw [gatherBy, List.map_cons, List.eraseDups_cons, others, List.map_cons, gatherBy]
  congr 1
  · rw [List.filter_cons_of_pos (by simp)]
  · refine List.map_congr_left fun id hid => ?_
    obtain ⟨other, inside, rfl⟩ := List.mem_map.1 (List.mem_eraseDups.1 hid)
    have differs : text item ≠ text other := by
      have := (List.mem_filter.1 inside).2
      intro same
      simp [same] at this
    rw [List.filter_cons_of_neg (by simpa using differs), List.filter_filter]
    refine List.filter_congr fun x _ => ?_
    by_cases same : text x = text other
    · simp [same, differs.symm]
    · simp [same]

theorem shared_gatherBy (text : α → String) {items : List α} {a b : α} (ha : a ∈ items)
    (hb : b ∈ items) :
    (∃ part ∈ gatherBy text items, a ∈ part ∧ b ∈ part) ↔ text a = text b := by
  constructor
  · rintro ⟨part, hp, inA, inB⟩
    obtain ⟨id, -, rfl⟩ := List.mem_map.1 hp
    have := (List.mem_filter.1 inA).2
    have := (List.mem_filter.1 inB).2
    simp_all
  · intro same
    refine ⟨_, List.mem_map_of_mem (List.mem_eraseDups.2 (List.mem_map_of_mem ha)), ?_⟩
    exact ⟨List.mem_filter.2 ⟨ha, by simp⟩, List.mem_filter.2 ⟨hb, by simp [same]⟩⟩

/-- Gathering shares out the items. -/
theorem gathered_gatherBy (text : α → String) (items : List α) :
    Gathered text items (gatherBy text items) := by
  -- what is gathered after the first part are fewer items
  induction length : items.length using Nat.strongRecOn generalizing items with
  | ind n ih =>
    cases items with
    | nil =>
      exact ⟨.nil, fun _ h => absurd h List.not_mem_nil, fun _ h => absurd h List.not_mem_nil,
        .slnil, fun _ h => absurd h List.not_mem_nil⟩
    | cons item rest =>
      have later := ih _ (length ▸ Nat.lt_succ_of_le (List.length_filter_le _ rest)) _
        (rfl : (rest.filter fun other => !(text other == text item)).length = _)
      have inside : (rest.filter fun other => !(text other == text item)).Sublist rest :=
        List.filter_sublist
      have cut := gatherBy_cons text item rest
      refine ⟨?_, ?_, ?_, ?_, fun a ha b hb => shared_gatherBy text ha hb⟩
      · rw [cut, List.flatten_cons, List.cons_append]
        refine .cons item (.trans (.append_left _ later.perm) ?_)
        exact List.filter_append_perm (fun other => text other == text item) rest
      · rw [cut]
        exact List.forall_mem_cons.2 ⟨List.cons_ne_nil _ _, later.nonempty⟩
      · rw [cut]
        refine List.forall_mem_cons.2 ⟨List.filter_sublist.cons_cons item, fun part hp => ?_⟩
        exact .cons item ((later.ordered part hp).trans inside)
      · rw [cut, List.filterMap_cons]
        exact (later.firsts.trans inside).cons_cons item

/-- What is gathered by the text of something else. -/
theorem gatherBy_map (text : β → String) (f : α → β) (items : List α) :
    gatherBy text (items.map f) = (gatherBy (text ∘ f) items).map (List.map f) := by
  rw [gatherBy, gatherBy, List.map_map, List.map_map]
  exact List.map_congr_left fun id _ => List.filter_map

end Gathering

/-! ## Rows with their places -/

namespace Windowed

theorem map_snd_indexed (rows : List Row) : (indexed rows).map Prod.snd = rows :=
  List.map_snd_zip (by simp)

theorem length_indexed (rows : List Row) : (indexed rows).length = rows.length := by
  rw [← List.length_map Prod.snd, map_snd_indexed]

/-- A row stands at its own index. -/
theorem getElem?_indexed {rows : List Row} {i : Nat} {row : Row} (here : rows[i]? = some row) :
    (indexed rows)[i]? = some (i, row) := by
  obtain ⟨inside, -⟩ := List.getElem?_eq_some_iff.1 here
  exact List.getElem?_zip_eq_some.2 ⟨List.getElem?_range inside, here⟩

theorem getElem?_of_mem_indexed {rows : List Row} {member : Nat × Row}
    (h : member ∈ indexed rows) : rows[member.1]? = some member.2 := by
  obtain ⟨i, here⟩ := List.mem_iff_getElem?.1 h
  obtain ⟨index, row⟩ := List.getElem?_zip_eq_some.1 here
  obtain ⟨inside, index⟩ := List.getElem?_eq_some_iff.1 index
  rwa [← index, List.getElem_range]

theorem eq_of_mem_indexed {rows : List Row} {a b : Nat × Row} (ha : a ∈ indexed rows)
    (hb : b ∈ indexed rows) (same : a.1 = b.1) : a = b := by
  have row := getElem?_of_mem_indexed ha
  rw [same, getElem?_of_mem_indexed hb] at row
  exact Prod.ext same (Option.some.inj row).symm

/-- Rows are listed by index. -/
theorem pairwise_indexed (rows : List Row) : (indexed rows).Pairwise fun a b => a.1 < b.1 := by
  have range : (indexed rows).map Prod.fst = List.range rows.length :=
    List.map_fst_zip (by rw [List.length_range])
  exact List.pairwise_map.1 (range ▸ List.pairwise_lt_range)

end Windowed

namespace Relation

/-- The text that tells apart the groups of rows. -/
def keyText (key : Row → List Value) (row : Row) : String :=
  (Value.array (key row)).jsonText

/-- A row with the values of its keys. -/
def keyedRow (key : Row → List Value) (row : Row) : Keyed :=
  ⟨keyText key row, key row, row⟩

/-- The groups of rows: a row for each of the parts that their keys share them out into. -/
def groupsOf (names : List String) (key : Row → List Value) (rows : List Row) : List Row :=
  (gatherBy (keyText key) rows).map fun part => groupRow names (part.map (keyedRow key))

theorem members_groupRow (names : List String) (key : Row → List Value) (part : List Row) :
    (groupRow names (part.map (keyedRow key))).members = part := by
  show (part.map (keyedRow key)).map Keyed.row = part
  rw [List.map_map]
  exact List.map_id part

/-- The members of the groups are the parts. -/
theorem members_groupsOf (names : List String) (key : Row → List Value) (rows : List Row) :
    (groupsOf names key rows).map Row.members = gatherBy (keyText key) rows := by
  rw [groupsOf, List.map_map]
  exact (List.map_congr_left fun part _ => members_groupRow names key part).trans (List.map_id _)

/-- The rows with the text of a row's keys. -/
def companions (key : Row → List Value) (rows : List Row) (row : Row) : List Row :=
  rows.filter fun other => keyText key other == keyText key row

/-- Without keys all rows have one text. -/
theorem companions_nil (rows : List Row) (row : Row) : companions (fun _ => []) rows row = rows :=
  List.filter_eq_self.2 fun _ _ => beq_self_eq_true _

/-- The group that a row belongs to. -/
def groupFor (names : List String) (key : Row → List Value) (rows : List Row) (row : Row) : Row :=
  groupRow names ((companions key rows row).map (keyedRow key))

theorem members_groupFor (names : List String) (key : Row → List Value) (rows : List Row)
    (row : Row) : (groupFor names key rows row).members = companions key rows row :=
  members_groupRow ..

/-- A row belongs to a group, and is one of its members. -/
theorem mem_groupFor (names : List String) (key : Row → List Value) {rows : List Row} {row : Row}
    (h : row ∈ rows) :
    groupFor names key rows row ∈ groupsOf names key rows ∧
      row ∈ (groupFor names key rows row).members := by
  rw [members_groupFor]
  refine ⟨List.mem_map_of_mem (List.mem_map_of_mem ?_), List.mem_filter.2 ⟨h, beq_self_eq_true _⟩⟩
  exact List.mem_eraseDups.2 (List.mem_map_of_mem h)

/-- A group with a row among its members is the one that the row belongs to. -/
theorem eq_groupFor {names : List String} {key : Row → List Value} {rows : List Row}
    {row group : Row} (hg : group ∈ groupsOf names key rows) (hm : row ∈ group.members) :
    group = groupFor names key rows row := by
  obtain ⟨part, hp, rfl⟩ := List.mem_map.1 hg
  obtain ⟨id, -, rfl⟩ := List.mem_map.1 hp
  rw [members_groupRow] at hm
  have text : keyText key row = id := by simpa using (List.mem_filter.1 hm).2
  rw [groupFor, companions, text]

section

variable {eval : Evaluator} {keyList e : Expr} {env : Environment} {rows : List Row}
  {key : Row → List Value}

/-- The rows with their keys where every key has a value on every row. -/
theorem keyRows_eq_ok {keys : List Expr}
    (keyed : ∀ row ∈ rows, Interpretation.evaluateAll eval keys (env.surround row) = .ok (key row)) :
    keyRows eval keys env rows = .ok (rows.map (keyedRow key)) := by
  refine mapM_eq_ok fun row hm => ?_
  rw [keyed row hm]
  rfl

/-- Rows are grouped if every key has a value on every row. -/
theorem group_eq_ok (source : sourceRows eval e env = .ok rows)
    (keyed : ∀ row ∈ rows,
      Interpretation.evaluateAll eval keyList.itemsOrNone (env.surround row) = .ok (key row)) :
    group eval [keyList, e] env
      = .ok (.rows (groupsOf (keyList.itemsOrNone.map (groupKeyName env)) key rows)) := by
  have gathered : gather (rows.map (keyedRow key))
      = (gatherBy (keyText key) rows).map (List.map (keyedRow key)) :=
    gatherBy_map Keyed.id (keyedRow key) rows
  simp only [group, clauseOperands, bind, Except.bind, source, keyRows_eq_ok keyed, gathered,
    List.map_map, groupsOf]
  rfl

end

end Relation

/-! ## The groups of a source -/

namespace InMemory

section

variable {env : Environment} {keyList e : Expr} {rows : List Row} {key : Row → List Value}

/-- The groups of a source whose keys all have a value on every row are the parts of its rows. -/
theorem evaluate_group (source : Relation.sourceRows interpretation.evaluate e env = .ok rows)
    (keyed : ∀ row ∈ rows, Interpretation.evaluateAll interpretation.evaluate keyList.itemsOrNone
      (env.surround row) = .ok (key row)) :
    ∃ groups parts, evaluateIn env (.list [.symbol "$group", keyList, e]) = .ok (.rows groups) ∧
      groups.map Row.members = parts.map (List.map Prod.snd) ∧
      Gathered (fun member => (Value.array (key member.2)).jsonText) (Windowed.indexed rows)
        parts := by
  refine ⟨_, gatherBy (Relation.keyText key ∘ Prod.snd) (Windowed.indexed rows),
    (evaluate_call .group rfl [keyList, e] env).trans (Relation.group_eq_ok source keyed), ?_,
    gathered_gatherBy _ _⟩
  rw [Relation.members_groupsOf, ← gatherBy_map, Windowed.map_snd_indexed]

/-- Lists of exact values have one text only if they are the same. -/
theorem jsonText_array_inj {keys others : List Value} (exact : ∀ v ∈ keys, v.Exact)
    (exact' : ∀ v ∈ others, v.Exact) :
    (Value.array keys).jsonText = (Value.array others).jsonText ↔ keys = others := by
  rw [Value.jsonText_inj (Value.Everywhere.array_iff.2 ⟨rfl, exact⟩)
    (Value.Everywhere.array_iff.2 ⟨rfl, exact'⟩), Value.array.injEq]

/-- A source whose keys all have a value on every row falls into groups. They share out its rows, in
their order and in the order of first members; two rows are in one group exactly if their keys have
one JSON text; and for keys of exact values that is exactly if their keys are the same, the order of
fields in a record included. -/
theorem group_of_source
    (source : Relation.sourceRows interpretation.evaluate e env = .ok rows)
    (keyed : ∀ row ∈ rows, Interpretation.evaluateAll interpretation.evaluate keyList.itemsOrNone
      (env.surround row) = .ok (key row)) :
    ∃ groups parts, evaluateIn env (.list [.symbol "$group", keyList, e]) = .ok (.rows groups) ∧
      groups.map Row.members = parts.map (List.map Prod.snd) ∧
      (groups.flatMap Row.members).Perm rows ∧
      Gathered (fun member => (Value.array (key member.2)).jsonText) (Windowed.indexed rows) parts ∧
      ∀ a ∈ Windowed.indexed rows, ∀ b ∈ Windowed.indexed rows,
        (∀ v ∈ key a.2, v.Exact) → (∀ v ∈ key b.2, v.Exact) →
          ((∃ part ∈ parts, a ∈ part ∧ b ∈ part) ↔ key a.2 = key b.2) := by
  obtain ⟨groups, parts, evaluated, members, gathered⟩ := evaluate_group source keyed
  refine ⟨groups, parts, evaluated, members, ?_, gathered, fun a ha b hb exact exact' => ?_⟩
  · rw [List.flatMap_def, members, ← List.map_flatten]
    exact (gathered.perm.map Prod.snd).trans (.of_eq (Windowed.map_snd_indexed rows))
  · rw [gathered.shared a ha b hb, jsonText_array_inj exact exact']

/-- Three records with two letters, by letter. -/
theorem groups_of_letters :
    ∃ groups, evaluateIn (Environment.ofContext []) (.list [.symbol "$group", .list [.symbol ":k"],
        .quoted [.object [("k", .string "a")], .object [("k", .string "b")],
          .object [("k", .string "a")]]]) = .ok (.rows groups) ∧
      (groups.flatMap Row.members).Perm [.single "" (.object [("k", .string "a")]),
        .single "" (.object [("k", .string "b")]), .single "" (.object [("k", .string "a")])] := by
  have source : Relation.sourceRows interpretation.evaluate
      (.quoted [.object [("k", .string "a")], .object [("k", .string "b")],
        .object [("k", .string "a")]]) (Environment.ofContext [])
      = .ok [.single "" (.object [("k", .string "a")]), .single "" (.object [("k", .string "b")]),
        .single "" (.object [("k", .string "a")])] := rfl
  have keyed : ∀ row ∈ [Row.single "" (.object [("k", .string "a")]),
      .single "" (.object [("k", .string "b")]), .single "" (.object [("k", .string "a")])],
      Interpretation.evaluateAll interpretation.evaluate (Expr.list [.symbol ":k"]).itemsOrNone
        ((Environment.ofContext []).surround row) = .ok [row.lookup "k"] := by
    simp only [List.forall_mem_cons, List.not_mem_nil, false_implies, implies_true, and_true]
    exact ⟨rfl, rfl, rfl⟩
  obtain ⟨groups, -, evaluated, -, perm, -⟩ := group_of_source source keyed
  exact ⟨groups, evaluated, perm⟩

/-- Rows of keys that are well-formed. Where two rows differ at no place of their keys in what equality
or the text of a key forgets, they are in one group exactly if their keys are pairwise equal. Two rows
with equal keys are in one group exactly if no two values in them are shown apart, and the keys of two
rows in one group are equal exactly if no two values in them are shown alike. -/
theorem group_of_equal_keys
    (source : Relation.sourceRows interpretation.evaluate e env = .ok rows)
    (keyed : ∀ row ∈ rows, Interpretation.evaluateAll interpretation.evaluate keyList.itemsOrNone
      (env.surround row) = .ok (key row)) :
    ∃ (groups : List Row) (parts : List (List (Nat × Row))),
      evaluateIn env (.list [.symbol "$group", keyList, e]) = .ok (.rows groups) ∧
      groups.map Row.members = parts.map (List.map Prod.snd) ∧
      parts.flatten.Perm (Windowed.indexed rows) ∧
      ∀ a ∈ Windowed.indexed rows, ∀ b ∈ Windowed.indexed rows,
        (∀ v ∈ key a.2, v.WellFormed) → (∀ v ∈ key b.2, v.WellFormed) →
        ((∀ v w, Value.Beside (.array (key a.2)) (.array (key b.2)) v w →
            ¬v.ShownApart w ∧ ¬v.ShownAlike w) →
          ((∃ part ∈ parts, a ∈ part ∧ b ∈ part) ↔
            List.Forall₂ (fun v w => looseEq v w = true) (key a.2) (key b.2))) ∧
        (List.Forall₂ (fun v w => looseEq v w = true) (key a.2) (key b.2) →
          ((∃ part ∈ parts, a ∈ part ∧ b ∈ part) ↔
            ∀ v w, Value.Beside (.array (key a.2)) (.array (key b.2)) v w → ¬v.ShownApart w)) ∧
        ((∃ part ∈ parts, a ∈ part ∧ b ∈ part) →
          (List.Forall₂ (fun v w => looseEq v w = true) (key a.2) (key b.2) ↔
            ∀ v w, Value.Beside (.array (key a.2)) (.array (key b.2)) v w → ¬v.ShownAlike w)) := by
  obtain ⟨groups, parts, evaluated, members, gathered⟩ := evaluate_group source keyed
  refine ⟨groups, parts, evaluated, members, gathered.perm, fun a ha b hb formed formed' => ?_⟩
  have formed : (Value.array (key a.2)).WellFormed := Value.Everywhere.array_iff.2 ⟨trivial, formed⟩
  have formed' : (Value.array (key b.2)).WellFormed :=
    Value.Everywhere.array_iff.2 ⟨trivial, formed'⟩
  have equality : List.Forall₂ (fun v w => looseEq v w = true) (key a.2) (key b.2) ↔
      looseEq (.array (key a.2)) (.array (key b.2)) = true := looseEqList_iff.symm
  rw [gathered.shared a ha b hb, Value.jsonText_eq_iff, equality]
  have apart := Value.toJson_eq_iff_of_looseEq formed formed'
  have alike := Value.looseEq_iff_of_toJson_eq formed formed'
  refine ⟨fun clear => ⟨fun same => ?_, fun equal => ?_⟩, apart, alike⟩
  · exact (alike same).2 fun v w h => (clear v w h).2
  · exact (apart equal).2 fun v w h => (clear v w h).1

/-- The groups of a source by one field, where the records have nothing else. -/
def GroupedByKey (source : Expr) (parts : List (List Value)) : Prop :=
  ∃ groups, evaluateIn (Environment.ofContext []) (.list [.symbol "$group",
      .list [.symbol ":k"], source]) = .ok (.rows groups) ∧
    groups.map Row.members = parts.map (List.map fun v => .single "" (.object [("k", v)]))

/-- One record with the field. -/
def keyOnly (e : Expr) : Expr :=
  .list [.symbol "$select", .list [.list [.symbol "$as", .symbol "k", e]]]

/-- The start of 1970, and records with numbers: the two with one float are in one group, and that date
and the number seven, which is not its number of milliseconds, are in two. -/
theorem one_group_of_equal_numbers :
    ∃ (groups : List Row) (parts : List (List (Nat × Row))),
      evaluateIn (Environment.ofContext []) (.list [.symbol "$group", .list [.symbol ":k"],
        .list [.symbol "$union", keyOnly (.list [.symbol "$date", .literal (.integer 0)]),
          .quoted [.object [("k", .float 1.5)], .object [("k", .integer 7)],
            .object [("k", .float 1.5)]]]]) = .ok (.rows groups) ∧
      groups.map Row.members = parts.map (List.map Prod.snd) ∧
      (∃ part ∈ parts, (1, Row.single "" (.object [("k", .float 1.5)])) ∈ part ∧
        (3, Row.single "" (.object [("k", .float 1.5)])) ∈ part) ∧
      ¬∃ part ∈ parts, (0, Row.single "" (.object [("k", .date ⟨0, 0⟩)])) ∈ part ∧
        (2, Row.single "" (.object [("k", .integer 7)])) ∈ part := by
  have source : Relation.sourceRows interpretation.evaluate
      (.list [.symbol "$union", keyOnly (.list [.symbol "$date", .literal (.integer 0)]),
        .quoted [.object [("k", .float 1.5)], .object [("k", .integer 7)],
          .object [("k", .float 1.5)]]]) (Environment.ofContext [])
      = .ok [.single "" (.object [("k", .date ⟨0, 0⟩)]), .single "" (.object [("k", .float 1.5)]),
        .single "" (.object [("k", .integer 7)]), .single "" (.object [("k", .float 1.5)])] := rfl
  have keyed : ∀ row ∈ [Row.single "" (.object [("k", .date ⟨0, 0⟩)]),
      .single "" (.object [("k", .float 1.5)]), .single "" (.object [("k", .integer 7)]),
      .single "" (.object [("k", .float 1.5)])],
      Interpretation.evaluateAll interpretation.evaluate (Expr.list [.symbol ":k"]).itemsOrNone
        ((Environment.ofContext []).surround row) = .ok [row.lookup "k"] := by
    simp only [List.forall_mem_cons, List.not_mem_nil, false_implies, implies_true, and_true]
    exact ⟨rfl, rfl, rfl, rfl⟩
  obtain ⟨groups, parts, evaluated, members, -, shared⟩ := group_of_equal_keys source keyed
  have formed : ∀ {v : Value}, v.WellFormedHere → v.parts = [] → ∀ w ∈ [v], w.WellFormed :=
    fun here none => List.forall_mem_singleton.2 (.of_parts_nil here none)
  refine ⟨groups, parts, evaluated, members, ?_, fun together => ?_⟩
  · obtain ⟨-, ofEqual, -⟩ := shared (1, Row.single "" (.object [("k", .float 1.5)]))
      (.tail _ (.head _)) (3, Row.single "" (.object [("k", .float 1.5)]))
      (.tail _ (.tail _ (.tail _ (.head _)))) (formed trivial rfl) (formed trivial rfl)
    exact (ofEqual (.cons rfl .nil)).2 fun v w h apart => apart.ne (h.eq rfl)
  · obtain ⟨-, -, ofOne⟩ := shared (0, Row.single "" (.object [("k", .date ⟨0, 0⟩)])) (.head _)
      (2, Row.single "" (.object [("k", .integer 7)])) (.tail _ (.tail _ (.head _)))
      (formed (.inl (by decide)) rfl) (formed trivial rfl)
    have clear : ∀ v w, Value.Beside (.array [.date ⟨0, 0⟩]) (.array [.integer 7]) v w →
        ¬v.ShownAlike w := by
      rintro v w (_ | ⟨pair, inside⟩) alike
      · rcases alike with _ | _ | left | (left | right) <;> contradiction
      · obtain ⟨rfl, rfl⟩ := Prod.mk.inj (List.mem_singleton.1 pair)
        cases inside
        rcases alike with _ | _ | left | (left | right) <;> contradiction
    cases (ofOne together).2 clear with
    | cons equal _ => exact absurd equal (by decide)

/-- Groups and equality differ. Equal keys that fall into groups of their own are an integer and a
float, zeros of two signs, the start of 1970 and the number zero, and records with the same fields in
two orders; a leap second is equal to the second after it, but has another text. Keys of one group that
are not equal are infinities and null, that date and its text, and a relation and an array of its
records. -/
theorem groups_unlike_equality :
    (GroupedByKey (.quoted [.object [("k", .integer 1)], .object [("k", .float 1)],
          .object [("k", .float 0)], .object [("k", .float (-0))]])
        [[.integer 1], [.float 1], [.float 0], [.float (-0)]] ∧
      looseEq (.integer 1) (.float 1) = true ∧ looseEq (.float 0) (.float (-0)) = true) ∧
    (GroupedByKey (.list [.symbol "$union",
          keyOnly (.list [.symbol "/", .literal (.float 1), .literal (.float 0)]),
          keyOnly (.list [.symbol "/", .literal (.float (-1)), .literal (.float 0)]),
          .quoted [.object [("k", .null)]]])
        [[.float (1 / 0), .float (-1 / 0), .null]] ∧
      looseEq (.float (1 / 0)) (.float (-1 / 0)) = false ∧
      looseEq (.float (1 / 0)) .null = false) ∧
    (GroupedByKey (.list [.symbol "$union",
          keyOnly (.list [.symbol "$date", .literal (.integer 0)]), .quoted [
            .object [("k", .integer 0)], .object [("k", .string "1970-01-01T00:00:00.000Z")]]])
        [[.date ⟨0, 0⟩, .string "1970-01-01T00:00:00.000Z"], [.integer 0]] ∧
      looseEq (.date ⟨0, 0⟩) (.integer 0) = true ∧
      looseEq (.date ⟨0, 0⟩) (.string "1970-01-01T00:00:00.000Z") = false) ∧
    (GroupedByKey (.quoted [.object [("k", .object [("a", .integer 1), ("b", .integer 2)])],
          .object [("k", .object [("b", .integer 2), ("a", .integer 1)])]])
        [[.object [("a", .integer 1), ("b", .integer 2)]],
          [.object [("b", .integer 2), ("a", .integer 1)]]] ∧
      looseEq (.object [("a", .integer 1), ("b", .integer 2)])
        (.object [("b", .integer 2), ("a", .integer 1)]) = true) ∧
    (GroupedByKey (.list [.symbol "$union",
          keyOnly (.list [.symbol "$from", .quoted [.object [("a", .integer 1)]]]),
          .quoted [.object [("k", .array [.object [("a", .integer 1)]])]]])
        [[.rows [.single "" (.object [("a", .integer 1)])],
          .array [.object [("a", .integer 1)]]]] ∧
      looseEq (.rows [.single "" (.object [("a", .integer 1)])])
        (.array [.object [("a", .integer 1)]]) = false) ∧
    looseEq (.date ⟨1483228799, 1000000000⟩) (.date ⟨1483228800, 0⟩) = true ∧
      (Value.date ⟨1483228799, 1000000000⟩).jsonText
        ≠ (Value.date ⟨1483228800, 0⟩).jsonText := by
  refine ⟨⟨⟨_, rfl, rfl⟩, rfl, rfl⟩, ⟨⟨_, rfl, rfl⟩, rfl, rfl⟩, ⟨⟨_, rfl, rfl⟩, rfl, rfl⟩,
    ⟨⟨_, rfl, rfl⟩, rfl⟩, ⟨⟨_, rfl, rfl⟩, rfl⟩, rfl, ?_⟩
  have leap : (Value.date ⟨1483228799, 1000000000⟩).jsonText
      = "\"2016-12-31T23:59:60.000Z\"" := rfl
  have next : (Value.date ⟨1483228800, 0⟩).jsonText = "\"2017-01-01T00:00:00.000Z\"" := rfl
  rw [leap, next]
  decide

end

end InMemory

end QueryForms
