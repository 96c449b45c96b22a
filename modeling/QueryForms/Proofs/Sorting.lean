import Mathlib.Data.List.Sort
import QueryForms.Proofs.Rows
import QueryForms.Proofs.Text.Units

/-!
# Sorting

Values are sorted by a total preorder, the order of their texts, and so are lists of as many keys,
whatever the directions (`sorting_orders`). Sorting by keys is insertion sort: it keeps the items
(`sortByKeys_perm`), puts them in order (`pairwise_sortByKeys`), and keeps the order of items whose
keys are level (`sortByKeys_stable`). Hence it may be done before items are dropped or after
(`filter_sortByKeys`).

Integers are in the order of their texts: a negative one is before any other, but of two negative
ones the one with the greater magnitude comes last (`collate_integers`).
-/

namespace QueryForms

/-! ## Total preorders -/

instance : Std.TransCmp collate :=
  Text.transCmp_comap Value.jsonText

/-- An order in a direction. -/
def directed (descending : Bool) (order : Ordering) : Ordering :=
  if descending then order.swap else order

/-- The order of two values in a direction. -/
def collateIn (descending : Bool) (a b : Value) : Ordering :=
  directed descending (collate a b)

theorem collate_swap (a b : Value) : (collate a b).swap = collate b a :=
  Std.OrientedCmp.eq_swap.symm

theorem collateIn_swap (descending : Bool) (a b : Value) :
    (collateIn descending a b).swap = collateIn descending b a := by
  cases descending
  · exact collate_swap a b
  · exact congrArg Ordering.swap (collate_swap a b)

instance (descending : Bool) : Std.TransCmp (collateIn descending) where
  eq_swap := (collateIn_swap descending _ _).symm
  isLE_trans {a b c} := by
    cases descending
    · show (collate a b).isLE → (collate b c).isLE → (collate a c).isLE
      exact Std.TransCmp.isLE_trans
    · show (collate a b).swap.isLE → (collate b c).swap.isLE → (collate a c).swap.isLE
      rw [collate_swap, collate_swap, collate_swap]
      exact fun ab bc => Std.TransCmp.isLE_trans bc ab

theorem compareKeys_cons (descending : List Bool) (a b : Value) (as bs : List Value) :
    compareKeys descending (a :: as) (b :: bs)
      = (collateIn (descending.head?.getD false) a b).then (compareKeys descending.tail as bs) :=
  rfl

theorem compareKeys_swap (descending : List Bool) (as bs : List Value) :
    (compareKeys descending as bs).swap = compareKeys descending bs as := by
  induction as generalizing descending bs with
  | nil => cases bs <;> simp only [compareKeys, Ordering.swap]
  | cons a as ih =>
    cases bs with
    | nil => simp only [compareKeys, Ordering.swap]
    | cons b bs =>
      rw [compareKeys_cons, compareKeys_cons, Ordering.swap_then, collateIn_swap, ih]

/-- Lists of as many keys are in order if one between them is. -/
theorem compareKeys_trans {descending : List Bool} {as bs cs : List Value}
    (first : as.length = bs.length) (second : bs.length = cs.length)
    (ab : (compareKeys descending as bs).isLE) (bc : (compareKeys descending bs cs).isLE) :
    (compareKeys descending as cs).isLE := by
  induction as generalizing descending bs cs with
  | nil => cases cs <;> simp only [compareKeys, Ordering.isLE]
  | cons a as ih =>
    cases bs with
    | nil => exact absurd first (Nat.succ_ne_zero _)
    | cons b bs =>
      cases cs with
      | nil => exact absurd second (Nat.succ_ne_zero _)
      | cons c cs =>
        rw [compareKeys_cons, Ordering.isLE_then_iff_and] at ab bc ⊢
        refine ⟨Std.TransCmp.isLE_trans ab.1 bc.1, ?_⟩
        rcases ab.2 with less | ab'
        · exact .inl (Std.TransCmp.lt_of_lt_of_isLE less bc.1)
        · rcases bc.2 with less | bc'
          · exact .inl (Std.TransCmp.lt_of_isLE_of_lt ab.1 less)
          · exact .inr (ih (Nat.succ.inj first) (Nat.succ.inj second) ab' bc')

theorem compareKeys_self (descending : List Bool) (keys : List Value) :
    compareKeys descending keys keys = .eq := by
  have swap := compareKeys_swap descending keys keys
  cases order : compareKeys descending keys keys with
  | eq => rfl
  | lt => rw [order] at swap; cases swap
  | gt => rw [order] at swap; cases swap

theorem compareKeys_eq_lt_iff {descending : List Bool} {as bs : List Value} :
    compareKeys descending as bs = .lt ↔ ¬(compareKeys descending bs as).isLE := by
  rw [← compareKeys_swap descending as bs]
  cases compareKeys descending as bs <;> simp

theorem compareKeys_eq_eq_iff {descending : List Bool} {as bs : List Value} :
    compareKeys descending as bs = .eq
      ↔ (compareKeys descending as bs).isLE ∧ (compareKeys descending bs as).isLE := by
  rw [← compareKeys_swap descending as bs]
  cases compareKeys descending as bs <;> simp

/-- Keys not greater than lesser ones are lesser. -/
theorem compareKeys_lt_of_isLE_of_lt {descending : List Bool} {as bs cs : List Value}
    (first : as.length = bs.length) (second : bs.length = cs.length)
    (ab : (compareKeys descending as bs).isLE) (bc : compareKeys descending bs cs = .lt) :
    compareKeys descending as cs = .lt := by
  rw [compareKeys_eq_lt_iff] at bc ⊢
  exact fun ca => bc (compareKeys_trans (first.trans second).symm first ca ab)

/-- Keys less than others are less than all not less than these. -/
theorem compareKeys_lt_of_lt_of_isLE {descending : List Bool} {as bs cs : List Value}
    (first : as.length = bs.length) (second : bs.length = cs.length)
    (ab : compareKeys descending as bs = .lt) (bc : (compareKeys descending bs cs).isLE) :
    compareKeys descending as cs = .lt := by
  rw [compareKeys_eq_lt_iff] at ab ⊢
  exact fun ca => ab (compareKeys_trans second (first.trans second).symm bc ca)

/-- Texts have a linear order in which different texts are never level, and texts of digits alone are
in the order of their numbers, however long they are. So lists of as many keys have a total preorder,
whichever of them descend. -/
theorem sorting_orders :
    (∀ a b, Text.naturalOrder a b = .eq ↔ a = b) ∧
    (∀ a b, Text.naturalOrder b a = (Text.naturalOrder a b).swap) ∧
    (∀ a b c, (Text.naturalOrder a b).isLE → (Text.naturalOrder b c).isLE →
      (Text.naturalOrder a c).isLE) ∧
    (∀ a b, (∀ c ∈ a.toList, c.isDigit = true) → (∀ c ∈ b.toList, c.isDigit = true) →
      Text.naturalOrder a b = (compare (digitsValue a.toList) (digitsValue b.toList)).then
        (compare a.length b.length)) ∧
    ∀ (descending : List Bool) (as bs cs : List Value), as.length = bs.length →
      bs.length = cs.length →
      compareKeys descending as as = .eq ∧
      compareKeys descending bs as = (compareKeys descending as bs).swap ∧
      ((compareKeys descending as bs).isLE ∨ (compareKeys descending bs as).isLE) ∧
      ((compareKeys descending as bs).isLE → (compareKeys descending bs cs).isLE →
        (compareKeys descending as cs).isLE) := by
  refine ⟨fun a b => Text.naturalOrder_eq_eq_iff, fun a b => Std.OrientedCmp.eq_swap,
    fun a b c => Std.TransCmp.isLE_trans, fun a b => Text.naturalOrder_of_digits, ?_⟩
  intro descending as bs cs first second
  have swap := compareKeys_swap descending as bs
  refine ⟨compareKeys_self descending as, swap.symm, ?_, compareKeys_trans first second⟩
  rw [← swap]
  cases compareKeys descending as bs <;> simp

/-- Two numbers too long for a machine word, the greater one with a zero in front, and three lists of
two keys of which the first descends. -/
theorem sorting_orders_long_numbers :
    Text.naturalOrder "99999999999999999999" "0100000000000000000000" = .lt ∧
      (compareKeys [true] [.string "b", .null] [.string "a", .string "v9"]).isLE ∧
      (compareKeys [true] [.string "a", .string "v9"] [.string "a", .string "v10"]).isLE ∧
      (compareKeys [true] [.string "b", .null] [.string "a", .string "v10"]).isLE := by
  have first : (compareKeys [true] [.string "b", .null] [.string "a", .string "v9"]).isLE := by
    decide
  have second :
      (compareKeys [true] [.string "a", .string "v9"] [.string "a", .string "v10"]).isLE := by
    decide
  obtain ⟨-, -, -, numbers, keys⟩ := sorting_orders
  have third := (keys [true] [.string "b", .null] [.string "a", .string "v9"]
    [.string "a", .string "v10"] rfl rfl).2.2.2 first second
  have digits : ∀ c ∈ "99999999999999999999".toList, c.isDigit = true :=
    List.all_eq_true.1 (by decide)
  have others : ∀ c ∈ "0100000000000000000000".toList, c.isDigit = true :=
    List.all_eq_true.1 (by decide)
  exact ⟨(numbers _ _ digits others).trans (by decide), first, second, third⟩

/-! ## Sorting -/

section

variable {α : Type} {descending : List Bool} {keys : Nat}

/-- Whether the keys of an item are less than those of another or level with them. -/
def KeysLE (descending : List Bool) (a b : List Value × α) : Prop :=
  (compareKeys descending a.1 b.1).isLE

instance (descending : List Bool) : DecidableRel (@KeysLE α descending) :=
  fun _ _ => inferInstanceAs (Decidable (_ = true))

/-- Sorting by keys is insertion sort. -/
theorem sortByKeys_eq_insertionSort (descending : List Bool) (keyed : List (List Value × α)) :
    sortByKeys descending keyed = keyed.insertionSort (KeysLE descending) := by
  have insert : @insertByKeys α descending = List.orderedInsert (KeysLE descending) := by
    funext item list
    induction list with
    | nil => rfl
    | cons other rest ih =>
      have before : KeysLE descending item other ↔ compareKeys descending item.1 other.1 ≠ .gt :=
        Ordering.isLE_iff_ne_gt
      rw [insertByKeys, List.orderedInsert_cons, ih]
      simp only [before, ite_not]
  rw [sortByKeys, insert, List.insertionSort]

/-- What is sorted is what was there. -/
theorem sortByKeys_perm (descending : List Bool) (keyed : List (List Value × α)) :
    (sortByKeys descending keyed).Perm keyed := by
  rw [sortByKeys_eq_insertionSort]
  exact List.perm_insertionSort ..

/-- What is not greater than the first of a list in order is not greater than any of it. -/
theorem keysLE_of_pairwise {item other : List Value × α} {rest : List (List Value × α)}
    (alike : ∀ later ∈ item :: other :: rest, later.1.length = keys)
    (sorted : (other :: rest).Pairwise (KeysLE descending))
    (before : KeysLE descending item other) :
    ∀ later ∈ other :: rest, KeysLE descending item later := by
  obtain ⟨own, alike⟩ := List.forall_mem_cons.1 alike
  have first : other.1.length = keys := alike other (.head _)
  refine List.forall_mem_cons.2 ⟨before, fun later h => ?_⟩
  have level : other.1.length = later.1.length := first.trans (alike later (.tail _ h)).symm
  exact compareKeys_trans (own.trans first.symm) level before (List.rel_of_pairwise_cons sorted h)

/-- Putting an item in its place keeps a list in order. -/
theorem pairwise_insertByKeys {item : List Value × α} {list : List (List Value × α)}
    (alike : ∀ other ∈ item :: list, other.1.length = keys)
    (sorted : list.Pairwise (KeysLE descending)) :
    (insertByKeys descending item list).Pairwise (KeysLE descending) := by
  induction list with
  | nil => exact List.pairwise_singleton ..
  | cons other rest ih =>
    obtain ⟨own, alike⟩ := List.forall_mem_cons.1 alike
    obtain ⟨first, after⟩ := List.pairwise_cons.1 sorted
    rw [insertByKeys]
    split
    · next greater =>
      have before : KeysLE descending other item := by
        rw [KeysLE, ← compareKeys_swap, greater]
        rfl
      refine List.pairwise_cons.2 ⟨fun later h => ?_, ih ?_ after⟩
      · rcases mem_insertByKeys h with rfl | h
        · exact before
        · exact first later h
      · exact List.forall_mem_cons.2 ⟨own, fun later h => alike later (.tail _ h)⟩
    · next less =>
      have before : KeysLE descending item other := Ordering.isLE_iff_ne_gt.2 less
      exact List.pairwise_cons.2 ⟨keysLE_of_pairwise (List.forall_mem_cons.2 ⟨own, alike⟩) sorted
        before, sorted⟩

/-- Items with as many keys are in order after sorting. -/
theorem pairwise_sortByKeys {keyed : List (List Value × α)}
    (alike : ∀ item ∈ keyed, item.1.length = keys) :
    (sortByKeys descending keyed).Pairwise (KeysLE descending) := by
  induction keyed with
  | nil => exact .nil
  | cons item rest ih =>
    obtain ⟨own, alike⟩ := List.forall_mem_cons.1 alike
    have inside : ∀ other ∈ item :: sortByKeys descending rest, other.1.length = keys :=
      List.forall_mem_cons.2 ⟨own, fun other h => alike other (mem_of_mem_sortByKeys h)⟩
    exact pairwise_insertByKeys inside (ih alike)

/-- An item not greater than any of a list is put before it. -/
theorem insertByKeys_of_forall {item : List Value × α} {list : List (List Value × α)}
    (least : ∀ other ∈ list, KeysLE descending item other) :
    insertByKeys descending item list = item :: list := by
  cases list with
  | nil => rfl
  | cons other rest =>
    rw [insertByKeys, if_neg (Ordering.isLE_iff_ne_gt.1 (least other (.head _)))]

/-- In a list in order, a kept item is put in its place among the kept ones. -/
theorem filter_insertByKeys {p : List Value × α → Bool} {item : List Value × α}
    {list : List (List Value × α)} (alike : ∀ other ∈ item :: list, other.1.length = keys)
    (sorted : list.Pairwise (KeysLE descending)) (kept : p item = true) :
    (insertByKeys descending item list).filter p
      = insertByKeys descending item (list.filter p) := by
  induction list with
  | nil => rw [insertByKeys, List.filter_cons_of_pos kept, List.filter_nil, insertByKeys]
  | cons other rest ih =>
    obtain ⟨own, alike⟩ := List.forall_mem_cons.1 alike
    obtain ⟨first, after⟩ := List.pairwise_cons.1 sorted
    rw [insertByKeys]
    split
    · next greater =>
      have inside := ih (List.forall_mem_cons.2 ⟨own, fun later h => alike later (.tail _ h)⟩) after
      cases stays : p other
      · rw [List.filter_cons_of_neg (by simp [stays]), List.filter_cons_of_neg (by simp [stays]),
          inside]
      · rw [List.filter_cons_of_pos stays, List.filter_cons_of_pos stays, insertByKeys,
          if_pos greater, inside]
    · next less =>
      -- the item is before all of the list, so before all that is kept of it
      have before : KeysLE descending item other := Ordering.isLE_iff_ne_gt.2 less
      have least := keysLE_of_pairwise (List.forall_mem_cons.2 ⟨own, alike⟩) sorted before
      rw [List.filter_cons_of_pos kept,
        insertByKeys_of_forall fun later h => least later (List.mem_of_mem_filter h)]

theorem filter_insertByKeys_of_neg {p : List Value × α → Bool} {item : List Value × α}
    (list : List (List Value × α)) (dropped : ¬p item = true) :
    (insertByKeys descending item list).filter p = list.filter p := by
  induction list with
  | nil => exact List.filter_cons_of_neg dropped
  | cons other rest ih =>
    rw [insertByKeys]
    split
    · rw [List.filter_cons, List.filter_cons, ih]
    · exact List.filter_cons_of_neg dropped

/-- What is kept of a sorted list is what is kept, sorted. -/
theorem filter_sortByKeys (p : List Value × α → Bool) {keyed : List (List Value × α)}
    (alike : ∀ item ∈ keyed, item.1.length = keys) :
    (sortByKeys descending keyed).filter p = sortByKeys descending (keyed.filter p) := by
  induction keyed with
  | nil => rfl
  | cons item rest ih =>
    obtain ⟨own, alike⟩ := List.forall_mem_cons.1 alike
    have inside : ∀ other ∈ item :: sortByKeys descending rest, other.1.length = keys :=
      List.forall_mem_cons.2 ⟨own, fun other h => alike other (mem_of_mem_sortByKeys h)⟩
    have again : sortByKeys descending (item :: rest)
        = insertByKeys descending item (sortByKeys descending rest) := rfl
    rw [again]
    by_cases kept : p item = true
    · rw [filter_insertByKeys inside (pairwise_sortByKeys alike) kept, ih alike,
        List.filter_cons_of_pos kept]
      rfl
    · rw [filter_insertByKeys_of_neg _ kept, ih alike, List.filter_cons_of_neg kept]

/-- Items whose keys are level keep their order. -/
theorem sortByKeys_stable {keyed : List (List Value × α)} {own : List Value}
    (alike : ∀ item ∈ keyed, item.1.length = own.length) :
    (sortByKeys descending keyed).filter (fun item => compareKeys descending item.1 own == .eq)
      = keyed.filter fun item => compareKeys descending item.1 own == .eq := by
  have level : (keyed.filter fun item => compareKeys descending item.1 own == .eq).Pairwise
      (KeysLE descending) := by
    refine List.pairwise_of_forall_mem_list fun a ha b hb => ?_
    obtain ⟨insideA, levelA⟩ := List.mem_filter.1 ha
    obtain ⟨insideB, levelB⟩ := List.mem_filter.1 hb
    refine compareKeys_trans (alike a insideA) (alike b insideB).symm ?_ ?_
    · rw [eq_of_beq levelA]
      rfl
    · rw [← compareKeys_swap, eq_of_beq levelB]
      rfl
  rw [filter_sortByKeys _ alike, sortByKeys_eq_insertionSort, level.insertionSort_eq]

/-- Items that stand in a relation to all after them are sorted by their keys, and those with level
keys by the relation. -/
theorem pairwise_sortByKeys_of_pairwise (relates : α → α → Prop) {keyed : List (List Value × α)}
    (alike : ∀ item ∈ keyed, item.1.length = keys)
    (before : keyed.Pairwise fun a b => relates a.2 b.2) :
    (sortByKeys descending keyed).Pairwise fun a b => compareKeys descending a.1 b.1 = .lt ∨
      compareKeys descending a.1 b.1 = .eq ∧ relates a.2 b.2 := by
  refine List.pairwise_iff_forall_sublist.2 fun {a b} placed => ?_
  have le : (compareKeys descending a.1 b.1).isLE :=
    List.pairwise_iff_forall_sublist.1 (pairwise_sortByKeys alike) placed
  cases order : compareKeys descending a.1 b.1 with
  | lt => exact .inl rfl
  | gt => rw [order] at le; cases le
  | eq =>
    -- both are level with the second one, so they stood in this order before
    have inside : b ∈ keyed := mem_of_mem_sortByKeys (placed.subset (.tail _ (.head _)))
    have level := placed.filter fun item => compareKeys descending item.1 b.1 == .eq
    rw [sortByKeys_stable fun item h => (alike item h).trans (alike b inside).symm] at level
    have pair : [a, b].filter (fun item => compareKeys descending item.1 b.1 == .eq) = [a, b] := by
      simp only [List.filter_cons, order, compareKeys_self, BEq.rfl, if_true, List.filter_nil]
    rw [pair] at level
    exact .inr ⟨rfl, List.pairwise_iff_forall_sublist.1 before (level.trans List.filter_sublist)⟩

/-- Sorting looks at nothing but the keys. -/
theorem sortByKeys_map {β : Type} (f : α → β) (keyed : List (List Value × α)) :
    sortByKeys descending (keyed.map (Prod.map id f))
      = (sortByKeys descending keyed).map (Prod.map id f) := by
  rw [sortByKeys_eq_insertionSort, sortByKeys_eq_insertionSort]
  exact (List.map_insertionSort (KeysLE descending) (KeysLE descending) (Prod.map id f) keyed
    fun _ _ _ _ => Iff.rfl).symm

/-! ### Items with keys -/

/-- Items sorted by the keys that each of them has. -/
def sortedBy (descending : List Bool) (key : α → List Value) (items : List α) : List α :=
  (sortByKeys descending (items.map fun item => (key item, item))).map Prod.snd

variable {key : α → List Value} {items : List α}

theorem key_of_mem_sorted {item : List Value × α}
    (h : item ∈ sortByKeys descending (items.map fun item => (key item, item))) :
    item.1 = key item.2 := by
  obtain ⟨own, -, rfl⟩ := List.mem_map.1 (mem_of_mem_sortByKeys h)
  rfl

/-- What is sorted are the sorted items beside their keys. -/
theorem sortByKeys_keyed (descending : List Bool) (key : α → List Value) (items : List α) :
    sortByKeys descending (items.map fun item => (key item, item))
      = (sortedBy descending key items).map fun item => (key item, item) := by
  have keyed : ∀ item ∈ sortByKeys descending (items.map fun item => (key item, item)),
      (key item.2, item.2) = item := fun item h => by
    rw [← key_of_mem_sorted h]
  rw [sortedBy, List.map_map]
  exact (List.map_id _).symm.trans (List.map_congr_left fun item h => (keyed item h).symm)

theorem sortedBy_perm (descending : List Bool) (key : α → List Value) (items : List α) :
    (sortedBy descending key items).Perm items := by
  have perm := (sortByKeys_perm descending (items.map fun item => (key item, item))).map Prod.snd
  rwa [List.map_map, Function.comp_def, List.map_id'] at perm

/-- Items with as many keys, each in a relation to all after it, are sorted by their keys, and those
with level keys by the relation. -/
theorem pairwise_sortedBy {relates : α → α → Prop} (alike : ∀ item ∈ items, (key item).length = keys)
    (before : items.Pairwise relates) :
    (sortedBy descending key items).Pairwise fun a b =>
      compareKeys descending (key a) (key b) = .lt ∨
        compareKeys descending (key a) (key b) = .eq ∧ relates a b := by
  have before : (items.map fun item => (key item, item)).Pairwise fun a b => relates a.2 b.2 :=
    List.pairwise_map.2 before
  refine List.pairwise_map.2 ((pairwise_sortByKeys_of_pairwise relates
    (List.forall_mem_map.2 alike) before).imp_of_mem fun {a b} ha hb placed => ?_)
  rwa [key_of_mem_sorted ha, key_of_mem_sorted hb] at placed

/-- Items with as many keys are in order. -/
theorem pairwise_le_sortedBy (alike : ∀ item ∈ items, (key item).length = keys) :
    (sortedBy descending key items).Pairwise
      fun a b => (compareKeys descending (key a) (key b)).isLE := by
  have unrelated : items.Pairwise fun _ _ => True := List.pairwise_of_forall fun _ _ => trivial
  refine (pairwise_sortedBy alike unrelated).imp fun placed => ?_
  rcases placed with less | ⟨level, -⟩
  · rw [less]
    rfl
  · rw [level]
    rfl

/-- What is kept of sorted items is what is kept of them, sorted. -/
theorem filter_sortedBy (kept : α → Bool) (alike : ∀ item ∈ items, (key item).length = keys) :
    (sortedBy descending key items).filter kept = sortedBy descending key (items.filter kept) := by
  rw [sortedBy, List.filter_map, filter_sortByKeys _ (List.forall_mem_map.2 alike), List.filter_map]
  rfl

/-- Items whose keys are level with those of one are kept in their order. -/
theorem sortedBy_stable {own : α} (alike : ∀ item ∈ items, (key item).length = (key own).length) :
    (sortedBy descending key items).filter
        (fun item => compareKeys descending (key item) (key own) == .eq)
      = items.filter fun item => compareKeys descending (key item) (key own) == .eq := by
  have keyed : ∀ item ∈ sortByKeys descending (items.map fun item => (key item, item)),
      (compareKeys descending (key item.2) (key own) == .eq)
        = (compareKeys descending item.1 (key own) == .eq) := fun item h => by
    rw [key_of_mem_sorted h]
  rw [sortedBy, List.filter_map, Function.comp_def, List.filter_congr keyed,
    sortByKeys_stable (List.forall_mem_map.2 alike), List.filter_map, List.map_map]
  exact List.map_id _

/-- Nothing of the items but their keys decides where they are placed. -/
theorem map_sortedBy {β : Type} (f : β → α) (items : List β) :
    (sortedBy descending (key ∘ f) items).map f = sortedBy descending key (items.map f) := by
  have keyed : (items.map f).map (fun item => (key item, item))
      = (items.map fun item => (key (f item), item)).map (Prod.map id f) := by
    rw [List.map_map, List.map_map]
    rfl
  rw [sortedBy, sortedBy, keyed, sortByKeys_map, List.map_map, List.map_map]
  rfl

end

/-! ## Integers -/

theorem runOrder_toDigits (m n : Nat) :
    Text.runOrder (Nat.toDigits 10 m) (Nat.toDigits 10 n) = compare m n := by
  have digits : ∀ n : Nat, ∀ c ∈ Nat.toDigits 10 n, c.isDigit = true := fun _ _ =>
    Nat.isDigit_of_mem_toDigits (by decide) (by decide)
  rw [Text.runOrder_eq (digits m) (digits n), digitsValue_toDigits, digitsValue_toDigits]
  rcases eq_or_ne m n with rfl | differs
  · rw [Nat.compare_eq_eq.2 (rfl : (Nat.toDigits 10 m).length = _), Ordering.then_eq]
  · exact Text.then_of_ne_eq (mt Nat.compare_eq_eq.1 differs)

/-- The units of an integer's text are a sign, if it is negative, and a run. -/
theorem units_integerText (n : Int) :
    Text.units (Json.integerText n)
      = if n < 0 then [.char '-', .run (Nat.toDigits 10 n.natAbs)]
        else [.run (Nat.toDigits 10 n.natAbs)] := by
  have run : Text.units (Nat.toDigits 10 n.natAbs) = [.run (Nat.toDigits 10 n.natAbs)] :=
    Text.units_of_digits Nat.toDigits_ne_nil fun _ =>
      Nat.isDigit_of_mem_toDigits (by decide) (by decide)
  rw [Json.integerText]
  split
  · rw [Text.units, run]
    rfl
  · exact run

/-- The order of integers by number, but of two negative ones the lesser comes last. -/
def integerOrder (a b : Int64) : Ordering :=
  if a.toInt < 0 ∧ b.toInt < 0 then compare b.toInt a.toInt else compare a.toInt b.toInt

theorem collate_integers (a b : Int64) :
    collate (.integer a) (.integer b) = integerOrder a b := by
  have texts : ∀ n : Int64, (Value.integer n).jsonText.toList = Json.integerText n.toInt :=
    fun n => String.toList_ofList
  rw [collate, integerOrder, Text.naturalOrder_eq, texts, texts, units_integerText,
    units_integerText]
  have runs : ∀ m n : Nat, List.compareLex Text.TextUnit.order [.run (Nat.toDigits 10 m)]
      [.run (Nat.toDigits 10 n)] = compare m n := fun m n => by
    rw [← runOrder_toDigits, List.compareLex_cons_cons]
    exact Ordering.then_eq
  have magnitudes : ∀ {m n : Nat} {x y : Int}, (m < n ↔ x < y) → (n < m ↔ y < x) →
      compare m n = compare x y := fun less greater => by
    simp only [Nat.compare_eq_ite_lt, Int.compare_eq_ite_lt, less, greater]
  by_cases negA : a.toInt < 0 <;> by_cases negB : b.toInt < 0
  · rw [if_pos negA, if_pos negB, if_pos ⟨negA, negB⟩, List.compareLex_cons_cons, runs]
    exact magnitudes (by omega) (by omega)
  · rw [if_pos negA, if_neg negB, if_neg fun both => negB both.2,
      Int.compare_eq_lt.2 (by omega)]
    rfl
  · rw [if_neg negA, if_pos negB, if_neg fun both => negA both.1,
      Int.compare_eq_gt.2 (by omega)]
    rfl
  · rw [if_neg negA, if_neg negB, if_neg fun both => negA both.1, runs]
    exact magnitudes (by omega) (by omega)

theorem integerOrder_eq_iff {a b : Int64} : integerOrder a b = .eq ↔ a = b := by
  rw [integerOrder]
  split
  · rw [Int.compare_eq_eq, eq_comm, Int64.toInt_inj]
  · rw [Int.compare_eq_eq, Int64.toInt_inj]

theorem directed_eq_iff {descending : Bool} {order : Ordering} :
    directed descending order = .eq ↔ order = .eq := by
  cases descending
  · rfl
  · exact Ordering.swap_eq_eq

/-- One integer key is compared in its direction. -/
theorem compareKeys_integers (descending : Bool) (a b : Int64) :
    compareKeys [descending] [.integer a] [.integer b] = directed descending (integerOrder a b) := by
  rw [compareKeys_cons, compareKeys, collateIn, collate_integers]
  · exact Ordering.then_eq
  · exact nofun

end QueryForms
