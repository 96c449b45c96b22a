import Mathlib.Data.List.Sort
import QueryForms.PlainOperators

/-!
# Arrays without duplicates

`_unique` goes through an array and keeps each value that equals none of those kept so far. Equality
goes from the earlier value to the later one and need not be transitive, so what is kept is said by
the places of the array (`IsFirsts`): a value is kept exactly if no value that is kept before it
equals it. This settles the places from the first one on (`IsFirsts.unique`), the loop finds them
(`firsts_eq_map_get`), and on what is kept it finds nothing to drop (`unique_keeps_firsts`).
-/

namespace QueryForms.PlainOperators

variable {items : List Value} {n : Nat} {places others : List (Fin items.length)}

/-- The places of the first values that equal none kept before them, among the values before a given
place. -/
structure IsFirsts (items : List Value) (n : Nat) (places : List (Fin items.length)) : Prop where
  /-- The places are in the order of the array. -/
  ascending : places.Pairwise (· < ·)
  /-- They are before the given one. -/
  before : ∀ i ∈ places, i.val < n
  /-- No value that is kept equals a later one that is. -/
  apart : ∀ i ∈ places, ∀ j ∈ places, i < j → looseEq items[i] items[j] = false
  /-- One that is not kept is equalled by one that is and stands before it. -/
  covered : ∀ j : Fin items.length, j.val < n → j ∉ places →
    ∃ i ∈ places, i < j ∧ looseEq items[i] items[j] = true

namespace IsFirsts

/-- Whether a place is kept depends on the places before it alone. -/
theorem mem_of_mem (h : IsFirsts items n places) (ho : IsFirsts items n others)
    (j : Fin items.length)
    (same : ∀ i < j, i ∈ places ↔ i ∈ others) (kept : j ∈ places) : j ∈ others := by
  by_contra dropped
  obtain ⟨i, hi, earlier, equal⟩ := ho.covered j (h.before j kept) dropped
  have differ := h.apart i ((same i earlier).2 hi) j kept earlier
  exact Bool.false_ne_true (differ.symm.trans equal)

/-- There is one way to keep the first values. -/
theorem unique (h : IsFirsts items n places) (ho : IsFirsts items n others) : places = others := by
  have same : ∀ j : Fin items.length, j ∈ places ↔ j ∈ others := by
    intro j
    induction j using WellFoundedLT.induction with
    | ind j ih => exact ⟨h.mem_of_mem ho j ih, ho.mem_of_mem h j fun i hi => (ih i hi).symm⟩
  exact h.ascending.eq_of_mem_iff ho.ascending same

/-- A value that is equalled by one kept before it is left out. -/
theorem skip (h : IsFirsts items n places) (inside : n < items.length)
    (equalled : ∃ i ∈ places, looseEq items[i] items[n] = true) :
    IsFirsts items (n + 1) places where
  ascending := h.ascending
  before i hi := Nat.lt_succ_of_lt (h.before i hi)
  apart := h.apart
  covered j earlier dropped := by
    rcases Nat.lt_succ_iff_lt_or_eq.1 earlier with earlier | rfl
    · exact h.covered j earlier dropped
    · obtain ⟨i, hi, equal⟩ := equalled
      exact ⟨i, hi, h.before i hi, equal⟩

/-- Any other value is kept, last of all so far. -/
theorem keep (h : IsFirsts items n places) (inside : n < items.length)
    (differs : ∀ i ∈ places, looseEq items[i] items[n] = false) :
    IsFirsts items (n + 1) (places ++ [⟨n, inside⟩]) where
  ascending := List.pairwise_append.2 ⟨h.ascending, List.pairwise_singleton .., fun i hi _ last =>
    List.mem_singleton.1 last ▸ h.before i hi⟩
  before := List.forall_mem_append.2 ⟨fun i hi => Nat.lt_succ_of_lt (h.before i hi),
    List.forall_mem_singleton.2 (Nat.lt_succ_self n)⟩
  apart i hi j hj earlier := by
    rcases List.mem_append.1 hj with hj | last
    · rcases List.mem_append.1 hi with hi | last
      · exact h.apart i hi j hj earlier
      · -- the last place is before no other
        obtain rfl := List.mem_singleton.1 last
        exact absurd (h.before j hj) (Nat.not_lt_of_lt earlier)
    · obtain rfl := List.mem_singleton.1 last
      rcases List.mem_append.1 hi with hi | last
      · exact differs i hi
      · exact absurd earlier (List.mem_singleton.1 last ▸ lt_irrefl _)
  covered j earlier dropped := by
    obtain ⟨dropped, other⟩ := not_or.1 (mt List.mem_append.2 dropped)
    have earlier : j.val < n := by
      refine (Nat.lt_succ_iff_lt_or_eq.1 earlier).resolve_right fun last => other ?_
      exact List.mem_singleton.2 (Fin.ext last)
    obtain ⟨i, hi, less, equal⟩ := h.covered j earlier dropped
    exact ⟨i, List.mem_append_left _ hi, less, equal⟩

end IsFirsts

/-- From any place on the loop keeps the first values. -/
theorem firsts_drop (h : IsFirsts items n places) (inside : n ≤ items.length) :
    ∃ all, IsFirsts items items.length all ∧
      firsts (places.map items.get) (items.drop n) = all.map items.get := by
  -- the induction is on the values still to come
  induction left : items.length - n generalizing n places with
  | zero =>
    obtain rfl : n = items.length := Nat.le_antisymm inside (Nat.le_of_sub_eq_zero left)
    exact ⟨places, h, by rw [List.drop_length, firsts]⟩
  | succ left' ih =>
    have here : n < items.length := by omega
    rw [List.drop_eq_getElem_cons here, firsts]
    split
    · next equalled =>
      obtain ⟨i, hi, equal⟩ : ∃ i ∈ places, looseEq items[i] items[n] = true := by
        simpa using equalled
      exact ih (h.skip here ⟨i, hi, equal⟩) here (by omega)
    · next differs =>
      have differs : ∀ i ∈ places, looseEq items[i] items[n] = false := by
        simpa using differs
      have next := ih (h.keep here differs) here (by omega)
      rwa [List.map_append, List.map_singleton] at next

/-- The loop keeps the first values of an array. -/
theorem firsts_eq_map_get (items : List Value) :
    ∃ places, IsFirsts items items.length places ∧ firsts [] items = places.map items.get :=
  firsts_drop (n := 0) ⟨.nil, nofun, nofun, nofun⟩ (Nat.zero_le _)

/-- Where no value equals a later one, all are kept. -/
theorem firsts_of_pairwise {kept rest : List Value}
    (apart : (kept ++ rest).Pairwise fun earlier later => looseEq earlier later = false) :
    firsts kept rest = kept ++ rest := by
  induction rest generalizing kept with
  | nil => rw [firsts, List.append_nil]
  | cons v rest ih =>
    have differs : (kept.any fun seen => looseEq seen v) = false := by
      refine List.any_eq_false.2 fun seen hs => ?_
      have earlier := (List.pairwise_append.1 apart).2.2 seen hs v (List.mem_cons_self ..)
      exact Bool.eq_false_iff.1 earlier
    rw [List.append_cons] at apart ⊢
    rw [firsts, differs, if_neg Bool.false_ne_true, ih apart]

/-- The first values of an array have no duplicates. -/
theorem IsFirsts.pairwise (h : IsFirsts items n places) :
    (places.map items.get).Pairwise fun earlier later => looseEq earlier later = false :=
  List.pairwise_map.2 (h.ascending.imp_of_mem fun hi hj earlier => h.apart _ hi _ hj earlier)

/-- `_unique` gives the first values of an array in their order: those at the only places such that
no value kept equals a later one kept, and each value left out is equalled by one that is kept and
stands before it. Of these it drops none. -/
theorem unique_keeps_firsts (items more : List Value) :
    ∃ places : List (Fin items.length),
      (∀ others, IsFirsts items items.length others ↔ others = places) ∧
      unique (.array items :: more) = .ok (.array (places.map items.get)) ∧
      (places.map items.get).Sublist items ∧
      ∀ more, unique (.array (places.map items.get) :: more)
        = .ok (.array (places.map items.get)) := by
  obtain ⟨places, first, found⟩ := firsts_eq_map_get items
  refine ⟨places, fun others => ⟨fun h => h.unique first, ?_⟩, ?_, ?_, fun more => ?_⟩
  · rintro rfl
    exact first
  · exact congrArg (Except.ok ∘ Value.array) found
  · exact List.map_getElem_sublist first.ascending
  · exact congrArg (Except.ok ∘ Value.array) (firsts_of_pairwise first.pairwise)

-- equality is not transitive: the float equals both integers, which differ
example : unique [.array [.integer 9007199254740993, .float 9007199254740992,
    .integer 9007199254740992]]
    = .ok (.array [.integer 9007199254740993, .integer 9007199254740992]) := rfl

end QueryForms.PlainOperators
