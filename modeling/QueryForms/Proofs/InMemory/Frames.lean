import QueryForms.InMemory.Window

/-!
# Frames

A frame goes from one bound to another. The bounds are positions that are clamped to a range of
integers on the way, and then to the partition. This loses no row and adds none: a position and its
exact value compare alike with every place of the partition (`Bound.position_exact`), as what is
clamped lies outside of it before and after. So the frame covers the places between its exact bounds
(`FrameSpec.resolve?_covers_iff`), and its rows are the rows there (`Frame.rows_of_resolve?`).
-/

namespace QueryForms

namespace Bound

theorem farthest_eq : farthest = 9223372036854775807 := by decide

theorem nearest_eq : nearest = -9223372036854775808 := by decide

/-- The position of a bound among all integers. -/
def exact (b : Bound) (current length : Nat) (edge : Edge) : Int :=
  match b with
  | .unbounded => if edge = .first then 0 else length - 1
  | .current => current
  | .preceding n => current - n
  | .following n => current + n

/-- Clamping moves no position past a place of the partition. -/
theorem position_exact (b : Bound) {current length place : Nat} (edge : Edge)
    (inside : current < length) (short : length ≤ farthest) (within : place < length) :
    (b.position current length edge ≤ place ↔ b.exact current length edge ≤ place) ∧
      (place ≤ b.position current length edge ↔ place ≤ b.exact current length edge) := by
  have greatest := farthest_eq
  have least := nearest_eq
  cases b with
  | unbounded =>
    simp only [position, exact, clamp]
    split <;> omega
  | _ =>
    simp only [position, exact, clamp]
    omega

end Bound

namespace FrameSpec

/-- A place of a partition lies between the exact bounds of a frame. -/
def Covers (f : FrameSpec) (current length place : Nat) : Prop :=
  f.start.exact current length .first ≤ place ∧ place ≤ f.stop.exact current length .last

instance (f : FrameSpec) (current length : Nat) : DecidablePred (f.Covers current length) :=
  fun _ => inferInstanceAs (Decidable (_ ∧ _))

section

variable {f : FrameSpec} {current length : Nat} (short : length ≤ Bound.farthest)

include short

/-- A frame goes from one of its bounds to the other, each moved into the partition, unless it ends
before it begins. -/
theorem resolve?_eq_some_iff (filled : 0 < length) {first last : Nat} :
    f.resolve? current length = some (first, last) ↔
      first = max (f.start.position current length .first) 0 ∧
        last = min (f.stop.position current length .last) (length - 1) ∧ first ≤ last := by
  have within : ¬(length = 0 ∨ Bound.farthest + 1 < length) := by omega
  rw [resolve?, if_neg within]
  simp only [Option.ite_none_left_eq_some, Option.some.injEq, Prod.mk.injEq]
  omega

/-- The frame without bounds is the whole partition. -/
theorem resolve?_unbounded (filled : 0 < length) :
    resolve? ⟨.unbounded, .unbounded⟩ current length = some (0, length - 1) := by
  have greatest := Bound.farthest_eq
  have least := Bound.nearest_eq
  have first : Bound.position .unbounded current length .first = 0 := rfl
  have last : Bound.position .unbounded current length .last = length - 1 := by
    show max Bound.nearest (min (length : Int) Bound.farthest) - 1 = length - 1
    omega
  rw [resolve?_eq_some_iff short filled, first, last]
  omega

/-- A frame holds the places that it covers. -/
theorem resolve?_covers_iff (inside : current < length) {place : Nat} (within : place < length) :
    (∃ first last, f.resolve? current length = some (first, last) ∧ first ≤ place ∧ place ≤ last) ↔
      f.Covers current length place := by
  have resolved_iff : ∀ {first last}, f.resolve? current length = some (first, last) ↔ _ :=
    resolve?_eq_some_iff short (Nat.zero_lt_of_lt inside)
  rw [Covers, ← (f.start.position_exact .first inside short within).1,
    ← (f.stop.position_exact .last inside short within).2]
  constructor
  · rintro ⟨first, last, resolved, after, before⟩
    rw [resolved_iff] at resolved
    omega
  · rintro ⟨after, before⟩
    refine ⟨(max (f.start.position current length .first) 0).toNat,
      (min (f.stop.position current length .last) (length - 1)).toNat, ?_, ?_, ?_⟩
    · rw [resolved_iff]
      omega
    · omega
    · omega

end

end FrameSpec

/-- A stretch of a list by the places of its items, which are counted from a number. -/
theorem map_filter_zipIdx {α : Type} (list : List α) (first last place : Nat) :
    ((list.zipIdx place).filter fun item => first ≤ item.2 ∧ item.2 ≤ last).map Prod.fst
      = (list.take (last + 1 - place)).drop (first - place) := by
  induction list generalizing place with
  | nil => simp
  | cons item rest ih =>
    rw [List.zipIdx_cons, List.filter_cons]
    by_cases past : last < place
    · have none : last + 1 - place = 0 ∧ last + 1 - (place + 1) = 0 := by omega
      rw [if_neg (by simp only [decide_eq_true_eq]; omega), ih, none.1, none.2, List.take_zero,
        List.take_zero, List.drop_nil, List.drop_nil]
    · have next : last + 1 - place = last + 1 - (place + 1) + 1 := by omega
      rw [next, List.take_succ_cons]
      by_cases reached : first ≤ place
      · have whole : first - place = 0 ∧ first - (place + 1) = 0 := by omega
        rw [if_pos (by simp only [decide_eq_true_eq]; omega), List.map_cons, ih, whole.1, whole.2,
          List.drop_zero, List.drop_zero]
      · have later : first - place = first - (place + 1) + 1 := by omega
        rw [if_neg (by simp only [decide_eq_true_eq]; omega), ih, later, List.drop_succ_cons]

/-- The rows of a frame are the rows of the partition at the places that it covers. -/
theorem Frame.rows_of_resolve? {f : Frame} {spec : FrameSpec} {current : Nat}
    (inside : current < f.partition.length) (short : f.partition.length ≤ Bound.farthest)
    (bounds : f.bounds = spec.resolve? current f.partition.length) :
    f.rows = (f.partition.zipIdx.filter fun item =>
      spec.Covers current f.partition.length item.2).map fun item => item.1.2 := by
  have covers : ∀ item ∈ f.partition.zipIdx, (∃ first last, f.bounds = some (first, last) ∧
      first ≤ item.2 ∧ item.2 ≤ last) ↔ spec.Covers current f.partition.length item.2 :=
    fun item hm => by
      rw [bounds]
      exact FrameSpec.resolve?_covers_iff short inside (List.snd_lt_of_mem_zipIdx hm)
  rw [Frame.rows]
  cases found : f.bounds with
  | none =>
    have empty : ∀ item ∈ f.partition.zipIdx,
        ¬decide (spec.Covers current f.partition.length item.2) = true := fun item hm covered => by
      obtain ⟨_, _, resolved, -⟩ := (covers item hm).2 (of_decide_eq_true covered)
      rw [found] at resolved
      cases resolved
    rw [List.filter_eq_nil_iff.2 empty]
    rfl
  | some ends =>
    obtain ⟨first, last⟩ := ends
    have same : ∀ item ∈ f.partition.zipIdx, decide (spec.Covers current f.partition.length item.2)
        = decide (first ≤ item.2 ∧ item.2 ≤ last) := fun item hm => by
      rw [decide_eq_decide, ← covers item hm, found]
      constructor
      · rintro ⟨_, _, ⟨⟩, held⟩
        exact held
      · exact fun held => ⟨first, last, rfl, held⟩
    have stretch := map_filter_zipIdx f.partition first last 0
    rw [Nat.sub_zero, Nat.sub_zero] at stretch
    show ((f.partition.take (last + 1)).drop first).map Prod.snd = _
    rw [List.filter_congr same, ← stretch, List.map_map]
    rfl

end QueryForms
