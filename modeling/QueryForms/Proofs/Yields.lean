import Mathlib.Data.List.Forall2
import QueryForms.Error

/-!
# What an outcome yields

`Yields r P` says that an outcome, if it is a value at all, is one with the property `P`. The rules
below follow the ways in which outcomes are put together, so that a function that stops at the first
error is proved step by step, and never by looking at its errors.
-/

namespace QueryForms

variable {α β : Type}

/-- If the outcome is a value, the value has the property. -/
def Yields (r : Result α) (P : α → Prop) : Prop :=
  ∀ a, r = .ok a → P a

namespace Yields

variable {P : α → Prop} {R : β → Prop}

@[simp] theorem ok_iff {a : α} : Yields (.ok a) P ↔ P a :=
  ⟨fun h => h a rfl, fun h _ eq => Except.ok.inj eq ▸ h⟩

@[simp] theorem pure_iff {a : α} : Yields (pure a) P ↔ P a :=
  ok_iff

@[simp] theorem error (e : EvalError) : Yields (.error e) P :=
  fun _ eq => nomatch eq

@[simp] theorem fault (f : TypeFault) : Yields (fault f) P :=
  error _

/-- A first step and a second one that works on what the first yields. -/
theorem bind {r : Result α} {f : α → Result β} (first : Yields r P)
    (second : ∀ a, P a → Yields (f a) R) : Yields (r >>= f) R := by
  cases r with
  | error e => exact error e
  | ok a => exact second a (first a rfl)

/-- A step whose value the rest of the computation only passes on. -/
theorem map {r : Result α} {f : α → β} (h : Yields r fun a => R (f a)) : Yields (r.map f) R := by
  cases r with
  | error e => exact error e
  | ok a => exact ok_iff.2 (h a rfl)

theorem mono {r : Result α} {S : α → Prop} (h : Yields r P) (imp : ∀ a, P a → S a) : Yields r S :=
  fun a eq => imp a (h a eq)

/-- Every outcome yields something. -/
theorem trivial (r : Result α) : Yields r fun _ => True :=
  fun _ _ => True.intro

/-- What an outcome is, it yields. -/
theorem itself (r : Result α) : Yields r fun a => r = .ok a :=
  fun _ eq => eq

theorem and {r : Result α} {S : α → Prop} (h : Yields r P) (other : Yields r S) :
    Yields r fun a => P a ∧ S a :=
  fun a eq => ⟨h a eq, other a eq⟩

/-- Steps from left to right, each of which yields a value with the property. -/
theorem mapM {f : α → Result β} {list : List α} (h : ∀ a ∈ list, Yields (f a) R) :
    Yields (list.mapM f) fun out => ∀ b ∈ out, R b := by
  induction list with
  | nil => simp
  | cons a rest ih =>
    rw [List.mapM_cons]
    refine bind (h a (List.mem_cons_self ..)) fun b hb => ?_
    refine bind (ih fun c hc => h c (List.mem_cons_of_mem _ hc)) fun bs hbs => ?_
    simpa using ⟨hb, hbs⟩

/-- Steps give as many values as there are. -/
theorem length_mapM (f : α → Result β) (list : List α) :
    Yields (list.mapM f) fun out => out.length = list.length := by
  induction list with
  | nil => simp
  | cons a rest ih =>
    rw [List.mapM_cons]
    refine bind (trivial _) fun b _ => bind ih fun bs length => ?_
    simpa using length

/-- Steps give values that each have the property of their step. -/
theorem forall₂_mapM {f : α → Result β} {S : α → β → Prop} {list : List α}
    (h : ∀ a ∈ list, Yields (f a) (S a)) : Yields (list.mapM f) (List.Forall₂ S list) := by
  induction list with
  | nil => simp
  | cons a rest ih =>
    rw [List.mapM_cons]
    refine bind (h a (List.mem_cons_self ..)) fun b hb => ?_
    refine bind (ih fun c hc => h c (List.mem_cons_of_mem _ hc)) fun bs hbs => ?_
    simpa using ⟨hb, hbs⟩

/-- A value carried along a list by steps that keep the property. -/
theorem foldlM {f : α → β → Result α} {list : List β}
    (h : ∀ a b, P a → b ∈ list → Yields (f a b) P) {start : α} (hs : P start) :
    Yields (list.foldlM f start) P := by
  induction list generalizing start with
  | nil => simpa using hs
  | cons b rest ih =>
    rw [List.foldlM_cons]
    refine bind (h start b hs (List.mem_cons_self ..)) fun next hn => ?_
    exact ih (fun a c ha hc => h a c ha (List.mem_cons_of_mem _ hc)) hn

end Yields

/-- A result that is passed on is the image of one that was there. -/
theorem map_eq_ok_iff {r : Result α} {f : α → β} {b : β} :
    r.map f = .ok b ↔ ∃ a, b = f a ∧ r = .ok a := by
  cases r with
  | error e => exact ⟨nofun, fun ⟨_, _, failed⟩ => nomatch failed⟩
  | ok a =>
    constructor
    · rintro ⟨⟩
      exact ⟨a, rfl, rfl⟩
    · rintro ⟨_, rfl, ⟨⟩⟩
      rfl

/-- Steps from left to right are the same if each of them is. -/
theorem mapM_congr {f g : α → Result β} {list : List α} (h : ∀ a ∈ list, f a = g a) :
    list.mapM f = list.mapM g := by
  induction list with
  | nil => rfl
  | cons a rest ih =>
    rw [List.mapM_cons, List.mapM_cons, h a (List.mem_cons_self ..),
      ih fun b hb => h b (List.mem_cons_of_mem _ hb)]

/-- Steps from left to right that all succeed. -/
theorem mapM_eq_ok {f : α → Result β} {g : α → β} {list : List α}
    (h : ∀ a ∈ list, f a = .ok (g a)) : list.mapM f = .ok (list.map g) := by
  induction list with
  | nil => rfl
  | cons a rest ih =>
    rw [List.mapM_cons, h a (List.mem_cons_self ..), ih fun b hb => h b (List.mem_cons_of_mem _ hb)]
    rfl

/-- Steps from left to right give the results one by one. -/
theorem mapM_eq_ok_iff {f : α → Result β} {list : List α} {out : List β} :
    list.mapM f = .ok out ↔ List.Forall₂ (fun a b => f a = .ok b) list out := by
  refine ⟨Yields.forall₂_mapM (fun a _ => .itself (f a)) out, fun h => ?_⟩
  induction h with
  | nil => rfl
  | cons first _ ih =>
    rw [List.mapM_cons, first, ih]
    rfl

end QueryForms
