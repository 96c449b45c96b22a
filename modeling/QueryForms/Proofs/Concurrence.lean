import QueryForms.Proofs.Yields

/-!
# Outcomes of two runs

`Concurs r s P` says that two computations have one outcome: the same error, or the same value, and
the value has the property `P`. The rules follow the ways in which outcomes are put together, as
those of `Yields` do, so two runs that stop at the first error are compared step by step.
-/

namespace QueryForms

variable {α β : Type}

/-- Two computations have the same outcome; if it is a value, the value has the property. -/
def Concurs (r s : Result α) (P : α → Prop) : Prop :=
  r = s ∧ Yields r P

namespace Concurs

variable {P : α → Prop} {R : β → Prop} {r s : Result α}

/-- An outcome is the same as itself. -/
theorem of_yields (h : Yields r P) : Concurs r r P :=
  ⟨rfl, h⟩

@[simp] theorem ok_iff {a : α} : Concurs (.ok a) (.ok a) P ↔ P a :=
  ⟨fun h => Yields.ok_iff.1 h.2, fun h => of_yields (Yields.ok_iff.2 h)⟩

@[simp] theorem pure_iff {a : α} : Concurs (pure a) (pure a) P ↔ P a :=
  ok_iff

@[simp] theorem error (e : EvalError) : Concurs (.error e) (.error e) P :=
  of_yields (.error e)

@[simp] theorem fault (f : TypeFault) : Concurs (fault f) (fault f) P :=
  error _

/-- The same first step, and second steps that concur on what the first yields. -/
theorem bind {f g : α → Result β} (first : Concurs r s P)
    (second : ∀ a, P a → Concurs (f a) (g a) R) : Concurs (r >>= f) (s >>= g) R := by
  obtain ⟨rfl, first⟩ := first
  cases r with
  | error e => exact error e
  | ok a => exact second a (first a rfl)

/-- A step whose value the rest of the computation only passes on. -/
theorem map {f : α → β} (h : Concurs r s fun a => R (f a)) : Concurs (r.map f) (s.map f) R := by
  obtain ⟨rfl, h⟩ := h
  exact of_yields h.map

theorem mono {S : α → Prop} (h : Concurs r s P) (imp : ∀ a, P a → S a) : Concurs r s S :=
  ⟨h.1, h.2.mono imp⟩

/-- Steps from left to right, each the same in both runs. -/
theorem mapM {f g : α → Result β} {list : List α} (h : ∀ a ∈ list, Concurs (f a) (g a) R) :
    Concurs (list.mapM f) (list.mapM g) fun out => ∀ b ∈ out, R b :=
  ⟨mapM_congr fun a ha => (h a ha).1, .mapM fun a ha => (h a ha).2⟩

/-- Steps along two lists whose items are the same seen in some way, each the same in both runs. -/
theorem mapM_of_map_eq {γ : Type} {see : α → γ} {f g : α → Result β} {list others : List α}
    (same : list.map see = others.map see)
    (h : ∀ a ∈ list, ∀ b, see a = see b → Concurs (f a) (g b) R) :
    Concurs (list.mapM f) (others.mapM g) fun out => ∀ b ∈ out, R b := by
  induction list generalizing others with
  | nil =>
    obtain rfl := List.map_eq_nil_iff.1 same.symm
    exact ok_iff.2 fun _ hm => absurd hm List.not_mem_nil
  | cons a rest ih =>
    cases others with
    | nil => cases same
    | cons b others =>
      obtain ⟨first, later⟩ := List.cons.inj same
      rw [List.mapM_cons, List.mapM_cons]
      refine .bind (h a (List.mem_cons_self ..) b first) fun v hv => ?_
      refine .bind (ih later fun a hm => h a (List.mem_cons_of_mem _ hm)) fun out ho => ?_
      exact pure_iff.2 (List.forall_mem_cons.2 ⟨hv, ho⟩)

end Concurs

end QueryForms
