import Mathlib.Data.List.Nodup
import QueryForms.Entries

/-!
# What bindings leave

Entries are bound one after the other. A name that is not bound anew keeps its value
(`get?_setAll_of_not_mem`, `mem_setAll_of_not_mem`); a name that is has the value of the last entry
that binds it (`get?_setAll_of_last`). The names are those that were there and those that were
bound, and each of them still occurs once. Where only free names are bound, the first entry of a
name is the one that is read (`get?_setAllMissing`).
-/

namespace QueryForms.Entries

variable {α : Type} {entries added : Entries α} {entry : String × α} {name : String}

/-- A name can be read if it is one of the names. -/
theorem isSome_get?_iff : (get? entries name).isSome = true ↔ name ∈ keys entries := by
  induction entries with
  | nil => exact iff_of_false Bool.false_ne_true List.not_mem_nil
  | cons first rest ih =>
    rw [get?, keys, List.map_cons, List.mem_cons]
    split
    · next same => exact iff_of_true rfl (.inl same.symm)
    · next other => exact ih.trans (or_iff_right (Ne.symm other)).symm

/-! ## One binding -/

theorem mem_set_self (entries : Entries α) (name : String) (value : α) :
    (name, value) ∈ set entries name value := by
  induction entries with
  | nil => exact List.mem_singleton.2 rfl
  | cons first rest ih =>
    rw [set]
    split
    · next same => exact List.mem_cons.2 (.inl (by rw [same]))
    · exact List.mem_cons_of_mem _ ih

/-- An entry stays where another name is bound. -/
theorem mem_set_of_ne (h : entry ∈ entries) (other : entry.1 ≠ name) (value : α) :
    entry ∈ set entries name value := by
  induction entries with
  | nil => exact absurd h List.not_mem_nil
  | cons first rest ih =>
    rw [set]
    rcases List.mem_cons.1 h with rfl | h
    · rw [if_neg other]
      exact List.mem_cons_self ..
    · split
      · exact List.mem_cons_of_mem _ h
      · exact List.mem_cons_of_mem _ (ih h)

theorem mem_keys_set {other : String} {value : α} :
    other ∈ keys (set entries name value) ↔ other ∈ keys entries ∨ other = name := by
  rw [keys_set]
  split
  · next there =>
    refine ⟨Or.inl, fun h => h.elim id fun same => ?_⟩
    rwa [same]
  · rw [List.mem_append, List.mem_singleton]

/-- A name that is not there goes last. -/
theorem set_of_not_mem (free : name ∉ keys entries) (value : α) :
    set entries name value = entries ++ [(name, value)] := by
  induction entries with
  | nil => rfl
  | cons first rest ih =>
    obtain ⟨other, later⟩ := not_or.1 (mt List.mem_cons.2 free)
    rw [set, if_neg (Ne.symm other), ih later, List.cons_append]

/-- No name comes again that occurs once. -/
theorem not_mem_of_nodup_append {value : α} {more : Entries α}
    (once : (keys (entries ++ (name, value) :: more)).Nodup) :
    name ∉ keys entries := by
  rw [keys, List.map_append] at once
  intro there
  exact List.disjoint_of_nodup_append once there (List.mem_cons_self ..)

theorem nodup_keys_set (once : (keys entries).Nodup) (name : String) (value : α) :
    (keys (set entries name value)).Nodup := by
  rw [keys_set]
  split
  · exact once
  · next free => exact List.nodup_append.2 ⟨once, List.nodup_singleton name, by grind⟩

/-! ## Bindings one after the other -/

theorem keys_cons (first : String × α) (rest : Entries α) :
    keys (first :: rest) = first.1 :: keys rest :=
  rfl

theorem setAll_cons (entries : Entries α) (first : String × α) (rest : Entries α) :
    setAll entries (first :: rest) = setAll (set entries first.1 first.2) rest :=
  rfl

theorem setAll_append (entries added more : Entries α) :
    setAll entries (added ++ more) = setAll (setAll entries added) more :=
  List.foldl_append

/-- A name that is not bound anew is read as before. -/
theorem get?_setAll_of_not_mem (free : name ∉ keys added) (entries : Entries α) :
    get? (setAll entries added) name = get? entries name := by
  induction added generalizing entries with
  | nil => rfl
  | cons first rest ih =>
    obtain ⟨other, later⟩ := not_or.1 (mt List.mem_cons.2 free)
    rw [setAll_cons, ih later, get?_set_of_ne entries first.2 (Ne.symm other)]

/-- Of the entries that bind a name the last one is read. -/
theorem get?_setAll_of_last (entries before after : Entries α) (last : entry.1 ∉ keys after) :
    get? (setAll entries (before ++ entry :: after)) entry.1 = some entry.2 := by
  rw [setAll_append, setAll_cons, get?_setAll_of_not_mem last, get?_set_self]

/-- A name that is bound anew is read as one of the entries that bind it. -/
theorem get?_setAll_of_mem (bound : name ∈ keys added) (entries : Entries α) :
    ∃ entry ∈ added, get? (setAll entries added) name = some entry.2 := by
  induction added generalizing entries with
  | nil => exact absurd bound List.not_mem_nil
  | cons first rest ih =>
    by_cases later : name ∈ keys rest
    · obtain ⟨entry, inside, read⟩ := ih later (set entries first.1 first.2)
      exact ⟨entry, List.mem_cons_of_mem _ inside, read⟩
    · obtain rfl := (List.mem_cons.1 bound).resolve_right later
      exact ⟨first, List.mem_cons_self .., get?_setAll_of_last entries [] rest later⟩

/-- An entry stays where its name is not bound anew. -/
theorem mem_setAll_of_not_mem (h : entry ∈ entries) (free : entry.1 ∉ keys added) :
    entry ∈ setAll entries added := by
  induction added generalizing entries with
  | nil => exact h
  | cons first rest ih =>
    obtain ⟨other, later⟩ := not_or.1 (mt List.mem_cons.2 free)
    exact ih (mem_set_of_ne h other first.2) later

/-- Entries that bind each name once are all there. -/
theorem mem_setAll_of_nodup (once : (keys added).Nodup) (h : entry ∈ added) (entries : Entries α) :
    entry ∈ setAll entries added := by
  induction added generalizing entries with
  | nil => exact absurd h List.not_mem_nil
  | cons first rest ih =>
    obtain ⟨free, later⟩ := List.nodup_cons.1 once
    rcases List.mem_cons.1 h with rfl | h
    · rw [setAll_cons]
      exact mem_setAll_of_not_mem (mem_set_self entries _ _) free
    · exact ih later h _

theorem mem_keys_setAll :
    name ∈ keys (setAll entries added) ↔ name ∈ keys entries ∨ name ∈ keys added := by
  induction added generalizing entries with
  | nil => simp [setAll, keys]
  | cons first rest ih =>
    rw [setAll_cons, ih, mem_keys_set, or_assoc, keys_cons, List.mem_cons]

theorem nodup_keys_setAll (once : (keys entries).Nodup) (added : Entries α) :
    (keys (setAll entries added)).Nodup :=
  List.foldlRecOn (motive := fun bound : Entries α => (keys bound).Nodup) added _ once
    fun _ once entry _ => nodup_keys_set once entry.1 entry.2

/-! ## Free names filled one after the other -/

theorem get?_append (entries added : Entries α) (name : String) :
    get? (entries ++ added) name = (get? entries name).or (get? added name) := by
  induction entries with
  | nil => rfl
  | cons first rest ih =>
    rw [List.cons_append, get?, get?, ih]
    split <;> rfl

/-- A name that is read keeps its value, another one has the value that is added. -/
theorem get?_setMissing (entries : Entries α) (name : String) (value : α) (other : String) :
    get? (setMissing entries name value) other
      = (get? entries other).or (get? [(name, value)] other) := by
  rw [setMissing]
  cases found : get? entries name with
  | none => exact get?_append entries [(name, value)] other
  | some v =>
    by_cases same : name = other
    · rw [← same, found]
      rfl
    · rw [get?, if_neg same, get?_nil, Option.or_none]

theorem setAllMissing_cons (entries : Entries α) (first : String × α) (rest : Entries α) :
    setAllMissing entries (first :: rest)
      = setAllMissing (setMissing entries first.1 first.2) rest :=
  rfl

/-- The entries after free names are filled are those that were there and added ones. -/
theorem mem_setAllMissing (h : entry ∈ setAllMissing entries added) :
    entry ∈ entries ∨ entry ∈ added := by
  induction added generalizing entries with
  | nil => exact .inl h
  | cons first rest ih =>
    rw [setAllMissing_cons] at h
    rcases ih h with there | later
    · rw [setMissing] at there
      split at there
      · exact .inl there
      · rcases List.mem_append.1 there with there | here
        · exact .inl there
        · exact .inr (List.mem_singleton.1 here ▸ List.mem_cons_self ..)
    · exact .inr (List.mem_cons_of_mem first later)

/-- Of the entries of a name those that were there come first, and then the first that is added. -/
theorem get?_setAllMissing (entries added : Entries α) (name : String) :
    get? (setAllMissing entries added) name = (get? entries name).or (get? added name) := by
  induction added generalizing entries with
  | nil => exact (Option.or_none).symm
  | cons first rest ih =>
    rw [setAllMissing_cons, ih, get?_setMissing, Option.or_assoc, ← get?_append]
    rfl

section

variable {β : Type} (f : α → β)

theorem get?_map (entries : Entries α) (name : String) :
    get? (entries.map fun entry => (entry.1, f entry.2)) name = (get? entries name).map f := by
  induction entries with
  | nil => rfl
  | cons first rest ih =>
    rw [List.map_cons, get?, get?, ih]
    split <;> rfl

theorem map_setMissing (entries : Entries α) (name : String) (value : α) :
    (setMissing entries name value).map (fun entry => (entry.1, f entry.2))
      = setMissing (entries.map fun entry => (entry.1, f entry.2)) name (f value) := by
  rw [setMissing, setMissing, get?_map]
  cases get? entries name with
  | none => exact List.map_append
  | some v => rfl

/-- Which names are free does not depend on the values. -/
theorem map_setAllMissing (entries added : Entries α) :
    (setAllMissing entries added).map (fun entry => (entry.1, f entry.2))
      = setAllMissing (entries.map fun entry => (entry.1, f entry.2))
          (added.map fun entry => (entry.1, f entry.2)) := by
  induction added generalizing entries with
  | nil => rfl
  | cons first rest ih =>
    rw [setAllMissing_cons, ih, map_setMissing, List.map_cons, setAllMissing_cons]

end

end QueryForms.Entries
