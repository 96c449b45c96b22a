/-!
# Ordered entries

A record, a table of bindings and the aliases of a row are all lists of named entries, kept in the
order in which each name was first written. Binding a name again changes its value and leaves its
place. `get?` reads one name, and the lemmas below say what each change does to it.
-/

namespace QueryForms

/-- Named entries in the order of their first insertion. -/
abbrev Entries (α : Type) := List (String × α)

namespace Entries

variable {α : Type}

/-- The value under a name; of two entries with one name the first counts. -/
def get? : Entries α → String → Option α
  | [], _ => none
  | (key, value) :: rest, name => if key = name then some value else get? rest name

/-- Bind a name: a name already there keeps its place, a new one goes last. -/
def set : Entries α → String → α → Entries α
  | [], name, value => [(name, value)]
  | (key, old) :: rest, name, value =>
    if key = name then (key, value) :: rest else (key, old) :: set rest name value

/-- Bind every entry of `added` in turn. -/
def setAll (entries added : Entries α) : Entries α :=
  added.foldl (fun bound entry => set bound entry.1 entry.2) entries

/-- Add an entry only where its name is still free. -/
def setMissing (entries : Entries α) (name : String) (value : α) : Entries α :=
  match get? entries name with
  | some _ => entries
  | none => entries ++ [(name, value)]

/-- Add the entries of `added` whose names are still free, in turn. -/
def setAllMissing (entries added : Entries α) : Entries α :=
  added.foldl (fun bound entry => setMissing bound entry.1 entry.2) entries

/-- The entries of a list in which a name may recur: the first place and the last value count. -/
def ofList (list : List (String × α)) : Entries α :=
  setAll [] list

/-- The names, in order. -/
def keys (entries : Entries α) : List String :=
  entries.map Prod.fst

@[simp] theorem get?_nil (name : String) : get? ([] : Entries α) name = none := rfl

/-- Binding a name makes it readable. -/
theorem get?_set_self (entries : Entries α) (name : String) (value : α) :
    get? (set entries name value) name = some value := by
  induction entries with
  | nil => simp [set, get?]
  | cons entry rest ih =>
    obtain ⟨key, old⟩ := entry
    by_cases h : key = name <;> simp [set, get?, h, ih]

/-- Binding a name changes no other name. -/
theorem get?_set_of_ne (entries : Entries α) {name other : String} (value : α)
    (h : name ≠ other) : get? (set entries name value) other = get? entries other := by
  induction entries with
  | nil => simp [set, get?, h]
  | cons entry rest ih =>
    obtain ⟨key, old⟩ := entry
    by_cases hk : key = name
    · subst hk; simp [set, get?, h]
    · by_cases ho : key = other
      · have hno : other ≠ name := fun e => h e.symm
        simp [set, get?, hno, ho]
      · simp [set, get?, hk, ho, ih]

/-- Binding a name adds it last unless it is there. -/
theorem keys_set (entries : Entries α) (name : String) (value : α) :
    keys (set entries name value)
      = if name ∈ keys entries then keys entries else keys entries ++ [name] := by
  induction entries with
  | nil => simp [set, keys]
  | cons entry rest ih =>
    obtain ⟨key, old⟩ := entry
    by_cases h : key = name
    · subst h; simp [set, keys]
    · have h' : name ≠ key := fun e => h e.symm
      simp only [keys] at ih
      by_cases hm : name ∈ rest.map Prod.fst
      · simp [set, keys, h, hm, ih]
      · simp [set, keys, h, h', hm, ih]

end Entries

end QueryForms
