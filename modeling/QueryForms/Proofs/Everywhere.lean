import QueryForms.Expr

/-!
# Properties that hold all the way down

`Value.Everywhere P` says that a value and everything an operator can take out of it have the
property `P`: the items of an array, the fields of a record, what the rows of a relation hold.
`Expr.Everywhere Q` says the same of an expression and the expressions inside it. Reading a path and
every view that operators take of their operands stay inside.
-/

namespace QueryForms

/-! ## Values -/

/-- The values that a row holds: its records, the keys of its group, its members as a relation. -/
def Row.parts (row : Row) : List Value :=
  row.tables.map Prod.snd ++ (row.groups.getD []).map Prod.snd ++ row.items.toList.map Value.rows

/-- The values that can be taken out of a value in one step. -/
def Value.parts : Value → List Value
  | .array items => items
  | .object fields => fields.map Prod.snd
  | .rows list => list.flatMap Row.parts
  | _ => []

/-- A value has a property, and so has everything that can be taken out of it. -/
inductive Value.Everywhere (P : Value → Prop) : Value → Prop where
  | intro {v : Value} (here : P v) (inside : ∀ part ∈ v.parts, Value.Everywhere P part) :
    Value.Everywhere P v

/-- Whether a value is data of its own: no relation and no part of a statement. -/
def Value.isPlain : Value → Bool
  | .rows _ => false
  | .column _ => false
  | .fragment _ => false
  | _ => true

/-- Plain data all the way down, as JSON has it. -/
def Value.Plain (v : Value) : Prop :=
  v.Everywhere fun part => part.isPlain = true

namespace Value.Everywhere

variable {P R : Value → Prop} {v : Value}

theorem here (h : v.Everywhere P) : P v := by
  cases h; assumption

theorem inside (h : v.Everywhere P) {part : Value} (hp : part ∈ v.parts) : part.Everywhere P := by
  cases h with
  | intro _ inside => exact inside part hp

theorem mono (h : v.Everywhere P) (imp : ∀ v, P v → R v) : v.Everywhere R := by
  induction h with
  | intro here _ ih => exact ⟨imp _ here, ih⟩

/-- A value with nothing inside. -/
theorem of_parts_nil (here : P v) (none : v.parts = []) : v.Everywhere P :=
  ⟨here, fun _ hp => absurd (none ▸ hp) List.not_mem_nil⟩

theorem array_iff {items : List Value} :
    (Value.array items).Everywhere P ↔ P (.array items) ∧ ∀ v ∈ items, v.Everywhere P :=
  ⟨fun h => ⟨h.here, fun _ hv => h.inside hv⟩, fun ⟨here, inside⟩ => ⟨here, inside⟩⟩

theorem object_iff {fields : List (String × Value)} :
    (Value.object fields).Everywhere P
      ↔ P (.object fields) ∧ ∀ field ∈ fields, field.2.Everywhere P := by
  refine ⟨fun h => ⟨h.here, fun field hf => h.inside (List.mem_map_of_mem hf)⟩, ?_⟩
  rintro ⟨here, inside⟩
  refine ⟨here, fun part hp => ?_⟩
  obtain ⟨field, hf, rfl⟩ := List.mem_map.1 hp
  exact inside field hf

end Value.Everywhere

/-- What is read under a name is one of the entries. -/
theorem Entries.mem_of_get? {α : Type} {entries : Entries α} {name : String} {a : α}
    (h : get? entries name = some a) : (name, a) ∈ entries := by
  induction entries with
  | nil => simp at h
  | cons entry rest ih =>
    obtain ⟨key, value⟩ := entry
    rw [get?] at h
    split at h
    · next eq => simp_all
    · exact List.mem_cons_of_mem _ (ih h)

/-- After a binding there are the entries before it and the new one. -/
theorem Entries.mem_set {α : Type} {entries : Entries α} {name : String} {value : α}
    {entry : String × α} (h : entry ∈ set entries name value) :
    entry ∈ entries ∨ entry.2 = value := by
  induction entries with
  | nil => simp_all [set]
  | cons first rest ih =>
    obtain ⟨key, old⟩ := first
    rw [set] at h
    split at h
    · grind
    · rcases List.mem_cons.1 h with rfl | h
      · exact .inl (List.mem_cons_self ..)
      · exact (ih h).imp_left (List.mem_cons_of_mem _)

namespace Entries

variable {α : Type} {P : α → Prop} {entries added : Entries α}

theorem forall_set (he : ∀ entry ∈ entries, P entry.2) (name : String) {value : α} (hv : P value) :
    ∀ entry ∈ set entries name value, P entry.2 := by
  intro entry h
  rcases mem_set h with h | h
  · exact he entry h
  · exact h ▸ hv

theorem forall_setMissing (he : ∀ entry ∈ entries, P entry.2) (name : String) {value : α}
    (hv : P value) : ∀ entry ∈ setMissing entries name value, P entry.2 := by
  rw [setMissing]
  split
  · exact he
  · exact List.forall_mem_append.2 ⟨he, List.forall_mem_singleton.2 hv⟩

/-- Entries that are bound one after the other are those that were there or those that are added. -/
theorem forall_setAll (he : ∀ entry ∈ entries, P entry.2) (ha : ∀ entry ∈ added, P entry.2) :
    ∀ entry ∈ setAll entries added, P entry.2 :=
  List.foldlRecOn (motive := fun bound : Entries α => ∀ entry ∈ bound, P entry.2) added _ he
    fun _ bound entry hm => forall_set bound entry.1 (ha entry hm)

theorem forall_setAllMissing (he : ∀ entry ∈ entries, P entry.2)
    (ha : ∀ entry ∈ added, P entry.2) : ∀ entry ∈ setAllMissing entries added, P entry.2 :=
  List.foldlRecOn (motive := fun bound : Entries α => ∀ entry ∈ bound, P entry.2) added _ he
    fun _ bound entry hm => forall_setMissing bound entry.1 (ha entry hm)

theorem forall_ofList {list : List (String × α)} (h : ∀ entry ∈ list, P entry.2) :
    ∀ entry ∈ ofList list, P entry.2 :=
  forall_setAll (fun _ hm => absurd hm List.not_mem_nil) h

end Entries

namespace Value.Everywhere

variable {P : Value → Prop} {v w : Value}

theorem step? (h : v.Everywhere P) {segment : List Char} (hw : v.step? segment = some w) :
    w.Everywhere P := by
  cases v with
  | object fields => exact (object_iff.1 h).2 _ (Entries.mem_of_get? hw)
  | array items =>
    obtain ⟨i, -, hi⟩ := Option.bind_eq_some_iff.1 hw
    exact (array_iff.1 h).2 w (List.mem_of_getElem? hi)
  | _ => simp [Value.step?] at hw

theorem walk? {segments : List (List Char)} (h : v.Everywhere P)
    (hw : v.walk? segments = some w) : w.Everywhere P := by
  induction segments generalizing v with
  | nil => exact Option.some.inj hw ▸ h
  | cons segment rest ih =>
    obtain ⟨next, hn, hw⟩ := Option.bind_eq_some_iff.1 hw
    exact ih (h.step? hn) hw

/-- What stands at a path of a value stands inside it. -/
theorem lookupPath? {path : String} (h : v.Everywhere P) (hw : v.lookupPath? path = some w) :
    w.Everywhere P := by
  cases v with
  | object fields =>
    simp only [Value.lookupPath?] at hw
    split at hw
    · next found whole =>
      exact Option.some.inj hw ▸ (object_iff.1 h).2 _ (Entries.mem_of_get? whole)
    · exact h.walk? hw
  | _ => exact h.walk? hw

end Value.Everywhere

/-! ### Sizes -/

theorem sizeOf_lt_of_mem_map_snd {α β : Type} [SizeOf α] [SizeOf β] {list : List (α × β)} {b : β}
    (h : b ∈ list.map Prod.snd) : sizeOf b < sizeOf list := by
  obtain ⟨⟨a, b⟩, pair, rfl⟩ := List.mem_map.1 h
  have inside := List.sizeOf_lt_of_mem pair
  simp only [Prod.mk.sizeOf_spec] at inside
  dsimp only
  omega

theorem Row.sizeOf_lt_of_mem_parts {row : Row} {part : Value} (h : part ∈ row.parts) :
    sizeOf part < sizeOf row := by
  obtain ⟨tables, groups, items⟩ := row
  simp only [Row.parts, List.mem_append] at h
  simp only [Row.mk.sizeOf_spec]
  rcases h with (h | h) | h
  · have := sizeOf_lt_of_mem_map_snd h
    omega
  · cases groups with
    | none => exact absurd h List.not_mem_nil
    | some keys =>
      have inside : sizeOf part < sizeOf keys := sizeOf_lt_of_mem_map_snd h
      simp only [Option.some.sizeOf_spec]
      omega
  · cases items with
    | none => exact absurd h List.not_mem_nil
    | some members =>
      obtain rfl := List.mem_singleton.1 h
      simp only [Option.some.sizeOf_spec, Value.rows.sizeOf_spec]
      omega

/-- What can be taken out of a value is smaller than it. -/
theorem Value.sizeOf_lt_of_mem_parts {v part : Value} (h : part ∈ v.parts) :
    sizeOf part < sizeOf v := by
  cases v with
  | array items =>
    have := List.sizeOf_lt_of_mem (show part ∈ items from h)
    simp only [Value.array.sizeOf_spec]
    omega
  | object fields =>
    have := sizeOf_lt_of_mem_map_snd (show part ∈ fields.map Prod.snd from h)
    simp only [Value.object.sizeOf_spec]
    omega
  | rows list =>
    obtain ⟨row, hr, h⟩ := List.mem_flatMap.1 h
    have := List.sizeOf_lt_of_mem hr
    have := Row.sizeOf_lt_of_mem_parts h
    simp only [Value.rows.sizeOf_spec]
    omega
  | _ => exact absurd h List.not_mem_nil

/-- What every value has, a value has all the way down. -/
theorem Value.Everywhere.of_forall {P : Value → Prop} (h : ∀ v, P v) (v : Value) : v.Everywhere P :=
  ⟨h v, fun part _ => of_forall h part⟩
termination_by sizeOf v
decreasing_by exact sizeOf_lt_of_mem_parts ‹_›

/-! ## Expressions -/

/-- The expressions that stand in an expression in one step. -/
def Expr.parts : Expr → List Expr
  | .list items => items
  | .record fields => fields.map Prod.snd
  | _ => []

/-- An expression has a property, and so has every expression inside it. -/
inductive Expr.Everywhere (Q : Expr → Prop) : Expr → Prop where
  | intro {e : Expr} (here : Q e) (inside : ∀ part ∈ e.parts, Expr.Everywhere Q part) :
    Expr.Everywhere Q e

namespace Expr.Everywhere

variable {Q R : Expr → Prop} {e : Expr}

theorem here (h : e.Everywhere Q) : Q e := by
  cases h; assumption

theorem inside (h : e.Everywhere Q) {part : Expr} (hp : part ∈ e.parts) : part.Everywhere Q := by
  cases h with
  | intro _ inside => exact inside part hp

theorem mono (h : e.Everywhere Q) (imp : ∀ e, Q e → R e) : e.Everywhere R := by
  induction h with
  | intro here _ ih => exact ⟨imp _ here, ih⟩

theorem and (hq : e.Everywhere Q) (hr : e.Everywhere R) :
    e.Everywhere fun part => Q part ∧ R part := by
  induction hq with
  | intro here _ ih => exact ⟨⟨here, hr.here⟩, fun part hp => ih part hp (hr.inside hp)⟩

/-- An expression with nothing inside. -/
theorem of_parts_nil (here : Q e) (none : e.parts = []) : e.Everywhere Q :=
  ⟨here, fun _ hp => absurd (none ▸ hp) List.not_mem_nil⟩

@[simp] theorem literal_iff {v : Value} : (Expr.literal v).Everywhere Q ↔ Q (.literal v) :=
  ⟨here, fun h => of_parts_nil h rfl⟩

@[simp] theorem symbol_iff {s : String} : (Expr.symbol s).Everywhere Q ↔ Q (.symbol s) :=
  ⟨here, fun h => of_parts_nil h rfl⟩

@[simp] theorem quoted_iff {items : List Value} :
    (Expr.quoted items).Everywhere Q ↔ Q (.quoted items) :=
  ⟨here, fun h => of_parts_nil h rfl⟩

@[simp] theorem list_iff {items : List Expr} :
    (Expr.list items).Everywhere Q ↔ Q (.list items) ∧ ∀ e ∈ items, e.Everywhere Q :=
  ⟨fun h => ⟨h.here, fun _ he => h.inside he⟩, fun ⟨here, inside⟩ => ⟨here, inside⟩⟩

@[simp] theorem record_iff {fields : List (String × Expr)} :
    (Expr.record fields).Everywhere Q
      ↔ Q (.record fields) ∧ ∀ field ∈ fields, field.2.Everywhere Q := by
  refine ⟨fun h => ⟨h.here, fun field hf => h.inside (List.mem_map_of_mem hf)⟩, ?_⟩
  rintro ⟨here, inside⟩
  refine ⟨here, fun part hp => ?_⟩
  obtain ⟨field, hf, rfl⟩ := List.mem_map.1 hp
  exact inside field hf

theorem operands (h : e.Everywhere Q) {operand : Expr} (hm : operand ∈ e.operands) :
    operand.Everywhere Q := by
  cases e with
  | list items =>
    cases items with
    | nil => simp [Expr.operands] at hm
    | cons head rest => exact h.inside (List.mem_cons_of_mem head hm)
  | _ => simp [Expr.operands] at hm

theorem items (h : e.Everywhere Q) {item : Expr} (hm : item ∈ e.items) : item.Everywhere Q := by
  cases e with
  | list inside => exact h.inside hm
  | _ => exact List.mem_singleton.1 hm ▸ h

theorem itemsOrNone (h : e.Everywhere Q) {item : Expr} (hm : item ∈ e.itemsOrNone) :
    item.Everywhere Q := by
  rw [Expr.itemsOrNone] at hm
  split at hm
  · simp at hm
  · exact h.items hm

theorem elements (h : e.Everywhere Q) {item : Expr} (hm : item ∈ e.elements) :
    item.Everywhere Q := by
  cases e with
  | list inside =>
    simp only [Expr.elements] at hm
    split at hm
    · exact h.inside hm
    · exact List.mem_singleton.1 hm ▸ h
  | _ => exact List.mem_singleton.1 hm ▸ h

theorem field? (h : e.Everywhere Q) {name : String} {part : Expr}
    (hp : e.field? name = some part) : part.Everywhere Q := by
  cases e with
  | record fields => exact h.inside (List.mem_map_of_mem (Entries.mem_of_get? hp))
  | _ => simp [Expr.field?] at hp

end Expr.Everywhere

end QueryForms
