import QueryForms.Proofs.Rows

/-!
# Rows under a mask

The names of the tables of a row matter only to those who spell them. A `Row.Mask` changes names of
tables and leaves the records, the keys and the members where they are, so what is read by the name
of a field alone is the same (`Row.Mask.lookup_hide`), and so are all fields as one record
(`Row.Mask.flatten_hide`). What is blind to a mask cannot tell rows apart that are the same under it
(`Row.Mask.map_congr`).
-/

namespace QueryForms.Row

/-- A change of the names of tables. -/
structure Mask where
  /-- The row under the mask. -/
  hide : Row → Row
  /-- The keys of a group stay. -/
  groups : ∀ row, (hide row).groups = row.groups
  /-- The records stay in their places. -/
  records : ∀ row, (hide row).tables.map Prod.snd = row.tables.map Prod.snd
  /-- The members of a row are under the mask as well. -/
  members : ∀ row, (hide row).members = row.members.map hide
  /-- The rows of a group may be under the mask before or after they are put together. -/
  ofGroup : ∀ list, hide (ofGroup [] list) = Row.ofGroup [] (list.map hide)

namespace Mask

/-- The mask that hides nothing. -/
def clear : Mask where
  hide := id
  groups _ := rfl
  records _ := rfl
  members _ := (List.map_id _).symm
  ofGroup _ := congrArg (Row.ofGroup []) (List.map_id _).symm

variable (m : Mask) (row : Row)

/-! ## What is blind to a mask -/

theorem groupKey?_hide (name : String) : (m.hide row).groupKey? name = row.groupKey? name := by
  rw [groupKey?, groupKey?, m.groups]

theorem isGrouped_hide : (m.hide row).isGrouped = row.isGrouped := by
  rw [isGrouped, isGrouped, m.groups]

/-- A field is found by its name alone. -/
theorem lookup_hide (field : String) : (m.hide row).lookup field = row.lookup field := by
  have found : ∀ tables : List (String × Value),
      tables.findSome? (fun table => table.2.lookupPath? field)
        = (tables.map Prod.snd).findSome? fun record => record.lookupPath? field := by
    intro tables
    rw [List.findSome?_map]
    rfl
  rw [lookup, lookup, groupKey?_hide, found, found, m.records]

/-- A field of a table is found where the name of the table stays. -/
theorem lookupQualified_hide {table : String}
    (stays : Entries.get? (m.hide row).tables table = Entries.get? row.tables table)
    (field : String) :
    (m.hide row).lookupQualified table field = row.lookupQualified table field := by
  rw [lookupQualified, lookupQualified, groupKey?_hide, stays]

/-- All fields as one record are the same. -/
theorem flatten_hide : (m.hide row).flatten = row.flatten := by
  have fields : ∀ (tables : List (String × Value)) (start : Record),
      tables.foldl (fun out table => Entries.setAllMissing out (fieldsOf table.2)) start
        = (tables.map Prod.snd).foldl
            (fun out record => Entries.setAllMissing out (fieldsOf record)) start := by
    intro tables start
    rw [List.foldl_map]
  rw [flatten, flatten, m.groups, fields, fields, m.records]

/-! ## What cannot tell rows apart that are the same under a mask -/

section

variable {m} {a b : Option Row} (same : a.map m.hide = b.map m.hide)

include same

theorem map_congr {α : Type} {read : Row → α} (blind : ∀ row, read (m.hide row) = read row) :
    a.map read = b.map read := by
  have through : ∀ o : Option Row, o.map read = (o.map m.hide).map read := fun o => by
    rw [Option.map_map]
    exact congrArg (o.map ·) (funext fun row => (blind row).symm)
  rw [through a, through b, same]

theorem bind_congr {α : Type} {read : Row → Option α}
    (blind : ∀ row, read (m.hide row) = read row) : a.bind read = b.bind read := by
  have seen := congrArg (Option.bind · id) (map_congr same blind)
  simpa only [Option.bind_map, Function.id_comp] using seen

end

section

variable {m} {a b : Environment} (same : a.row.map m.hide = b.row.map m.hide)

include same

/-- The fields of the first table are those of its record. -/
theorem firstRecord_congr : Relation.firstRecord a = Relation.firstRecord b := by
  have seen : ∀ env : Environment, Relation.firstRecord env
      = ((env.row.bind fun row => (row.tables.map Prod.snd).head?).map fieldsOf).getD [] := by
    intro env
    rw [Relation.firstRecord]
    cases env.row with
    | none => rfl
    | some row =>
      simp only [Option.bind_some, List.head?_map]
      cases row.tables.head? <;> rfl
  rw [seen, seen, bind_congr same fun row => congrArg List.head? (m.records row)]

/-- The fields of a table that the mask leaves alone. -/
theorem qualifiedRecord_congr {table : String}
    (stays : ∀ row, Entries.get? (m.hide row).tables table = Entries.get? row.tables table) :
    Relation.qualifiedRecord a table = Relation.qualifiedRecord b table := by
  rw [Relation.qualifiedRecord, Relation.qualifiedRecord, bind_congr same stays]

end

/-! ## Rows of a projection -/

/-- A projection shows the rows under the mask that it shows without. -/
theorem selectedRows_hide (fields : List Expr) (list : List Row) :
    Relation.selectedRows fields (list.map m.hide)
      = (Relation.selectedRows fields list).map m.hide := by
  have grouped : (list.map m.hide).any isGrouped = list.any isGrouped := by
    rw [List.any_map]
    exact congrArg list.any (funext m.isGrouped_hide)
  rw [Relation.selectedRows, Relation.selectedRows, grouped]
  split
  · rw [List.map_singleton, m.ofGroup]
  · rfl

theorem indexed_hide (list : List Row) :
    Windowed.indexed (list.map m.hide) = (Windowed.indexed list).map (Prod.map id m.hide) := by
  rw [Windowed.indexed, Windowed.indexed, List.length_map, List.zip_map_right]

/-- What window calls see, with the rows of a projection under the mask. -/
def hideWindow : WindowState → WindowState
  | .source rows index => .source (rows.map m.hide) index
  | w => w

theorem hideWindow_clear (w : WindowState) : clear.hideWindow w = w := by
  cases w with
  | source rows index => exact congrArg (WindowState.source · index) (List.map_id rows)
  | _ => rfl

theorem hideWindow_clear_inj {v w : WindowState} (same : clear.hideWindow v = clear.hideWindow w) :
    v = w := by
  rwa [hideWindow_clear, hideWindow_clear] at same

end Mask

end QueryForms.Row
