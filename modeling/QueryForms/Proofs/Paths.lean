import QueryForms.PlainOperators
import QueryForms.Proofs.Everywhere
import QueryForms.Proofs.Scope

/-!
# Paths through values

A path is cut at its dots and followed segment by segment, empty ones too, through records and
arrays. What stands at `p.q` then stands at `q` in what stands at `p`, but for one exception: a
field whose name is the whole path comes first. Where no name of a field has a dot
(`Value.Undotted`) the exception never counts and paths compose (`Value.paths_compose`), for `_get`
and for what a caller binds as well.
-/

namespace QueryForms

namespace Value

/-! ## Segments -/

theorem splitAll_ne_nil (mark : Char) (cs : List Char) : splitAll mark cs ≠ [] := by
  cases cs with
  | nil => exact List.cons_ne_nil _ _
  | cons c cs =>
    rw [splitAll]
    split
    · exact List.cons_ne_nil _ _
    · split <;> exact List.cons_ne_nil _ _

/-- A text in parts has the segments of the first part, and then those of the second. -/
theorem splitAll_append (mark : Char) (before after : List Char) :
    splitAll mark (before ++ mark :: after) = splitAll mark before ++ splitAll mark after := by
  induction before with
  | nil =>
    show splitAll mark (mark :: after) = [] :: splitAll mark after
    rw [splitAll, if_pos rfl]
  | cons c cs ih =>
    rw [List.cons_append, splitAll, splitAll, ih]
    split
    · rfl
    · -- the character is added to the first segment, and there is one
      cases segments : splitAll mark cs with
      | nil => exact absurd segments (splitAll_ne_nil mark cs)
      | cons first rest => rfl

theorem splitAll_path (p q : String) : splitAll '.' (p ++ "." ++ q).toList
    = splitAll '.' p.toList ++ splitAll '.' q.toList := by
  rw [String.toList_append, String.toList_append, List.append_assoc]
  exact splitAll_append '.' p.toList q.toList

/-- Following two lists of segments is following one after the other. -/
theorem walk?_append (v : Value) (first rest : List (List Char)) :
    v.walk? (first ++ rest) = (v.walk? first).bind fun w => w.walk? rest := by
  induction first generalizing v with
  | nil => rfl
  | cons segment later ih =>
    rw [List.cons_append, walk?, walk?, Option.bind_assoc]
    exact congrArg _ (funext ih)

/-! ## Names without a dot -/

/-- No name of a field has a dot, here or further inside. -/
def Undotted (v : Value) : Prop :=
  v.Everywhere fun part => ∀ name ∈ Entries.keys (Row.fieldsOf part), '.' ∉ name.toList

variable {v : Value}

theorem Undotted.get?_eq_none {fields : Record} (undotted : (object fields).Undotted)
    {name : String} (dotted : '.' ∈ name.toList) : Entries.get? fields name = none :=
  Option.eq_none_iff_forall_ne_some.2 fun _ found =>
    undotted.here name (List.mem_map_of_mem (Entries.mem_of_get? found)) dotted

/-- Where no name of a field has a dot, a path is followed segment by segment. -/
theorem lookupPath?_eq_walk? (undotted : v.Undotted) (path : String) :
    v.lookupPath? path = v.walk? (splitAll '.' path.toList) := by
  by_cases dotted : '.' ∈ path.toList
  · cases v with
    | object fields => rw [lookupPath?, undotted.get?_eq_none dotted]
    | _ => rfl
  · rw [lookupPath?_of_flat dotted, splitAll_of_not_mem dotted, walk?]
    exact (Option.bind_fun_some _).symm

/-- What stands at a path in two parts stands at the second part in what stands at the first. -/
theorem lookupPath?_append (undotted : v.Undotted) (p q : String) :
    v.lookupPath? (p ++ "." ++ q) = (v.lookupPath? p).bind fun w => w.lookupPath? q := by
  calc v.lookupPath? (p ++ "." ++ q)
      = (v.walk? (splitAll '.' p.toList)).bind fun w => w.walk? (splitAll '.' q.toList) := by
        rw [lookupPath?_eq_walk? undotted, splitAll_path, walk?_append]
    _ = (v.lookupPath? p).bind fun w => w.lookupPath? q := by
        rw [← lookupPath?_eq_walk? undotted]
        refine Option.bind_congr fun w found => ?_
        exact (lookupPath?_eq_walk? (undotted.lookupPath? found) q).symm

/-- Nothing stands at a path of the absent value. -/
theorem lookupPath?_null (path : String) : Value.null.lookupPath? path = none := by
  show walk? .null (splitAll '.' path.toList) = none
  cases segments : splitAll '.' path.toList with
  | nil => exact absurd segments (splitAll_ne_nil '.' path.toList)
  | cons first rest => rfl

end Value

/-! ## Where paths are followed -/

namespace PlainOperators

theorem get_path (v default : Value) (path : String) :
    get [v, .string path, default] = .ok (orDefault default (v.lookupPath? path)) :=
  rfl

theorem orDefault_null (found : Option Value) : orDefault .null found = found.getD .null := by
  rcases found with - | (- | _) <;> rfl

/-- A path in two parts may be read in two steps. -/
theorem get_append {v : Value} (undotted : v.Undotted) (p q : String) (default : Value) :
    get [v, .string (p ++ "." ++ q), default]
      = (get [v, .string p, .null]).bind fun w => get [w, .string q, default] := by
  rw [get_path, get_path, v.lookupPath?_append undotted, orDefault_null]
  show _ = get [(v.lookupPath? p).getD .null, .string q, default]
  rw [get_path]
  cases v.lookupPath? p with
  | none => rw [Option.getD_none, Value.lookupPath?_null, Option.bind_none]
  | some w => rfl

end PlainOperators

namespace Environment

/-- A name with a dot is cut at the first one. -/
theorem exists_splitDot? {name : String} (dotted : '.' ∈ name.toList) :
    ∃ first rest, splitDot? name = some (first, rest) ∧ name = first ++ "." ++ rest ∧
      '.' ∉ first.toList := by
  obtain ⟨before, after, whole, free⟩ := List.eq_append_cons_of_mem dotted
  refine ⟨String.ofList before, String.ofList after, ?_, ?_, ?_⟩
  · have other : ∀ c ∈ before, (c != '.') = true := fun c inside =>
      bne_iff_ne.2 fun same => free (same ▸ inside)
    rw [splitDot?, List.span_eq_takeWhile_dropWhile, whole, List.takeWhile_append_of_pos other,
      List.dropWhile_append_of_pos other]
    simp
  · rw [← String.toList_inj, whole]
    simp
  · rwa [String.toList_ofList]

/-- What a name means in a namespace is what stands at it in the record of the namespace. -/
theorem binding?_eq_lookupPath? {scope : Environment} {token : String} {names : Record}
    (namespaced : Entries.get? scope.bindings token = some names)
    (undotted : (Value.object names).Undotted) (name : String) :
    scope.binding? token name = (Value.object names).lookupPath? name := by
  by_cases dotted : '.' ∈ name.toList
  · obtain ⟨first, rest, cut, rfl, flat⟩ := exists_splitDot? dotted
    -- such a name is never bound as it stands, so both sides follow its path
    have unnamed : Entries.get? names (first ++ "." ++ rest) = none := undotted.get?_eq_none dotted
    rw [binding?_eq, cut, Context.bound?, namespaced, Option.bind_some, unnamed, Option.none_or,
      Value.lookupPath?_append undotted, Value.lookupPath?_of_flat flat, Value.step?,
      String.ofList_toList, Option.bind_some, Context.bound?, namespaced, Option.bind_some]
  · rw [binding?_of_flat dotted, Value.lookupPath?_of_flat dotted, Context.bound?, namespaced,
      Option.bind_some, Value.step?, String.ofList_toList]

end Environment

/-! ## Composition -/

namespace Value

/-- Where no name of a field has a dot, what stands at `p.q` is what stands at `q` in what stands at
`p`, and it is missing just where one of them is. So `_get` may read a path in two steps, and so may
a name in a namespace whose record is such a value. -/
theorem paths_compose {v : Value} (undotted : v.Undotted) (p q : String) :
    v.lookupPath? (p ++ "." ++ q) = (v.lookupPath? p).bind (fun w => w.lookupPath? q) ∧
      (v.lookupPath? (p ++ "." ++ q) = none ↔
        v.lookupPath? p = none ∨ ∃ w, v.lookupPath? p = some w ∧ w.lookupPath? q = none) ∧
      (∀ default, PlainOperators.get [v, .string (p ++ "." ++ q), default]
        = (PlainOperators.get [v, .string p, .null]).bind fun w =>
          PlainOperators.get [w, .string q, default]) ∧
      ∀ (scope : Environment) (token : String) (names : Record),
        Entries.get? scope.bindings token = some names → v = .object names →
        scope.binding? token (p ++ "." ++ q)
          = (scope.binding? token p).bind fun w => w.lookupPath? q := by
  have composes := lookupPath?_append undotted p q
  refine ⟨composes, ?_, fun default => PlainOperators.get_append undotted p q default, ?_⟩
  · rw [composes]
    cases v.lookupPath? p <;> simp
  · rintro scope token names namespaced rfl
    rw [Environment.binding?_eq_lookupPath? namespaced undotted, composes,
      Environment.binding?_eq_lookupPath? namespaced undotted]

/-- A path through an array and a field without a name, cut where an index ends. -/
theorem paths_compose_of_nested :
    ∃ v : Value, v.Undotted ∧
      v.lookupPath? "a.+0" = some (.object [("b", .object [("", .integer 1)])]) ∧
      v.lookupPath? ("a.+0" ++ "." ++ "b.") = some (.integer 1) ∧
      PlainOperators.get [v, .string ("a.1" ++ "." ++ "b."), .integer 2] = .ok (.integer 2) := by
  have leaf : (integer 1).Undotted := .of_parts_nil (fun _ named => nomatch named) rfl
  have undotted :
      (object [("a", .array [.object [("b", .object [("", .integer 1)])]])]).Undotted := by
    simpa [Undotted, Everywhere.object_iff, Everywhere.array_iff, Entries.keys, Row.fieldsOf]
      using leaf
  exact ⟨_, undotted, rfl, (paths_compose undotted "a.+0" "b.").1.trans rfl,
    ((paths_compose undotted "a.1" "b.").2.2.1 (.integer 2)).trans rfl⟩

/-- A field whose name is the whole path hides what stands at its steps. -/
example : (object [("a", .object [("b", .integer 1)]), ("a.b", .integer 2)]).lookupPath? "a.b"
    = some (.integer 2) :=
  rfl

end Value

end QueryForms
