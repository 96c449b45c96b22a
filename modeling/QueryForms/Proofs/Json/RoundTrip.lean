import QueryForms.Proofs.Json.Exact
import QueryForms.Proofs.Json.Reader

/-!
# Values read back from their texts

The compact and the indented text of a document spell the same tokens, as blanks between tokens
spell none (`writes_prettyChars`). So a value that JSON can carry is read back from both, the order
of fields included, unless it is deeper than the reader goes (`texts_read_back`).
-/

namespace QueryForms

namespace Json

/-! ## Indented text -/

/-- A blank between tokens is passed over. -/
theorem begin?_of_isSpace {c : Char} (h : isSpace c = true) (back : List Token) :
    begin? back c = some ⟨.between, back⟩ :=
  if_pos h

theorem isWordChar_of_isSpace {c : Char} (h : isSpace c = true) : isWordChar c = false := by
  by_contra word
  have begins := begin?_of_isWordChar (Bool.not_eq_false _ ▸ word) []
  rw [begin?_of_isSpace h] at begins
  cases begins

namespace Writes

variable {cs ds : List Char} {tokens : List Token}

/-- Blanks before a text. -/
theorem blanks_append (hd : ∀ c ∈ ds, isSpace c = true) (h : Writes cs tokens) :
    Writes (ds ++ cs) tokens := by
  induction ds with
  | nil => exact h
  | cons c ds ih =>
    obtain ⟨blank, hd⟩ := List.forall_mem_cons.1 hd
    intro back
    obtain ⟨s, run, settles⟩ := ih hd back
    refine ⟨s, ?_, settles⟩
    rw [List.cons_append, Scan.run?_cons]
    show (begin? back c).bind _ = _
    rw [begin?_of_isSpace blank, Option.bind_some, run]

/-- Blanks after a text. -/
theorem append_blanks (h : Writes cs tokens) (hd : ∀ c ∈ ds, isSpace c = true) :
    Writes (cs ++ ds) tokens := by
  cases ds with
  | nil => rwa [List.append_nil]
  | cons c ds =>
    obtain ⟨blank, hd⟩ := List.forall_mem_cons.1 hd
    intro back
    obtain ⟨s, run, settles⟩ := h back
    -- the first blank ends the text, and the others change nothing any more
    obtain ⟨t, rest, settles'⟩ := blanks_append hd nil (tokens.reverse ++ back)
    rw [List.append_nil] at rest
    refine ⟨t, ?_, settles'⟩
    rw [Scan.run?_append, run, Option.bind_some, Scan.run?_cons,
      settles.next (isWordChar_of_isSpace blank), begin?_of_isSpace blank, Option.bind_some, rest]

end Writes

theorem isSpace_of_mem_lineBreak (depth : Nat) {c : Char} (h : c ∈ lineBreak depth) :
    isSpace c = true := by
  rcases List.mem_cons.1 h with rfl | h
  · rfl
  · exact List.eq_of_mem_replicate h ▸ rfl

/-- A name, a colon, a blank and a text. -/
theorem writes_spacedField (name : String) {cs : List Char} {tokens : List Token}
    (h : Writes cs tokens) :
    Writes (quote name ++ ':' :: ' ' :: cs) (.scalar (.string name) :: .colon :: tokens) := by
  have blank : ∀ c ∈ [' '], isSpace c = true := List.forall_mem_singleton.2 rfl
  exact writes_field name (h.blanks_append blank)

mutual

/-- The indented text of a document spells the tokens of the document, as its compact text does. -/
theorem writes_prettyChars (depth : Nat) : ∀ {j : Json}, j.isExact = true →
    Writes (prettyChars depth j) j.tokens
  | .null, exact | .boolean _, exact | .integer _, exact | .string _, exact =>
    writes_compactChars exact
  | .array [], exact | .object [], exact => writes_compactChars exact
  | .array (item :: rest), exact => by
    rw [isExact, isExactList, Bool.and_eq_true] at exact
    rw [prettyChars, tokens]
    have first := (writes_prettyChars (depth + 1) exact.1).blanks_append
      fun _ => isSpace_of_mem_lineBreak (depth + 1)
    have items := (writes_prettyItems (depth + 1) exact.2 first).append_blanks
      fun _ => isSpace_of_mem_lineBreak depth
    exact .cons rfl (items.concat rfl)
  | .object ((name, value) :: rest), exact => by
    rw [isExact, isExactFields, Bool.and_eq_true] at exact
    rw [prettyChars, tokens]
    have first := (writes_spacedField name (writes_prettyChars (depth + 1) exact.1)).blanks_append
      fun _ => isSpace_of_mem_lineBreak (depth + 1)
    have fields := (writes_prettyFields (depth + 1) exact.2 first).append_blanks
      fun _ => isSpace_of_mem_lineBreak depth
    rw [← List.append_assoc] at fields
    exact .cons rfl (fields.concat rfl)

/-- Further items after a text, each on a line of its own. -/
theorem writes_prettyItems (depth : Nat) : ∀ {items : List Json}, isExactList items = true →
    ∀ {cs : List Char} {before : List Token}, Writes cs before →
      Writes (cs ++ prettyItems depth items) (before ++ itemTokens items)
  | [], _, cs, before, h => by rwa [prettyItems, itemTokens, List.append_nil, List.append_nil]
  | item :: rest, exact, cs, before, h => by
    rw [isExactList, Bool.and_eq_true] at exact
    rw [prettyItems, itemTokens]
    have next := (writes_prettyChars depth exact.1).blanks_append
      fun _ => isSpace_of_mem_lineBreak depth
    exact h.append rfl (writes_prettyItems depth exact.2 next)

/-- Further fields after a text, each on a line of its own. -/
theorem writes_prettyFields (depth : Nat) : ∀ {fields : List (String × Json)},
    isExactFields fields = true → ∀ {cs : List Char} {before : List Token}, Writes cs before →
      Writes (cs ++ prettyFields depth fields) (before ++ fieldTokens fields)
  | [], _, cs, before, h => by rwa [prettyFields, fieldTokens, List.append_nil, List.append_nil]
  | (name, value) :: rest, exact, cs, before, h => by
    rw [isExactFields, Bool.and_eq_true] at exact
    rw [prettyFields, fieldTokens]
    have next := (writes_spacedField name (writes_prettyChars depth exact.1)).blanks_append
      fun _ => isSpace_of_mem_lineBreak depth
    rw [← List.append_assoc] at next
    exact h.append rfl (writes_prettyFields depth exact.2 next)

end

/-- A text that spells the tokens of a document is read as the document, unless it is too deep. -/
theorem parse?_of_writes {text : List Char} {j : Json} (spells : Writes text j.tokens)
    (once : j.namesOnce = true) :
    parse? (String.ofList text) = if j.depth ≤ maxDepth then some j else none := by
  rw [parse?, String.toList_ofList, spells.scan?_eq, Option.bind_some, ofTokens?_tokens once]

end Json

/-! ## Values -/

namespace Value

mutual

/-- The most arrays and records of a value that stand one in the other. -/
def depth : Value → Nat
  | .array items => depthOfList items + 1
  | .object fields => depthOfFields fields + 1
  | _ => 0

/-- The greatest depth of values. -/
def depthOfList : List Value → Nat
  | [] => 0
  | v :: rest => max (depth v) (depthOfList rest)

/-- The greatest depth of the fields of a record. -/
def depthOfFields : List (String × Value) → Nat
  | [] => 0
  | (_, v) :: rest => max (depth v) (depthOfFields rest)

end

/-- Whether a value is of a type that JSON has, other than a float; a record names each field
once. -/
def isPortable : Value → Bool
  | .object fields => decide (Entries.keys fields).Nodup
  | v => v.isExact

/-- Portable all the way down. -/
def Portable (v : Value) : Prop :=
  v.Everywhere fun part => part.isPortable = true

namespace Portable

variable {v : Value}

theorem exact (h : v.Portable) : v.Exact :=
  h.mono fun part here => by cases part <;> first | rfl | cases here

/-- The document of a portable value names no field of an object twice. -/
theorem namesOnce_toJson (h : v.Portable) : v.toJson.namesOnce = true := by
  induction h with
  | @intro v here _ ih =>
    cases v with
    | array items =>
      rw [toJson, toJsonList_eq_map, Json.namesOnce, Json.namesOnceInList_iff]
      exact List.forall_mem_map.2 ih
    | object fields =>
      rw [toJson, toJsonFields_eq_map, Json.namesOnce, Bool.and_eq_true, Json.namesOnceInFields_iff]
      refine ⟨?_, List.forall_mem_map.2 fun field hf => ih _ (List.mem_map_of_mem hf)⟩
      rw [Entries.keys, List.map_map]
      exact here
    | null | boolean _ | integer _ | string _ => rfl
    | _ => cases here

end Portable

theorem depthOfList_toJson {items : List Value} (h : ∀ v ∈ items, v.toJson.depth = v.depth) :
    Json.depthOfList (toJsonList items) = depthOfList items := by
  induction items with
  | nil => rfl
  | cons v rest ih =>
    obtain ⟨first, others⟩ := List.forall_mem_cons.1 h
    rw [toJsonList, Json.depthOfList, depthOfList, first, ih others]

theorem depthOfFields_toJson {fields : List (String × Value)}
    (h : ∀ field ∈ fields, field.2.toJson.depth = field.2.depth) :
    Json.depthOfFields (toJsonFields fields) = depthOfFields fields := by
  induction fields with
  | nil => rfl
  | cons field rest ih =>
    obtain ⟨first, others⟩ := List.forall_mem_cons.1 h
    rw [toJsonFields, Json.depthOfFields, depthOfFields, first, ih others]

/-- The document of an exact value is as deep as the value. -/
theorem Exact.depth_toJson {v : Value} (h : v.Exact) : v.toJson.depth = v.depth := by
  induction h with
  | @intro v here _ ih =>
    cases v with
    | array items => rw [toJson, Json.depth, depth, @depthOfList_toJson items ih]
    | object fields =>
      rw [toJson, Json.depth, depth,
        depthOfFields_toJson fun field hf => ih _ (List.mem_map_of_mem hf)]
    | null | boolean _ | integer _ | string _ => rfl
    | _ => cases here

/-- A text that spells the document of a portable value is read as the value, unless it is too
deep. -/
theorem Portable.parse?_of_writes {v : Value} (h : v.Portable) {text : List Char}
    (spells : Json.Writes text v.toJson.tokens) :
    parse? (String.ofList text) = if v.depth ≤ Json.maxDepth then some v else none := by
  rw [parse?, Json.parse?_of_writes spells h.namesOnce_toJson, h.exact.depth_toJson]
  split_ifs
  · rw [Option.map_some, h.exact.ofJson_toJson]
  · rfl

/-- A value of null, truth values, integers, texts, arrays and records, the names of a record all
different, is read back from its compact and from its indented text, in which the fields keep their
order. The texts of a value that is more than 127 deep are refused. -/
theorem texts_read_back {v : Value} (h : v.Portable) :
    (v.depth ≤ Json.maxDepth →
      parse? v.toJson.compact = some v ∧ parse? v.toJson.pretty = some v) ∧
    (Json.maxDepth < v.depth →
      parse? v.toJson.compact = none ∧ parse? v.toJson.pretty = none) := by
  have plain := h.exact.isExact_toJson
  have compact := h.parse?_of_writes (Json.writes_compactChars plain)
  have pretty := h.parse?_of_writes (Json.writes_prettyChars 0 plain)
  refine ⟨fun fits => ?_, fun deep => ?_⟩
  · rw [if_pos fits] at compact pretty
    exact ⟨compact, pretty⟩
  · rw [if_neg (Nat.not_le.2 deep)] at compact pretty
    exact ⟨compact, pretty⟩

/-- Marks, a control character, the least integer and empty containers, in a record whose fields are
not in the order of their names. -/
theorem record_reads_back :
    let v := Value.object [("b\"\\", .array [.integer Int64.minValue, .object [], .array []]),
      ("a", .string "\x01\n\u2028")]
    v.depth = 3 ∧ parse? v.toJson.compact = some v ∧ parse? v.toJson.pretty = some v := by
  intro v
  have portable : v.Portable := by
    have leaf : ∀ {v : Value}, v.isPortable = true → v.parts = [] → v.Portable :=
      fun here none => .of_parts_nil here none
    have items : (Value.array [.integer Int64.minValue, .object [], .array []]).Portable :=
      Everywhere.array_iff.2 ⟨rfl, List.forall_mem_cons.2 ⟨leaf rfl rfl, List.forall_mem_cons.2
        ⟨leaf rfl rfl, List.forall_mem_singleton.2 (leaf rfl rfl)⟩⟩⟩
    exact Everywhere.object_iff.2 ⟨by decide, List.forall_mem_cons.2
      ⟨items, List.forall_mem_singleton.2 (leaf rfl rfl)⟩⟩
  exact ⟨rfl, (texts_read_back portable).1 (by decide)⟩

end Value

end QueryForms
