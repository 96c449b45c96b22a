import QueryForms.Json.Reader
import QueryForms.Proofs.Entries
import QueryForms.Proofs.Json.Scan

/-!
# The tokens of a document read

The reader holds one open container for each level of a document, and puts what it has read behind
what came before. So from any place where a value may begin, the tokens of a document lead to the
place after it, if there is room for its depth, and are refused otherwise (`leads_tokens`); no
object in it may name a field twice.
-/

namespace QueryForms.Json

/-! ## Depth and names -/

mutual

/-- The most containers of a document that are open at one place. -/
def depth : Json → Nat
  | .array items => depthOfList items + 1
  | .object fields => depthOfFields fields + 1
  | _ => 0

/-- The greatest depth of documents. -/
def depthOfList : List Json → Nat
  | [] => 0
  | j :: rest => max (depth j) (depthOfList rest)

/-- The greatest depth of the fields of an object. -/
def depthOfFields : List (String × Json) → Nat
  | [] => 0
  | (_, j) :: rest => max (depth j) (depthOfFields rest)

end

mutual

/-- Whether no object in a document names a field twice. -/
def namesOnce : Json → Bool
  | .array items => namesOnceInList items
  | .object fields => decide (Entries.keys fields).Nodup && namesOnceInFields fields
  | _ => true

/-- Whether no object in documents names a field twice. -/
def namesOnceInList : List Json → Bool
  | [] => true
  | j :: rest => namesOnce j && namesOnceInList rest

/-- Whether no object in the fields of an object names a field twice. -/
def namesOnceInFields : List (String × Json) → Bool
  | [] => true
  | (_, j) :: rest => namesOnce j && namesOnceInFields rest

end

theorem namesOnceInList_iff {items : List Json} :
    namesOnceInList items = true ↔ ∀ j ∈ items, j.namesOnce = true := by
  induction items with
  | nil => simp [namesOnceInList]
  | cons j rest ih => rw [namesOnceInList, Bool.and_eq_true, ih, List.forall_mem_cons]

theorem namesOnceInFields_iff {fields : List (String × Json)} :
    namesOnceInFields fields = true ↔ ∀ field ∈ fields, field.2.namesOnce = true := by
  induction fields with
  | nil => simp [namesOnceInFields]
  | cons field rest ih => rw [namesOnceInFields, Bool.and_eq_true, ih, List.forall_mem_cons]

/-! ## Reading tokens -/

/-- From a state tokens lead to another one if so many containers may be open, and are refused
otherwise. -/
def Leads (state : Awaited) (tokens : List Token) (needed : Nat) (last : Awaited) : Prop :=
  tokens.foldlM readToken? state = if needed ≤ maxDepth then some last else none

namespace Leads

variable {state next last : Awaited} {token : Token} {rest others : List Token} {needed more : Nat}

theorem nil (room : needed ≤ maxDepth) (state : Awaited) : Leads state [] needed state :=
  (if_pos room).symm

theorem of_eq (h : Leads state rest needed last) (same : needed = more) :
    Leads state rest more last :=
  same ▸ h

/-- A token that is always taken. -/
theorem cons (h : readToken? state token = some next) (ho : Leads next rest needed last) :
    Leads state (token :: rest) needed last := by
  rw [Leads, List.foldlM_cons, h]
  exact ho

/-- Tokens that come after others; the more demanding part says how many may be open. -/
theorem append (h : Leads state rest needed next)
    (ho : needed ≤ maxDepth → Leads next others more last) :
    Leads state (rest ++ others) (max needed more) last := by
  rw [Leads, List.foldlM_append, h]
  by_cases room : needed ≤ maxDepth
  · have fits : max needed more ≤ maxDepth ↔ more ≤ maxDepth :=
      Nat.max_le.trans (and_iff_right room)
    rw [if_pos room]
    simp only [fits]
    exact ho room
  · rw [if_neg room, if_neg fun both => room (Nat.max_le.1 both).1]
    rfl

/-- A token that opens a container, if one more may be open. -/
theorem opening {stack : List Frame} {opened : Awaited}
    (h : readToken? (.value stack) token = if stack.length < maxDepth then some opened else none)
    (ho : stack.length < maxDepth → Leads opened rest needed last) :
    Leads (.value stack) (token :: rest) (max (stack.length + 1) needed) last := by
  have first : Leads (.value stack) [token] (stack.length + 1) opened := by
    rw [Leads, List.foldlM_cons, h]
    exact bind_pure _
  exact first.append ho

theorem openArray {stack : List Frame}
    (h : stack.length < maxDepth → Leads (.itemOrEnd stack) rest needed last) :
    Leads (.value stack) (.openArray :: rest) (max (stack.length + 1) needed) last :=
  opening rfl h

theorem openObject {stack : List Frame}
    (h : stack.length < maxDepth → Leads (.nameOrEnd stack) rest needed last) :
    Leads (.value stack) (.openObject :: rest) (max (stack.length + 1) needed) last :=
  opening rfl h

/-- The first item of an array begins as any other does. -/
theorem itemOrEnd {stack : List Frame} {j : Json}
    (h : Leads (.value (.array [] :: stack)) (j.tokens ++ rest) needed last) :
    Leads (.itemOrEnd stack) (j.tokens ++ rest) needed last := by
  obtain ⟨first, more, spelled, begun⟩ :
      ∃ first more, j.tokens ++ rest = first :: more ∧ first ≠ .closeArray := by
    cases j with
    | array items => cases items <;> exact ⟨_, _, rfl, nofun⟩
    | object fields => cases fields <;> exact ⟨_, _, rfl, nofun⟩
    | _ => exact ⟨_, _, rfl, nofun⟩
  have begins : readToken? (.itemOrEnd stack) first
      = readToken? (.value (.array [] :: stack)) first := by
    cases first with
    | closeArray => exact absurd rfl begun
    | _ => rfl
  rw [spelled] at h ⊢
  rw [Leads, List.foldlM_cons, begins]
  exact h

/-- Another item of an array. -/
theorem comma_item {stack : List Frame} {items : List Json} {j : Json}
    (h : Leads (.value (.array (items ++ [j]) :: stack)) rest needed last) :
    Leads (.after (.array items :: stack) j) (.comma :: rest) needed last :=
  .cons rfl h

/-- Another field of an object. -/
theorem comma_field {stack : List Frame} {fields : Entries Json} {name next : String} {j : Json}
    (free : name ∉ Entries.keys fields)
    (h : Leads (.value (.object (fields ++ [(name, j)]) next :: stack)) rest needed last) :
    Leads (.after (.object fields name :: stack) j)
      (.comma :: .scalar (.string next) :: .colon :: rest) needed last := by
  have added : readToken? (.after (.object fields name :: stack) j) .comma
      = some (.name stack (fields ++ [(name, j)])) := by
    rw [← Entries.set_of_not_mem free]
    rfl
  exact .cons added (.cons rfl (.cons rfl h))

/-- The end of an object. -/
theorem closeObject {stack : List Frame} {fields : Entries Json} {name : String} {j : Json}
    (free : name ∉ Entries.keys fields) (room : needed ≤ maxDepth) :
    Leads (.after (.object fields name :: stack) j) [.closeObject] needed
      (.after stack (.object (fields ++ [(name, j)]))) := by
  rw [← Entries.set_of_not_mem free]
  exact .cons rfl (.nil room _)

end Leads

mutual

/-- The tokens of a document are read as the document, if there is room for its depth. -/
theorem leads_tokens : ∀ {j : Json}, j.namesOnce = true → ∀ (stack : List Frame),
    stack.length ≤ maxDepth →
      Leads (.value stack) j.tokens (stack.length + j.depth) (.after stack j)
  | .null, _, _, room | .boolean _, _, _, room | .integer _, _, _, room | .float _, _, _, room
  | .string _, _, _, room => .cons rfl (.nil room _)
  | .array [], _, stack, _ =>
    (Leads.openArray fun room => .cons rfl (.nil room _)).of_eq (Nat.max_self _)
  | .array (item :: rest), once, stack, _ => by
    rw [namesOnce, namesOnceInList, Bool.and_eq_true] at once
    have items (room : stack.length < maxDepth) :
        Leads (.itemOrEnd stack) (item.tokens ++ (itemTokens rest ++ [.closeArray]))
          (max (stack.length + 1 + item.depth) (stack.length + 1 + depthOfList rest))
          (.after stack (.array (item :: rest))) :=
      .itemOrEnd ((leads_tokens once.1 (.array [] :: stack) room).append fun _ =>
        leads_itemTokens once.2 room [] item)
    rw [tokens, List.append_assoc, depth, depthOfList]
    exact (Leads.openArray items).of_eq (by omega)
  | .object [], _, stack, _ =>
    (Leads.openObject fun room => .cons rfl (.nil room _)).of_eq (Nat.max_self _)
  | .object ((name, value) :: rest), once, stack, _ => by
    rw [namesOnce, namesOnceInFields, Bool.and_eq_true, Bool.and_eq_true] at once
    obtain ⟨names, once, later⟩ := once
    have fields (room : stack.length < maxDepth) :
        Leads (.nameOrEnd stack) (.scalar (.string name) :: .colon ::
            (value.tokens ++ (fieldTokens rest ++ [.closeObject])))
          (max (stack.length + 1 + value.depth) (stack.length + 1 + depthOfFields rest))
          (.after stack (.object ((name, value) :: rest))) :=
      .cons rfl (.cons rfl ((leads_tokens once (.object [] name :: stack) room).append
        fun _ => leads_fieldTokens later room [] value (of_decide_eq_true names)))
    rw [tokens, List.append_assoc, depth, depthOfFields]
    exact (Leads.openObject fields).of_eq (by omega)

/-- Further items of an array are read behind those before, up to the bracket that closes it. -/
theorem leads_itemTokens : ∀ {items : List Json}, namesOnceInList items = true →
    ∀ {stack : List Frame}, stack.length < maxDepth → ∀ (before : List Json) (last : Json),
      Leads (.after (.array before :: stack) last) (itemTokens items ++ [.closeArray])
        (stack.length + 1 + depthOfList items) (.after stack (.array (before ++ last :: items)))
  | [], _, stack, room, before, last => .cons rfl (.nil room _)
  | item :: rest, once, stack, room, before, last => by
    rw [namesOnceInList, Bool.and_eq_true] at once
    have first := leads_tokens once.1 (.array (before ++ [last]) :: stack) room
    have others := first.append fun _ => leads_itemTokens once.2 room (before ++ [last]) item
    rw [← List.append_assoc, ← List.append_cons] at others
    rw [itemTokens, depthOfList]
    refine (Leads.comma_item others).of_eq ?_
    rw [List.length_cons]
    omega

/-- Further fields of an object are read behind those before, up to the bracket that closes it. -/
theorem leads_fieldTokens : ∀ {fields : List (String × Json)}, namesOnceInFields fields = true →
    ∀ {stack : List Frame}, stack.length < maxDepth →
      ∀ (before : Entries Json) {name : String} (last : Json),
        (Entries.keys (before ++ (name, last) :: fields)).Nodup →
          Leads (.after (.object before name :: stack) last) (fieldTokens fields ++ [.closeObject])
            (stack.length + 1 + depthOfFields fields)
            (.after stack (.object (before ++ (name, last) :: fields)))
  | [], _, stack, room, before, name, last, names =>
    .closeObject (Entries.not_mem_of_nodup_append names) room
  | (next, value) :: rest, once, stack, room, before, name, last, names => by
    rw [namesOnceInFields, Bool.and_eq_true] at once
    have free := Entries.not_mem_of_nodup_append names
    rw [List.append_cons] at names
    have first := leads_tokens once.1 (.object (before ++ [(name, last)]) next :: stack) room
    have others := first.append fun _ =>
      leads_fieldTokens once.2 room (before ++ [(name, last)]) value names
    rw [← List.append_assoc, ← List.append_cons] at others
    rw [fieldTokens, depthOfFields]
    refine (Leads.comma_field free others).of_eq ?_
    rw [List.length_cons]
    omega

end

/-- The tokens of a document spell the document, unless it is too deep. -/
theorem ofTokens?_tokens {j : Json} (once : j.namesOnce = true) :
    ofTokens? j.tokens = if j.depth ≤ maxDepth then some j else none := by
  have read := leads_tokens once [] (Nat.zero_le _)
  rw [Leads, List.length_nil, Nat.zero_add] at read
  rw [ofTokens?, read]
  split_ifs <;> rfl

end QueryForms.Json
