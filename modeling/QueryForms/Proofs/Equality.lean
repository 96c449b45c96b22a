import Mathlib.Data.List.Forall2
import QueryForms.Proofs.Date.Text
import QueryForms.Proofs.Json.Exact
import QueryForms.Proofs.Number.Equality
import QueryForms.Value.Order

/-!
# Equality and documents

The equality of the operators and the document of a value forget different things. Equality forgets
whether a number is an integer, a float or a date, the sign of zero and the order of fields;
`Value.ShownApart` says which values beside each other differ in that. Documents forget whether a text
is a date, and which float that is not finite they show as null; those are `Value.ShownAlike`. Where
two values are equal, they have one document exactly if nowhere in them are two values shown apart
(`Value.toJson_eq_iff_of_looseEq`); and where they have one document, they are equal exactly if nowhere
in them are two values shown alike (`Value.looseEq_iff_of_toJson_eq`).
-/

namespace QueryForms

/-- What is bound to a name that occurs once is read under it. -/
theorem Entries.get?_of_mem {α : Type} {entries : Entries α} (once : (keys entries).Nodup)
    {entry : String × α} (h : entry ∈ entries) : get? entries entry.1 = some entry.2 := by
  induction entries with
  | nil => exact absurd h List.not_mem_nil
  | cons first rest ih =>
    obtain ⟨other, later⟩ := List.nodup_cons.1 once
    rw [get?]
    rcases List.mem_cons.1 h with rfl | h
    · rw [if_pos rfl]
    · have differs : first.1 ≠ entry.1 := fun same =>
        other (same ▸ List.mem_map_of_mem h)
      rw [if_neg differs, ih later h]

/-- Lists are equal if their items are pairwise. -/
theorem looseEqList_iff {a b : List Value} :
    looseEqList a b = true ↔ List.Forall₂ (fun v w => looseEq v w = true) a b := by
  induction a generalizing b with
  | nil => cases b <;> simp [looseEqList]
  | cons v rest ih =>
    cases b with
    | nil => simp [looseEqList]
    | cons w others => rw [looseEqList, Bool.and_eq_true, ih, List.forall₂_cons]

/-- Fields are equal if each is to the one of its name. -/
theorem looseEqFields_iff {a b : List (String × Value)} :
    looseEqFields a b = true ↔
      ∀ field ∈ a, ∃ w, Entries.get? b field.1 = some w ∧ looseEq field.2 w = true := by
  induction a with
  | nil => simp [looseEqFields]
  | cons field rest ih =>
    rw [looseEqFields, Bool.and_eq_true, ih, List.forall_mem_cons]
    refine and_congr_left fun _ => ?_
    cases Entries.get? b field.1 with
    | none => simp
    | some w => simp

/-- A function gives the same lists if it gives the same items, place by place. -/
theorem map_eq_map_iff_zip {α β : Type} {f : α → β} {a b : List α} :
    a.map f = b.map f ↔ a.length = b.length ∧ ∀ pair ∈ a.zip b, f pair.1 = f pair.2 := by
  rw [← List.forall₂_eq_eq_eq, List.forall₂_map_left_iff, List.forall₂_map_right_iff,
    List.forall₂_iff_zip]
  simp only [Prod.forall]

namespace Value

/-! ## Places -/

/-- `Beside v w x y` says that `x` stands in `v` where `y` stands in `w`: they are these values, or
stand so in items at one index or in fields of one name. -/
inductive Beside : Value → Value → Value → Value → Prop where
  | here (v w : Value) : Beside v w v w
  | item {items others : List Value} {a b x y : Value} (pair : (a, b) ∈ items.zip others)
    (inside : Beside a b x y) : Beside (.array items) (.array others) x y
  | field {fields others : Record} {name : String} {a b x y : Value}
    (left : Entries.get? fields name = some a) (right : Entries.get? others name = some b)
    (inside : Beside a b x y) : Beside (.object fields) (.object others) x y

variable {v w x y : Value}

theorem looseEq_array {items others : List Value} :
    looseEq (.array items) (.array others) = true ↔
      items.length = others.length ∧
        ∀ pair ∈ items.zip others, looseEq pair.1 pair.2 = true := by
  rw [looseEq, looseEqList_iff, List.forall₂_iff_zip, Prod.forall]

theorem toJson_array {items others : List Value} :
    (array items).toJson = (array others).toJson ↔
      items.length = others.length ∧ ∀ pair ∈ items.zip others, pair.1.toJson = pair.2.toJson := by
  rw [toJson, toJson, Json.array.injEq, toJsonList_eq_map, toJsonList_eq_map, map_eq_map_iff_zip]

theorem looseEq_object {fields others : Record} :
    looseEq (.object fields) (.object others) = true ↔
      fields.length = others.length ∧ ∀ field ∈ fields, ∃ w,
        Entries.get? others field.1 = some w ∧ looseEq field.2 w = true := by
  rw [looseEq, Bool.and_eq_true, beq_iff_eq, looseEqFields_iff]

theorem toJson_object {fields others : Record} :
    (object fields).toJson = (object others).toJson ↔
      fields.map (fun field => (field.1, field.2.toJson))
        = others.map fun field => (field.1, field.2.toJson) := by
  rw [toJson, toJson, Json.object.injEq, toJsonFields_eq_map, toJsonFields_eq_map]

/-- Values with one document have one document at every place. -/
theorem Beside.toJson_eq (h : Beside v w x y) (same : v.toJson = w.toJson) :
    x.toJson = y.toJson := by
  induction h with
  | here => exact same
  | item pair _ ih => exact ih ((toJson_array.1 same).2 _ pair)
  | @field fields others name a b _ _ left right _ ih =>
    have read := congrArg (Entries.get? · name) (toJson_object.1 same)
    simp only [Entries.get?_map toJson, left, right, Option.map_some, Option.some.injEq] at read
    exact ih read

/-- Equal values are equal at every place. -/
theorem Beside.looseEq (h : Beside v w x y) (equal : looseEq v w = true) :
    QueryForms.looseEq x y = true := by
  induction h with
  | here => exact equal
  | item pair _ ih => exact ih ((looseEq_array.1 equal).2 _ pair)
  | field left right _ ih =>
    obtain ⟨found, read, equal⟩ := (looseEq_object.1 equal).2 _ (Entries.mem_of_get? left)
    rw [right] at read
    exact ih (Option.some.inj read ▸ equal)

/-- At a place of a value and the value itself there stands one value. -/
theorem Beside.eq (h : Beside v w x y) (same : v = w) : x = y := by
  induction h with
  | here => exact same
  | item pair _ ih =>
    obtain rfl := array.inj same
    rw [List.zip_eq_zipWith, List.zipWith_self, List.mem_map] at pair
    obtain ⟨item, -, pair⟩ := pair
    cases pair
    exact ih rfl
  | field left right _ ih =>
    obtain rfl := object.inj same
    exact ih (Option.some.inj (left.symm.trans right))

/-! ## What is forgotten -/

/-- Whether a value is a number or a date. -/
def isMeasured : Value → Bool
  | .integer _ => true
  | .float _ => true
  | .date _ => true
  | _ => false

/-- Values that equality may take for the same, but documents never do: numbers and dates of two
types, zeros of two signs, a leap second and an instant outside of leap seconds, records in which the
names come in two orders. A relation is compared with its aliases and shown without them, so it is
such a value wherever its document differs. -/
inductive ShownApart : Value → Value → Prop where
  | types {v w : Value} (left : v.isMeasured = true) (right : w.isMeasured = true)
    (types : v.kind ≠ w.kind) : ShownApart v w
  | zeros {x y : Float} (left : (x == 0) = true) (right : (y == 0) = true) (signs : x ≠ y) :
    ShownApart (.float x) (.float y)
  | leapSecond {t u : Instant} (leap : ¬(1000000000 ≤ t.nanos ↔ 1000000000 ≤ u.nanos)) :
    ShownApart (.date t) (.date u)
  | order {fields others : Record} (order : Entries.keys fields ≠ Entries.keys others) :
    ShownApart (.object fields) (.object others)
  | relation {v w : Value} (relation : v.isPlain = false ∨ w.isPlain = false)
    (document : v.toJson ≠ w.toJson) : ShownApart v w

/-- Whether a value is shown as null. -/
def isAbsent : Value → Bool
  | .null => true
  | .float x => !x.isFinite
  | _ => false

/-- Values that documents may take for the same, but equality never does: a date and a text, null and
a float that is not finite or two such floats that differ, relations that are not the same. -/
inductive ShownAlike : Value → Value → Prop where
  | dateText (t : Instant) (s : String) : ShownAlike (.date t) (.string s)
  | textDate (s : String) (t : Instant) : ShownAlike (.string s) (.date t)
  | absent {v w : Value} (left : v.isAbsent = true) (right : w.isAbsent = true)
    (differ : (v == w) = false) : ShownAlike v w
  | relation {v w : Value} (relation : v.isPlain = false ∨ w.isPlain = false)
    (differ : (v == w) = false) : ShownAlike v w

/-- No value is shown apart from itself. -/
theorem ShownApart.ne (h : x.ShownApart y) : x ≠ y := by
  rintro rfl
  cases h with
  | types _ _ types => exact types rfl
  | zeros _ _ signs => exact signs rfl
  | leapSecond leap => exact leap Iff.rfl
  | order order => exact order rfl
  | relation _ document => exact document rfl

/-- What a record and a date are besides their parts: a record names each field once, and a date is a
regular instant. -/
def WellFormedHere : Value → Prop
  | .object fields => (Entries.keys fields).Nodup
  | .date t => t.Regular
  | _ => True

/-- Records that name each field once and regular dates, all the way down. -/
def WellFormed (v : Value) : Prop :=
  v.Everywhere WellFormedHere

theorem WellFormed.beside (hv : v.WellFormed) (hw : w.WellFormed) (h : Beside v w x y) :
    x.WellFormed ∧ y.WellFormed := by
  induction h with
  | here => exact ⟨hv, hw⟩
  | item pair _ ih =>
    exact ih ((Everywhere.array_iff.1 hv).2 _ (List.of_mem_zip pair).1)
      ((Everywhere.array_iff.1 hw).2 _ (List.of_mem_zip pair).2)
  | field left right _ ih =>
    exact ih ((Everywhere.object_iff.1 hv).2 _ (Entries.mem_of_get? left))
      ((Everywhere.object_iff.1 hw).2 _ (Entries.mem_of_get? right))

/-! ## Single values -/

theorem kind_eq_of_beq (h : (v == w) = true) : v.kind = w.kind := by
  have same : v.beq w = true := h
  cases v <;> cases w <;> first | rfl | cases same

/-- Equality is that of the same values, unless both are numbers or dates, arrays or records. -/
theorem looseEq_eq_beq (measured : v.isMeasured = false ∨ w.isMeasured = false)
    (containers : v.kind = w.kind → v.kind ≠ .array ∧ v.kind ≠ .object) :
    looseEq v w = (v == w) := by
  cases v <;> cases w <;> first | rfl | simp_all [isMeasured, kind]

theorem looseEq_of_relation (h : v.isPlain = false ∨ w.isPlain = false) :
    looseEq v w = (v == w) := by
  rcases h with plain | plain
  · cases v <;> first | cases plain; done | skip
    all_goals cases w <;> rfl
  · cases w <;> first | cases plain; done | skip
    all_goals cases v <;> rfl

theorem looseEq_of_absent (hv : v.isAbsent = true) (hw : w.isAbsent = true) :
    looseEq v w = (v == w) := by
  cases v <;> cases w <;> first | rfl | cases hv | cases hw

/-- Values that documents keep apart at one place have two documents. -/
theorem ShownApart.toJson_ne (h : x.ShownApart y) (hx : x.WellFormed) (hy : y.WellFormed) :
    x.toJson ≠ y.toJson := by
  cases h with
  | types left right types =>
    intro same
    cases x <;> cases y <;> first | cases left; done | cases right; done | skip
    all_goals first
      | exact types rfl
      | simp only [toJson] at same
        split_ifs at same
      | simp [toJson] at same
  | @zeros a b left right signs =>
    intro same
    have finite : a.isFinite = true := (isFinite_eq_of_beq left).trans rfl
    have finite' : b.isFinite = true := (isFinite_eq_of_beq right).trans rfl
    rw [toJson, toJson, if_pos finite, if_pos finite'] at same
    exact signs (Json.float.inj same)
  | leapSecond leap =>
    intro same
    have text := (DateText.millisZulu_inj hx.here hy.here).1 (Json.string.inj same)
    omega
  | order order =>
    intro same
    have names := congrArg (List.map Prod.fst) (toJson_object.1 same)
    simp only [List.map_map] at names
    exact order names
  | relation _ document => exact document

/-- Values that equality keeps apart are not equal. -/
theorem ShownAlike.looseEq_eq_false (h : x.ShownAlike y) : looseEq x y = false := by
  cases h with
  | dateText t s => rfl
  | textDate s t => rfl
  | absent left right differ => exact (looseEq_of_absent left right).trans differ
  | relation relation differ => exact (looseEq_of_relation relation).trans differ

/-! ## Equality from documents, and documents from equality -/

/-- Two values are arrays, records, or not both either. -/
theorem containers_or (v w : Value) :
    (∃ items others, v = .array items ∧ w = .array others) ∨
      (∃ fields others, v = .object fields ∧ w = .object others) ∨
      (v.kind = w.kind → v.kind ≠ .array ∧ v.kind ≠ .object) := by
  by_cases arrays : v.kind = .array ∧ w.kind = .array
  · cases v <;> cases arrays.1
    cases w <;> cases arrays.2
    exact .inl ⟨_, _, rfl, rfl⟩
  by_cases objects : v.kind = .object ∧ w.kind = .object
  · cases v <;> cases objects.1
    cases w <;> cases objects.2
    exact .inr (.inl ⟨_, _, rfl, rfl⟩)
  exact .inr (.inr fun types =>
    ⟨fun left => arrays ⟨left, types ▸ left⟩, fun left => objects ⟨left, types ▸ left⟩⟩)

/-- Equal values of which neither is an array or a record have one document, unless documents keep
them apart. -/
theorem toJson_eq_of_looseEq_leaf (hx : x.WellFormed) (hy : y.WellFormed)
    (containers : x.kind = y.kind → x.kind ≠ .array ∧ x.kind ≠ .object)
    (equal : looseEq x y = true) (apart : ¬x.ShownApart y) : x.toJson = y.toJson := by
  by_contra documents
  by_cases plain : x.isPlain = false ∨ y.isPlain = false
  · exact apart (.relation plain documents)
  by_cases measured : x.isMeasured = false ∨ y.isMeasured = false
  · have same : x.beq y = true := (looseEq_eq_beq measured containers).symm.trans equal
    have kinds := kind_eq_of_beq same
    cases x <;> cases y <;> first | cases kinds; done | skip
    all_goals simp_all [beq, isMeasured, isPlain, kind, toJson]
  by_cases types : x.kind = y.kind
  · cases x <;> cases y <;> first | cases types; done | skip
    case float.float a b =>
      have same : (a == b) = true := equal
      have finite := isFinite_eq_of_beq same
      rw [toJson, toJson, finite] at documents
      split_ifs at documents with hb
      · rcases eq_or_zeros_of_beq (finite.trans hb) hb same with rfl | ⟨left, right⟩
        · exact documents rfl
        · exact apart (.zeros left right fun h => documents (congrArg Json.float h))
      · exact documents rfl
    case date.date t u =>
      have millis : t.millis = u.millis := Option.some.inj (beq_iff_eq.1 equal)
      refine documents (congrArg Json.string ((DateText.millisZulu_inj hx.here hy.here).2 ?_))
      have leap : 1000000000 ≤ t.nanos ↔ 1000000000 ≤ u.nanos := by
        by_contra leap
        exact apart (.leapSecond leap)
      have within := Instant.Regular.nanos_lt hx.here
      have within' := Instant.Regular.nanos_lt hy.here
      rw [Instant.millis, Instant.millis] at millis
      omega
    all_goals simp_all [isMeasured, isPlain, looseEq, toJson]
  · exact apart (.types (by simpa using mt .inl measured) (by simpa using mt .inr measured) types)

/-- Values with one document of which neither is an array or a record are equal, unless equality keeps
them apart. -/
theorem looseEq_of_toJson_eq_leaf (hx : x.WellFormed) (hy : y.WellFormed)
    (containers : x.kind = y.kind → x.kind ≠ .array ∧ x.kind ≠ .object)
    (same : x.toJson = y.toJson) (alike : ¬x.ShownAlike y) : looseEq x y = true := by
  by_contra unequal
  by_cases plain : x.isPlain = false ∨ y.isPlain = false
  · exact alike (.relation plain (looseEq_of_relation plain ▸ eq_false_of_ne_true unequal))
  by_cases absent : x.isAbsent = true ∧ y.isAbsent = true
  · exact alike (.absent absent.1 absent.2
      (looseEq_of_absent absent.1 absent.2 ▸ eq_false_of_ne_true unequal))
  cases x <;> cases y
  case float.float a b =>
    rw [toJson, toJson] at same
    split_ifs at same with ha hb hb
    · exact unequal (Json.float.inj same ▸ beq_self_of_isFinite ha)
    · exact absent ⟨by simpa [isAbsent] using ha, by simpa [isAbsent] using hb⟩
  case date.date t u =>
    obtain ⟨seconds, millis⟩ := (DateText.millisZulu_inj hx.here hy.here).1 (Json.string.inj same)
    refine unequal (beq_iff_eq.2 (congrArg some ?_))
    rw [Instant.millis, Instant.millis, seconds, millis]
  case date.string t s => exact alike (.dateText t s)
  case string.date s t => exact alike (.textDate s t)
  case boolean.boolean a b =>
    have equal : (a == b) = true := beq_iff_eq.2 (Json.boolean.inj same)
    exact unequal equal
  case string.string s t =>
    have equal : (s == t) = true := beq_iff_eq.2 (Json.string.inj same)
    exact unequal equal
  case integer.integer n m =>
    have equal : (n == m) = true := beq_iff_eq.2 (Json.integer.inj same)
    exact unequal equal
  -- all others have documents of two types, or are no such values
  all_goals first
    | exact plain (.inl rfl)
    | exact plain (.inr rfl)
    | exact absent ⟨rfl, rfl⟩
    | exact absurd rfl (containers rfl).1
    | exact absurd rfl (containers rfl).2
    | simp only [toJson] at same
      split_ifs at same <;> simp_all [isAbsent]
    | cases same

/-- Equal values have one document if documents keep them apart at no place. -/
theorem toJson_eq_of_looseEq (hv : v.WellFormed) (hw : w.WellFormed) (equal : looseEq v w = true)
    (apart : ∀ x y, Beside v w x y → ¬x.ShownApart y) : v.toJson = w.toJson := by
  have whole := hv
  induction hv generalizing w with
  | @intro v _ inside ih =>
    obtain ⟨items, others, rfl, rfl⟩ | ⟨fields, others, rfl, rfl⟩ | containers := containers_or v w
    · obtain ⟨length, equal⟩ := looseEq_array.1 equal
      refine toJson_array.2 ⟨length, fun pair hp => ?_⟩
      have left := (List.of_mem_zip hp).1
      exact ih pair.1 left ((Everywhere.array_iff.1 hw).2 _ (List.of_mem_zip hp).2) (equal pair hp)
        (fun x y h => apart x y (.item hp h)) (inside _ left)
    · have once : (Entries.keys fields).Nodup := whole.here
      have once' : (Entries.keys others).Nodup := hw.here
      have names : Entries.keys fields = Entries.keys others := by
        by_contra order
        exact apart _ _ (.here _ _) (.order order)
      obtain ⟨length, equal⟩ := looseEq_object.1 equal
      refine toJson_object.2 (map_eq_map_iff_zip.2 ⟨length, fun pair hp => ?_⟩)
      -- fields at one index have one name, and are what is read under it
      obtain ⟨left, right⟩ := List.of_mem_zip hp
      have name := (map_eq_map_iff_zip.1 names).2 pair hp
      have read := Entries.get?_of_mem once' right
      rw [← name] at read
      obtain ⟨found, other, equal⟩ := equal _ left
      obtain rfl := Option.some.inj (other.symm.trans read)
      refine Prod.ext name (ih _ (List.mem_map_of_mem left)
        ((Everywhere.object_iff.1 hw).2 _ right) equal (fun x y h => apart x y ?_)
        (inside _ (List.mem_map_of_mem left)))
      exact .field (Entries.get?_of_mem once left) read h
    · exact toJson_eq_of_looseEq_leaf whole hw containers equal (apart _ _ (.here v w))

/-- Values with one document are equal if equality keeps them apart at no place. -/
theorem looseEq_of_toJson_eq (hv : v.WellFormed) (hw : w.WellFormed) (same : v.toJson = w.toJson)
    (alike : ∀ x y, Beside v w x y → ¬x.ShownAlike y) : looseEq v w = true := by
  have whole := hv
  induction hv generalizing w with
  | @intro v _ inside ih =>
    obtain ⟨items, others, rfl, rfl⟩ | ⟨fields, others, rfl, rfl⟩ | containers := containers_or v w
    · obtain ⟨length, same⟩ := toJson_array.1 same
      refine looseEq_array.2 ⟨length, fun pair hp => ?_⟩
      have left := (List.of_mem_zip hp).1
      exact ih pair.1 left ((Everywhere.array_iff.1 hw).2 _ (List.of_mem_zip hp).2) (same pair hp)
        (fun x y h => alike x y (.item hp h)) (inside _ left)
    · have once : (Entries.keys fields).Nodup := whole.here
      have documents := toJson_object.1 same
      have length := congrArg List.length documents
      rw [List.length_map, List.length_map] at length
      refine looseEq_object.2 ⟨length, fun field hf => ?_⟩
      have left := Entries.get?_of_mem once hf
      have read := congrArg (Entries.get? · field.1) documents
      simp only [Entries.get?_map toJson, left, Option.map_some] at read
      obtain ⟨other, right, same⟩ := Option.map_eq_some_iff.1 read.symm
      exact ⟨other, right, ih _ (List.mem_map_of_mem hf)
        ((Everywhere.object_iff.1 hw).2 _ (Entries.mem_of_get? right)) same.symm
        (fun x y h => alike x y (.field left right h)) (inside _ (List.mem_map_of_mem hf))⟩
    · exact looseEq_of_toJson_eq_leaf whole hw containers same (alike _ _ (.here v w))

/-- Equal values have one document exactly if documents keep them apart at no place. -/
theorem toJson_eq_iff_of_looseEq (hv : v.WellFormed) (hw : w.WellFormed)
    (equal : looseEq v w = true) :
    v.toJson = w.toJson ↔ ∀ x y, Beside v w x y → ¬x.ShownApart y := by
  refine ⟨fun same x y h apart => ?_, toJson_eq_of_looseEq hv hw equal⟩
  obtain ⟨hx, hy⟩ := hv.beside hw h
  exact apart.toJson_ne hx hy (h.toJson_eq same)

/-- Values with one document are equal exactly if equality keeps them apart at no place. -/
theorem looseEq_iff_of_toJson_eq (hv : v.WellFormed) (hw : w.WellFormed)
    (same : v.toJson = w.toJson) :
    looseEq v w = true ↔ ∀ x y, Beside v w x y → ¬x.ShownAlike y := by
  refine ⟨fun equal x y h alike => ?_, looseEq_of_toJson_eq hv hw same⟩
  exact Bool.noConfusion (alike.looseEq_eq_false.symm.trans (h.looseEq equal))

end Value

end QueryForms
