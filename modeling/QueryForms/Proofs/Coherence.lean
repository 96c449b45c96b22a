import Mathlib.Data.List.Nodup
import QueryForms.Proofs.Equality
import QueryForms.Proofs.Text.Units

/-!
# Equality and order together

Values that are compared at all have a `Measure`: an integer and a date have numbers on one scale, a
text and a truth value measures of their own sort. Order compares measures of one sort, and equality is
`Value.Alike`: one measure, or containers that are alike item by item and field by field, whatever the
order of the fields. So on definite values, those without floats and with each name once in a record,
equality is an equivalence, order agrees with it, and what is less than a lesser value is less
(`comparisons_coherent`).
-/

namespace QueryForms

/-! ## Measures -/

/-- What a value is compared by. -/
inductive Measure where
  /-- A number, or the milliseconds of a date. -/
  | number (n : Int)
  /-- A text. -/
  | text (s : String)
  /-- A truth value. -/
  | truth (b : Bool)
deriving DecidableEq, Inhabited

namespace Measure

/-- The sorts of measures; only measures of one sort are compared. -/
def sort : Measure → Nat
  | .number _ => 0
  | .text _ => 1
  | .truth _ => 2

/-- The number of a measure, and zero for any other. -/
def magnitude : Measure → Int
  | .number n => n
  | _ => 0

/-- The characters of a measure that is a text. -/
def chars : Measure → List Char
  | .text s => s.toList
  | _ => []

/-- The place of a measure that is a truth value. -/
def place : Measure → Nat
  | .truth b => b.toNat
  | _ => 0

/-- The order of measures: by sort, and within a sort as numbers, texts or truth values. -/
def order : Measure → Measure → Ordering :=
  compareLex (compareOn sort) (compareLex (compareOn magnitude)
    (compareLex (fun a b => Text.charOrder a.chars b.chars) (compareOn place)))

instance : Std.TransCmp order :=
  have : Std.TransCmp fun a b : Measure => Text.charOrder a.chars b.chars :=
    Text.transCmp_comap chars
  inferInstanceAs (Std.TransCmp (compareLex (compareOn sort) (compareLex (compareOn magnitude)
    (compareLex (fun a b => Text.charOrder a.chars b.chars) (compareOn place)))))

@[simp] theorem order_number (n m : Int) : (number n).order (number m) = compare n m :=
  Ordering.then_eq

@[simp] theorem order_text (s t : String) :
    (text s).order (text t) = Text.charOrder s.toList t.toList :=
  Ordering.then_eq

@[simp] theorem order_truth (b c : Bool) : (truth b).order (truth c) = compare b.toNat c.toNat :=
  rfl

/-- Two measures are level only if they are the same. -/
theorem order_eq_eq_iff {m n : Measure} : m.order n = .eq ↔ m = n := by
  refine ⟨fun level => ?_, fun same => same ▸ Std.ReflCmp.compare_self⟩
  have sorts : compare m.sort n.sort = .eq := (Ordering.then_eq_eq.1 level).1
  cases m <;> cases n <;> first | cases sorts; done | skip
  case number.number => exact congrArg number (Int.compare_eq_eq.1 (order_number .. ▸ level))
  case text.text =>
    exact congrArg text (String.toList_inj.1 (Text.charOrder_eq_eq_iff.1 (order_text .. ▸ level)))
  case truth.truth b c => cases b <;> cases c <;> first | rfl | cases level

end Measure

namespace Value

/-- The measure of a value that is compared by one. -/
def measure? : Value → Option Measure
  | .integer n => some (.number n.toInt)
  | .date t => some (.number t.millis)
  | .string s => some (.text s)
  | .boolean b => some (.truth b)
  | _ => none

end Value

section

variable {a b : Value} (ha : a.kind ≠ .float) (hb : b.kind ≠ .float)

include ha hb

/-- Other than floats, values that have an order are those with measures of one sort, in the order of
these. -/
theorem compareValues_eq_some_iff {o : Ordering} : compareValues a b = .ok (some o) ↔
    ∃ m n, a.measure? = some m ∧ b.measure? = some n ∧ m.sort = n.sort ∧ m.order n = o := by
  cases a <;> cases b <;>
    simp_all [compareValues, comparable?, Comparable.order?, Value.isNull, Value.kind,
      Value.measure?, Measure.sort, fault]

/-- Other than floats, values that are compared without having an order are those beside null. -/
theorem compareValues_eq_none_iff : compareValues a b = .ok none ↔ a = .null ∨ b = .null := by
  cases a <;> cases b <;>
    simp_all [compareValues, comparable?, Comparable.order?, Value.isNull, Value.kind, fault]

end

/-! ## Alike values -/

/-- Of entries with the same names in any order, each has one of its name among the others. -/
theorem Entries.exists_of_keys_perm {α : Type} {xs ys : List (String × α)}
    (names : (keys xs).Perm (keys ys)) {x : String × α} (hx : x ∈ xs) : ∃ y ∈ ys, y.1 = x.1 :=
  List.mem_map.1 (names.subset (List.mem_map_of_mem (f := Prod.fst) hx))

namespace Value

/-- Values that are the same but for the order of fields, and for whether a number of milliseconds is
a date. -/
inductive Alike : Value → Value → Prop where
  | null : Alike .null .null
  | measured {a b : Value} {m : Measure} (left : a.measure? = some m) (right : b.measure? = some m) :
    Alike a b
  | arrays {xs ys : List Value} (length : xs.length = ys.length)
    (items : ∀ (i : Nat) x y, xs[i]? = some x → ys[i]? = some y → Alike x y) :
    Alike (.array xs) (.array ys)
  | objects {xs ys : List (String × Value)} (names : (Entries.keys xs).Perm (Entries.keys ys))
    (fields : ∀ x ∈ xs, ∀ y ∈ ys, x.1 = y.1 → Alike x.2 y.2) :
    Alike (.object xs) (.object ys)

namespace Alike

variable {a b c : Value}

theorem measured_iff {m : Measure} (left : a.measure? = some m) :
    a.Alike b ↔ b.measure? = some m := by
  refine ⟨fun h => ?_, fun right => .measured left right⟩
  cases h with
  | measured left' right => rw [right, ← left', left]
  | _ => cases left

theorem null_iff : Value.null.Alike b ↔ b = .null := by
  refine ⟨fun h => ?_, fun h => h ▸ .null⟩
  cases h with
  | null => rfl
  | measured left => cases left

theorem array_iff {xs : List Value} : (Value.array xs).Alike b ↔
    ∃ ys, b = .array ys ∧ xs.length = ys.length ∧
      ∀ (i : Nat) x y, xs[i]? = some x → ys[i]? = some y → x.Alike y := by
  refine ⟨fun h => ?_, fun ⟨ys, same, length, items⟩ => same ▸ .arrays length items⟩
  cases h with
  | measured left => cases left
  | arrays length items => exact ⟨_, rfl, length, items⟩

theorem object_iff {xs : List (String × Value)} : (Value.object xs).Alike b ↔
    ∃ ys, b = .object ys ∧ (Entries.keys xs).Perm (Entries.keys ys) ∧
      ∀ x ∈ xs, ∀ y ∈ ys, x.1 = y.1 → x.2.Alike y.2 := by
  refine ⟨fun h => ?_, fun ⟨ys, same, names, fields⟩ => same ▸ .objects names fields⟩
  cases h with
  | measured left => cases left
  | objects names fields => exact ⟨_, rfl, names, fields⟩

theorem symm (h : a.Alike b) : b.Alike a := by
  induction h with
  | null => exact .null
  | measured left right => exact .measured right left
  | arrays length _ ih => exact .arrays length.symm fun i y x hy hx => ih i x y hx hy
  | objects names _ ih => exact .objects names.symm fun y hy x hx same => ih x hx y hy same.symm

theorem trans (ab : a.Alike b) (bc : b.Alike c) : a.Alike c := by
  induction ab generalizing c with
  | null => exact bc
  | measured left right => exact .measured left ((measured_iff right).1 bc)
  | @arrays xs ys length _ ih =>
    obtain ⟨zs, rfl, length', items⟩ := array_iff.1 bc
    refine .arrays (length.trans length') fun i x z hx hz => ?_
    -- the item between them stands at the same place
    have inside : i < ys.length := length ▸ (List.getElem?_eq_some_iff.1 hx).1
    have hy : ys[i]? = some ys[i] := List.getElem?_eq_getElem inside
    exact ih i x _ hx hy (items i _ z hy hz)
  | @objects xs ys names _ ih =>
    obtain ⟨zs, rfl, names', fields⟩ := object_iff.1 bc
    refine .objects (names.trans names') fun x hx z hz same => ?_
    -- the field between them has the same name
    obtain ⟨y, hy, name⟩ := Entries.exists_of_keys_perm names hx
    exact ih x hx y hy name.symm (fields y hy z hz (name.trans same))

end Alike

/-- Whether a value is of JSON other than a float, or a date; a record names each field once. -/
def isDefinite : Value → Bool
  | .object fields => decide (Entries.keys fields).Nodup
  | .date _ => true
  | v => v.isExact

/-- Definite all the way down. -/
def Definite (v : Value) : Prop :=
  v.Everywhere fun part => part.isDefinite = true

end Value

/-- Values that are the same but for the order of the fields of records. -/
inductive Value.Reordered : Value → Value → Prop where
  | same (v : Value) : Reordered v v
  | arrays {xs ys : List Value} (length : xs.length = ys.length)
    (items : ∀ (i : Nat) x y, xs[i]? = some x → ys[i]? = some y → Reordered x y) :
    Reordered (.array xs) (.array ys)
  | objects {xs ys : List (String × Value)} (names : (Entries.keys xs).Perm (Entries.keys ys))
    (fields : ∀ x ∈ xs, ∀ y ∈ ys, x.1 = y.1 → Reordered x.2 y.2) :
    Reordered (.object xs) (.object ys)

namespace Value.Definite

variable {v w : Value}

theorem kind_ne_float (h : v.Definite) : v.kind ≠ .float := by
  rintro float
  have here := h.here
  cases v <;> first | cases float; done | cases here

theorem nodup {fields : List (String × Value)} (h : (Value.object fields).Definite) :
    (Entries.keys fields).Nodup :=
  of_decide_eq_true h.here

theorem alike_self (h : v.Definite) : v.Alike v := by
  induction h with
  | @intro v here inside ih =>
    cases v with
    | null => exact .null
    | array xs =>
      refine .arrays rfl fun i x y hx hy => ?_
      obtain rfl := Option.some.inj (hx.symm.trans hy)
      exact ih x (List.mem_of_getElem? hx)
    | object xs =>
      refine .objects (.refl _) fun x hx y hy same => ?_
      -- a name belongs to one field
      obtain rfl := List.inj_on_of_nodup_map (of_decide_eq_true here) hx hy same
      exact ih x.2 (List.mem_map_of_mem hx)
    | boolean | integer | string | date => exact .measured rfl rfl
    | _ => cases here

/-- A value in another order of fields is as definite. -/
theorem reordered (h : v.Definite) (r : v.Reordered w) : w.Definite := by
  induction r with
  | same => exact h
  | @arrays xs ys length _ ih =>
    refine Everywhere.array_iff.2 ⟨rfl, fun y hy => ?_⟩
    obtain ⟨i, inside, rfl⟩ := List.getElem_of_mem hy
    have hx : xs[i]? = some xs[i] := List.getElem?_eq_getElem (length ▸ inside)
    exact ih i _ _ hx (List.getElem?_eq_getElem inside) (h.inside (List.mem_of_getElem? hx))
  | @objects xs ys names _ ih =>
    refine Everywhere.object_iff.2 ⟨decide_eq_true (names.nodup_iff.1 h.nodup), fun y hy => ?_⟩
    obtain ⟨x, hx, same⟩ := Entries.exists_of_keys_perm names.symm hy
    exact ih x hx y hy same ((Everywhere.object_iff.1 h).2 x hx)

theorem alike_of_reordered (h : v.Definite) (r : v.Reordered w) : v.Alike w := by
  induction r with
  | same => exact h.alike_self
  | arrays length _ ih =>
    exact .arrays length fun i x y hx hy => ih i x y hx hy (h.inside (List.mem_of_getElem? hx))
  | objects names _ ih =>
    exact .objects names fun x hx y hy same =>
      ih x hx y hy same ((Everywhere.object_iff.1 h).2 x hx)

end Value.Definite

/-! ## Equality -/

theorem looseEqList_iff_getElem? {xs ys : List Value} : looseEqList xs ys = true ↔
    xs.length = ys.length ∧
      ∀ (i : Nat) x y, xs[i]? = some x → ys[i]? = some y → looseEq x y = true := by
  rw [looseEqList_iff, List.forall₂_iff_get]
  refine and_congr_right fun length => ?_
  constructor
  · intro items i x y hx hy
    obtain ⟨inX, rfl⟩ := List.getElem?_eq_some_iff.1 hx
    obtain ⟨inY, rfl⟩ := List.getElem?_eq_some_iff.1 hy
    exact items i inX inY
  · exact fun items i inX inY =>
      items i _ _ (List.getElem?_eq_getElem inX) (List.getElem?_eq_getElem inY)

/-- Records that name each field once are equal if they have the same names and equal fields under
each. -/
theorem looseEqFields_iff_perm {xs ys : List (String × Value)} (once : (Entries.keys xs).Nodup)
    (once' : (Entries.keys ys).Nodup) :
    (xs.length = ys.length ∧ looseEqFields xs ys = true) ↔
      (Entries.keys xs).Perm (Entries.keys ys) ∧
        ∀ x ∈ xs, ∀ y ∈ ys, x.1 = y.1 → looseEq x.2 y.2 = true := by
  rw [looseEqFields_iff]
  constructor
  · rintro ⟨length, found⟩
    have inside : Entries.keys xs ⊆ Entries.keys ys := by
      refine List.forall_mem_map.2 fun x hx => ?_
      obtain ⟨w, read, -⟩ := found x hx
      exact List.mem_map.2 ⟨_, Entries.mem_of_get? read, rfl⟩
    refine ⟨(once.subperm inside).perm_of_length_le ?_, fun x hx y hy same => ?_⟩
    · rw [Entries.keys, Entries.keys, List.length_map, List.length_map, length]
    · obtain ⟨w, read, equal⟩ := found x hx
      rw [same, Entries.get?_of_mem once' hy, Option.some.injEq] at read
      exact read ▸ equal
  · rintro ⟨names, fields⟩
    refine ⟨by simpa [Entries.keys] using names.length_eq, fun x hx => ?_⟩
    obtain ⟨y, hy, same⟩ := Entries.exists_of_keys_perm names hx
    exact ⟨y.2, same ▸ Entries.get?_of_mem once' hy, fields x hx y hy same.symm⟩

/-- A value with a measure equals those that have the same. -/
theorem looseEq_iff_measure {a b : Value} (measured : a.measure?.isSome = true)
    (hb : b.kind ≠ .float) : looseEq a b = true ↔ a.measure? = b.measure? := by
  have identical : ∀ v w : Value, (v == w) = Value.beq v w := fun _ _ => rfl
  cases a <;> first | cases measured; done | skip
  all_goals
    cases b <;> first | exact absurd rfl hb | skip
    all_goals
      simp [looseEq, sameMillis, Value.epochMillis?, Value.beq, Value.measure?, identical,
        Int64.toInt_inj]

/-- Definite values are equal exactly if they are alike. -/
theorem looseEq_iff_alike {a b : Value} (ha : a.Definite) (hb : b.Definite) :
    looseEq a b = true ↔ a.Alike b := by
  induction ha generalizing b with
  | @intro a here inside ih =>
    cases a with
    | null =>
      rw [Value.Alike.null_iff]
      cases b <;> simp [looseEq] <;> rfl
    | array xs =>
      rw [Value.Alike.array_iff]
      cases b with
      | array ys =>
        rw [looseEq, looseEqList_iff_getElem?]
        simp only [Value.array.injEq, exists_eq_left']
        refine and_congr_right fun _ => forall₅_congr fun i x y hx hy => ?_
        exact ih x (List.mem_of_getElem? hx) (hb.inside (List.mem_of_getElem? hy))
      | _ =>
        refine ⟨fun equal => ?_, ?_⟩
        · cases equal
        · rintro ⟨_, same, -⟩
          cases same
    | object xs =>
      rw [Value.Alike.object_iff]
      cases b with
      | object ys =>
        rw [looseEq, Bool.and_eq_true, beq_iff_eq,
          looseEqFields_iff_perm (of_decide_eq_true here) hb.nodup]
        simp only [Value.object.injEq, exists_eq_left']
        refine and_congr_right fun _ => forall₅_congr fun x hx y hy same => ?_
        exact ih x.2 (List.mem_map_of_mem hx) ((Value.Everywhere.object_iff.1 hb).2 y hy)
      | _ =>
        refine ⟨fun equal => ?_, ?_⟩
        · cases equal
        · rintro ⟨_, same, -⟩
          cases same
    | boolean | integer | string | date =>
      rw [looseEq_iff_measure rfl hb.kind_ne_float, Value.Alike.measured_iff rfl, eq_comm]
      rfl
    | _ => cases here

/-! ## Order -/

section

variable {a b c : Value} (ha : a.kind ≠ .float) (hb : b.kind ≠ .float)

include ha hb

/-- The order of two values the other way round is reversed. -/
theorem compareValues_swap {o : Option Ordering} (h : compareValues a b = .ok o) :
    compareValues b a = .ok (o.map Ordering.swap) := by
  cases o with
  | none =>
    exact (compareValues_eq_none_iff hb ha).2 ((compareValues_eq_none_iff ha hb).1 h).symm
  | some o =>
    obtain ⟨m, n, left, right, sorts, rfl⟩ := (compareValues_eq_some_iff ha hb).1 h
    exact (compareValues_eq_some_iff hb ha).2
      ⟨n, m, right, left, sorts.symm, Std.OrientedCmp.eq_swap⟩

/-- Values that cannot be compared cannot be the other way round either. -/
theorem compareValues_error_swap {e : EvalError} (h : compareValues a b = .error e) :
    ∃ e', compareValues b a = .error e' := by
  cases other : compareValues b a with
  | error e' => exact ⟨e', rfl⟩
  | ok o => cases h.symm.trans (compareValues_swap hb ha other)

/-- Values that have an order are level exactly if they are equal. -/
theorem compareValues_eq_iff_looseEq {o : Ordering} (h : compareValues a b = .ok (some o)) :
    o = .eq ↔ looseEq a b = true := by
  obtain ⟨m, n, left, right, -, rfl⟩ := (compareValues_eq_some_iff ha hb).1 h
  rw [Measure.order_eq_eq_iff, looseEq_iff_measure (by rw [left]; rfl) hb, left, right,
    Option.some_inj]

/-- A value less than one that is less than a third is less than that. -/
theorem compareValues_lt_trans (hc : c.kind ≠ .float) (ab : compareValues a b = .ok (some .lt))
    (bc : compareValues b c = .ok (some .lt)) : compareValues a c = .ok (some .lt) := by
  obtain ⟨m, n, left, middle, sorts, less⟩ := (compareValues_eq_some_iff ha hb).1 ab
  obtain ⟨n', k, middle', right, sorts', less'⟩ := (compareValues_eq_some_iff hb hc).1 bc
  obtain rfl := Option.some.inj (middle.symm.trans middle')
  exact (compareValues_eq_some_iff ha hc).2
    ⟨m, k, left, right, sorts.trans sorts', Std.TransCmp.lt_trans less less'⟩

end

/-- On definite values equality is an equivalence and does not look at the order of fields, at any
depth. Order is reversed by turning it round, and is an error both ways or neither. Values that have
an order are level exactly if they are equal, and what is less than a lesser value is less. -/
theorem comparisons_coherent {a b c : Value} (ha : a.Definite) (hb : b.Definite)
    (hc : c.Definite) :
    looseEq a a = true ∧
    (looseEq a b = true → looseEq b a = true) ∧
    (looseEq a b = true → looseEq b c = true → looseEq a c = true) ∧
    (∀ a' b', a.Reordered a' → b.Reordered b' → looseEq a' b' = looseEq a b) ∧
    (∀ o, compareValues a b = .ok o ↔ compareValues b a = .ok (o.map Ordering.swap)) ∧
    ((∃ e, compareValues a b = .error e) ↔ ∃ e, compareValues b a = .error e) ∧
    (∀ o, compareValues a b = .ok (some o) → (o = .eq ↔ looseEq a b = true)) ∧
    (compareValues a b = .ok (some .lt) → compareValues b c = .ok (some .lt) →
      compareValues a c = .ok (some .lt)) := by
  have floatA := ha.kind_ne_float
  have floatB := hb.kind_ne_float
  refine ⟨(looseEq_iff_alike ha ha).2 ha.alike_self, fun ab => ?_, fun ab bc => ?_,
    fun a' b' reorderA reorderB => ?_, fun o => ⟨compareValues_swap floatA floatB, fun h => ?_⟩,
    ⟨fun ⟨_, h⟩ => compareValues_error_swap floatA floatB h,
      fun ⟨_, h⟩ => compareValues_error_swap floatB floatA h⟩,
    fun o => compareValues_eq_iff_looseEq floatA floatB,
    compareValues_lt_trans floatA floatB hc.kind_ne_float⟩
  · exact (looseEq_iff_alike hb ha).2 ((looseEq_iff_alike ha hb).1 ab).symm
  · exact (looseEq_iff_alike ha hc).2
      (((looseEq_iff_alike ha hb).1 ab).trans ((looseEq_iff_alike hb hc).1 bc))
  · have alikeA := ha.alike_of_reordered reorderA
    have alikeB := hb.alike_of_reordered reorderB
    rw [Bool.eq_iff_iff, looseEq_iff_alike (ha.reordered reorderA) (hb.reordered reorderB),
      looseEq_iff_alike ha hb]
    exact ⟨fun ab => alikeA.trans (ab.trans alikeB.symm),
      fun ab => alikeA.symm.trans (ab.trans alikeB)⟩
  · have back := compareValues_swap floatB floatA h
    rw [Option.map_map] at back
    simpa only [Function.comp_def, Ordering.swap_swap, Option.map_id'] using back

/-- A number of milliseconds lies between two dates, and two records of a date and a list are equal in
either order of the fields. -/
theorem coherent_at_dates :
    (compareValues (.date ⟨0, 5000000⟩) (.integer 6) = .ok (some .lt) ∧
      compareValues (.integer 6) (.date ⟨0, 7000000⟩) = .ok (some .lt) ∧
      compareValues (.date ⟨0, 5000000⟩) (.date ⟨0, 7000000⟩) = .ok (some .lt)) ∧
    looseEq (.object [("n", .array [.null]), ("at", .date ⟨1, 0⟩)])
      (.object [("n", .array [.null]), ("at", .integer 1000)])
        = looseEq (.object [("at", .date ⟨1, 0⟩), ("n", .array [.null])])
          (.object [("n", .array [.null]), ("at", .integer 1000)]) := by
  have leaf : ∀ {v : Value}, v.isDefinite = true → v.parts = [] → v.Definite :=
    fun here none => .of_parts_nil here none
  have list : (Value.array [.null]).Definite :=
    Value.Everywhere.array_iff.2 ⟨rfl, List.forall_mem_singleton.2 (leaf rfl rfl)⟩
  have dated : (Value.object [("at", .date ⟨1, 0⟩), ("n", .array [.null])]).Definite :=
    Value.Everywhere.object_iff.2 ⟨by decide, List.forall_mem_cons.2 ⟨leaf rfl rfl,
      List.forall_mem_singleton.2 list⟩⟩
  have numbered : (Value.object [("n", .array [.null]), ("at", .integer 1000)]).Definite :=
    Value.Everywhere.object_iff.2 ⟨by decide, List.forall_mem_cons.2 ⟨list,
      List.forall_mem_singleton.2 (leaf rfl rfl)⟩⟩
  have between := (comparisons_coherent (a := .date ⟨0, 5000000⟩) (b := .integer 6)
    (c := .date ⟨0, 7000000⟩) (leaf rfl rfl) (leaf rfl rfl) (leaf rfl rfl)).2.2.2.2.2.2.2
  refine ⟨⟨rfl, rfl, between rfl rfl⟩,
    (comparisons_coherent dated numbered numbered).2.2.2.1 _ _ (.objects (.swap ..) ?_) (.same _)⟩
  simp only [List.forall_mem_cons, List.not_mem_nil, false_implies, implies_true, and_true]
  exact ⟨⟨nofun, fun _ => .same _⟩, fun _ => .same _, nofun⟩

end QueryForms
