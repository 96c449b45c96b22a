import QueryForms.Proofs.Invariant

/-!
# Operators on plain values keep every invariant

`PlainOperators.keepsBy` and `Scalar.keepsBy`: whatever both interpretations compute alike, from an
item of a list to the parts of a date, is built from the operands and from data of its own.
`_define` is the one operator here that changes what its operands may mean, and there the invariant
has the last word.
-/

namespace QueryForms

variable {I : Invariant}

open Invariant

/-- Truth values are good wherever they come from. -/
theorem Yields.boolean (r : Result Bool) : Yields (r.map Value.boolean) I.Good :=
  .map fun b _ => good_boolean b

/-! ## Shared operators -/

namespace PlainOperators

theorem operand_of {G : Value → Prop} {values : List Value} (null : G .null)
    (hv : ∀ v ∈ values, G v) (place : Nat) : G (operand values place) := by
  rw [operand]
  cases found : values[place]? with
  | none => exact null
  | some v => exact hv v (List.mem_of_getElem? found)

theorem orDefault_of {G : Value → Prop} {default : Value} {found : Option Value} (hd : G default)
    (hf : ∀ v, found = some v → G v) : G (orDefault default found) := by
  rw [orDefault.eq_def]
  split
  · exact hd
  · exact hf _ rfl
  · exact hd

/-- What is taken out of a value has a property that goes from values to what is inside them. -/
theorem yields_get {G : Value → Prop} {values : List Value} (hv : ∀ v ∈ values, G v)
    (null : G .null) (lookup : ∀ v path found, G v → v.lookupPath? path = some found → G found)
    (item : ∀ items v, G (.array items) → v ∈ items → G v) : Yields (get values) G := by
  have operands : ∀ place, G (operand values place) := operand_of null hv
  have chosen : ∀ found : Option Value, (∀ v, found = some v → G v) →
      Yields (pure (orDefault (operand values 2) found)) G :=
    fun found hf => Yields.pure_iff.2 (orDefault_of (operands 2) hf)
  simp only [get]
  split
  · exact chosen _ fun v h => lookup _ _ v (operands 0) h
  · split
    · next items heq =>
      refine chosen _ fun v h => ?_
      split at h
      · simp at h
      · exact item items v (heq ▸ operands 0) (List.mem_of_getElem? h)
    · exact chosen _ fun v h => lookup _ _ v (operands 0) h
  · exact .fault _

theorem keepsBy_get : I.KeepsBy .get (.onValues get) := fun _ hv =>
  yields_get hv good_null (fun _ _ _ h found => h.lookupPath? found)
    fun _ v h hm => good_array_iff.1 h v hm

theorem twoOperands {G : Value → Prop} {op : String} {values : List Value}
    (hv : ∀ v ∈ values, G v) : Yields (twoOperands op values) fun pair => G pair.1 ∧ G pair.2 := by
  rw [QueryForms.twoOperands.eq_def]
  split
  · exact Yields.ok_iff.2 ⟨hv _ (by simp), hv _ (by simp)⟩
  · exact .fault _

/-- One field of every record has a property that goes from arrays to what is read in their items. -/
theorem yields_map {G : Value → Prop} {values : List Value} (hv : ∀ v ∈ values, G v)
    (nothing : G (.array []))
    (read : ∀ items path, G (.array items) →
      G (.array (items.map fun item => (item.lookupPath? path).getD .null))) :
    Yields (map values) G := by
  refine .bind (twoOperands hv) fun ⟨list, field⟩ ⟨hl, _⟩ => ?_
  dsimp only
  split
  · split
    · exact Yields.pure_iff.2 (read _ _ hl)
    · exact Yields.pure_iff.2 nothing
    · exact .fault _
  · exact .fault _

theorem keepsBy_map : I.KeepsBy .map (.onValues map) := by
  refine fun _ hv => yields_map hv (good_array_iff.2 fun _ h => absurd h List.not_mem_nil) ?_
  intro items path list
  refine good_array_iff.2 fun v h => ?_
  obtain ⟨item, hi, rfl⟩ := List.mem_map.1 h
  exact good_getD fun v h => (good_array_iff.1 list item hi).lookupPath? h

/-- The values kept are among those there were. -/
theorem mem_firsts {kept values : List Value} {v : Value} (h : v ∈ firsts kept values) :
    v ∈ kept ∨ v ∈ values := by
  induction values generalizing kept with
  | nil => exact .inl h
  | cons first rest ih =>
    rw [firsts] at h
    split at h
    · exact (ih h).imp_right (List.mem_cons_of_mem _)
    · rcases ih h with hk | hr
      · rcases List.mem_append.1 hk with hk | hk
        · exact .inl hk
        · exact .inr (List.mem_singleton.1 hk ▸ List.mem_cons_self ..)
      · exact .inr (List.mem_cons_of_mem _ hr)

/-- What is left of an array has a property that goes from arrays to selections of their items. -/
theorem yields_unique {G : Value → Prop} {values : List Value} (hv : ∀ v ∈ values, G v)
    (null : G .null)
    (select : ∀ items kept, G (.array items) → (∀ v ∈ kept, v ∈ items) → G (.array kept)) :
    Yields (unique values) G := by
  have list : G (operand values 0) := operand_of null hv 0
  rw [unique]
  split
  · next items heq =>
    refine Yields.ok_iff.2 (select items _ (heq ▸ list) fun v h => ?_)
    exact (mem_firsts h).resolve_left List.not_mem_nil
  · exact .fault _

theorem keepsBy_unique : I.KeepsBy .unique (.onValues unique) := fun _ hv =>
  yields_unique hv good_null fun _ _ list inside =>
    good_array_iff.2 fun v h => good_array_iff.1 list v (inside v h)

theorem yields_size (values : List Value) :
    Yields (size values) fun v => v.isPlain = true ∧ v.parts = [] := by
  rw [size]
  split <;> simp [lengthValue, Value.isPlain, Value.parts]

theorem keepsBy_size : I.KeepsBy .size (.onValues size) := fun values _ =>
  (yields_size values).mono fun _ h => good_of_parts_nil h.1 h.2

theorem keepsBy_concatLists : I.KeepsBy .concatLists (.onValues concatLists) := by
  intro values hv
  refine Yields.ok_iff.2 (good_array_iff.2 fun v h => ?_)
  obtain ⟨list, hl, h⟩ := List.mem_flatMap.1 h
  have good : I.Good list := hv list hl
  rw [itemsOf.eq_def] at h
  split at h
  · exact good_array_iff.1 good v h
  · exact absurd h List.not_mem_nil
  · exact List.mem_singleton.1 h ▸ good

theorem yields_date (values : List Value) :
    Yields (date values) fun v => v.isPlain = true ∧ v.parts = [] := by
  rw [date]
  split
  · simp [Value.isPlain, Value.parts]
  · simp [Value.isPlain, Value.parts]
  · split <;> simp [Value.isPlain, Value.parts]
  · split <;> simp [Value.isPlain, Value.parts]
  · split <;> simp [Value.isPlain, Value.parts]
  · simp

theorem keepsBy_date : I.KeepsBy .date (.onValues date) := fun values _ =>
  (yields_date values).mono fun _ h => good_of_parts_nil h.1 h.2

theorem keepsBy_wait : I.KeepsBy .wait (.onOperands wait) := by
  intro eval e scope keeps he _ hs
  refine .map ((evaluateAll keeps (fun _ hm => he.operands hm) hs).mono fun values h => ?_)
  exact good_array_iff.2 h

/-- The body of a definition is evaluated where the regime allows the definition. -/
theorem keepsBy_define {R : Regime}
    (defined : ∀ (e : Expr) (scope : Environment) (token name : String) (v : Value),
      e.Everywhere R.expr → e.operator? = some .define →
      (e.operands.head?.bind Expr.asName?).bind scope.splitSymbol? = some (token, name) →
      R.env scope → R.Good v →
      R.env { scope with bindings := Context.bind scope.bindings token name v }) :
    R.KeepsBy .define (.onOperands define) := by
  intro eval e scope keeps he calls hs
  rw [define.eq_def]
  split
  · next target bound bodies operands =>
    have good : ∀ operand ∈ target :: bound :: bodies, operand.Everywhere R.expr :=
      fun operand hm => he.operands (operands ▸ hm)
    split
    · exact .fault _
    · next symbol hsymbol =>
      split
      · exact .error _
      · next token name hsplit =>
        refine .bind (keeps bound scope (good bound (by simp)) hs) fun v hv => ?_
        split
        · exact Yields.pure_iff.2 hv
        · next body =>
          refine .bind (P := R.env) ?_ fun inner hi => keeps body inner (good body (by simp)) hi
          rw [Environment.extend]
          split
          · refine Yields.ok_iff.2 (defined e scope token name v he calls ?_ hs hv)
            simp [operands, hsymbol, hsplit]
          · exact .error _
        · exact .fault _
  · exact .fault _

/-- What both interpretations share keeps every invariant. -/
theorem keepsBy {op : Operator} {h : Handler} (hh : handler op = some h) : I.KeepsBy op h := by
  cases op <;> simp only [handler, Option.some.injEq, reduceCtorEq] at hh <;> subst hh
  case get => exact keepsBy_get
  case map => exact keepsBy_map
  case unique => exact keepsBy_unique
  case size => exact keepsBy_size
  case concatLists => exact keepsBy_concatLists
  case date => exact keepsBy_date
  case wait => exact keepsBy_wait
  case define => exact keepsBy_define (R := I.regime) I.defined

end PlainOperators

/-! ## Arithmetic -/

theorem yields_integerArithmetic (op : ArithmeticOp) (a b : Int64) :
    Yields (integerArithmetic op a b) I.Good := by
  rw [integerArithmetic]
  split
  · exact .error _
  · split
    · exact .error _
    · split <;> simp

theorem good_mixedArithmetic (op : ArithmeticOp) (a b : Option Decimal) (x y : Float) :
    I.Good (mixedArithmetic op a b x y) := by
  rw [mixedArithmetic]
  cases h : decimalArithmetic? op a b with
  | none => simp
  | some v =>
    simp only [decimalArithmetic?, Option.bind_eq_bind, Option.bind_eq_some_iff] at h
    obtain ⟨_, _, _, _, result, _, h⟩ := h
    split at h <;> (cases h; simp)

theorem yields_moveDate (t : Instant) (millis : Int) : Yields (moveDate t millis) I.Good := by
  rw [moveDate]
  split <;> simp

theorem yields_textArithmetic (op : ArithmeticOp) (a b : Value) :
    Yields (textArithmetic op a b) I.Good := by
  rw [textArithmetic]
  split
  · next text h =>
    split at h
    · rw [addText?.eq_def] at h
      split at h <;> (cases h; try simp)
    · cases h
  · exact .fault _

/-- Arithmetic on two values gives a number, a date, a text or null. -/
theorem yields_applyArithmetic (op : ArithmeticOp) (a b : Value) :
    Yields (applyArithmetic op a b) I.Good := by
  simp only [applyArithmetic]
  split
  · simp
  · simp
  · exact yields_integerArithmetic _ _ _
  · simp
  · exact Yields.ok_iff.2 (good_mixedArithmetic _ _ _ _ _)
  · exact Yields.ok_iff.2 (good_mixedArithmetic _ _ _ _ _)
  · split
    · simp
    · exact yields_textArithmetic _ _ _
  · split
    · exact yields_moveDate _ _
    · split
      · exact yields_moveDate _ _
      · exact yields_textArithmetic _ _ _
  · exact yields_textArithmetic _ _ _

mutual

theorem good_of_mem_spread {v w : Value} (hv : I.Good v) (hw : w ∈ spread v) : I.Good w := by
  cases v with
  | array items => exact good_of_mem_spreadAll (good_array_iff.1 hv) hw
  | _ => exact List.mem_singleton.1 hw ▸ hv

theorem good_of_mem_spreadAll {values : List Value} {w : Value} (hv : ∀ v ∈ values, I.Good v)
    (hw : w ∈ spreadAll values) : I.Good w := by
  cases values with
  | nil => exact absurd hw List.not_mem_nil
  | cons v rest =>
    rcases List.mem_append.1 hw with hw | hw
    · exact good_of_mem_spread (hv v (List.mem_cons_self ..)) hw
    · exact good_of_mem_spreadAll (fun u hu => hv u (List.mem_cons_of_mem _ hu)) hw

end

theorem yields_reduce (op : ArithmeticOp) {values : List Value} (hv : ∀ v ∈ values, I.Good v) :
    Yields (reduce op values) I.Good := by
  unfold reduce
  split
  · split <;> simp
  · next only h =>
    split
    · exact yields_applyArithmetic _ _ _
    · exact Yields.ok_iff.2 (good_of_mem_spreadAll hv (h ▸ List.mem_singleton.2 rfl))
  · next first rest _ h =>
    refine .foldlM (fun a b _ _ => yields_applyArithmetic op a b) ?_
    exact good_of_mem_spreadAll hv (h ▸ List.mem_cons_self ..)

/-! ## Scalar operators -/

namespace Scalar

theorem yields_compareAll (op : String) (test : Value → Value → Result Bool)
    (values : List Value) : Yields (compareAll op test values) I.Good := by
  rw [compareAll.eq_def]
  split
  · exact .fault _
  · exact .fault _
  · exact .boolean _

theorem yields_likeWith (op : String) (ignoreCase : Bool) (values : List Value) :
    Yields (likeWith op ignoreCase values) I.Good := by
  refine .bind (.trivial _) fun ⟨v, pattern⟩ _ => ?_
  dsimp only
  split <;> simp

theorem yields_inList (values : List Value) : Yields (inList values) I.Good := by
  refine .bind (.trivial _) fun ⟨v, list⟩ _ => ?_
  dsimp only
  split <;> simp

theorem yields_contains (values : List Value) : Yields (contains values) I.Good := by
  refine .bind (.trivial _) fun ⟨haystack, needle⟩ _ => ?_
  dsimp only
  split <;> simp

theorem yields_isNull (values : List Value) : Yields (isNull values) I.Good := by
  rw [isNull]
  split <;> simp

theorem yields_not (values : List Value) : Yields (not values) I.Good := by
  rw [not.eq_def]
  split <;> simp

theorem yields_partOfMillis (part : DatePart) (millis : Int) :
    Yields (partOfMillis part millis) fun v => v.isPlain = true ∧ v.parts = [] := by
  unfold partOfMillis
  cases part with
  | epoch => dsimp only; split <;> simp [Value.isPlain, Value.parts]
  | day => dsimp only; split <;> simp [Value.isPlain, Value.parts]
  | month => dsimp only; split <;> simp [Value.isPlain, Value.parts]
  | year => dsimp only; split <;> simp [Value.isPlain, Value.parts]

/-- A part of a date is a number, whatever the date comes from. -/
theorem yields_extract (values : List Value) :
    Yields (extract values) fun v => v.isPlain = true ∧ v.parts = [] := by
  refine .bind (.trivial _) fun ⟨named, v⟩ _ => .bind (.trivial _) fun part _ => ?_
  split
  · simp [Value.isPlain, Value.parts]
  · split
    · exact yields_partOfMillis _ _
    · exact .fault _

theorem keepsBy_filter : I.KeepsBy .filter (.onOperands filter) := by
  intro eval e scope keeps he _ hs
  rw [filter.eq_def]
  split
  · next field condition operands =>
    refine .bind (.trivial _) fun v _ => ?_
    split
    · exact keeps field scope (he.operands (operands ▸ List.mem_cons_self ..)) hs
    · simp
  · exact .fault _

/-- What an operator computes on good values is good. -/
theorem keepsBy {op : Operator} {h : Handler} (hh : handler op = some h) : I.KeepsBy op h := by
  cases op <;> simp only [handler, Option.some.injEq, reduceCtorEq] at hh <;> subst hh
  case like | ilike => exact fun values _ => yields_likeWith _ _ values
  case inList => exact fun values _ => yields_inList values
  case contains => exact fun values _ => yields_contains values
  case isNull => exact fun values _ => yields_isNull values
  case and | or => exact fun _ _ => Yields.ok_iff.2 (good_boolean _)
  case not => exact fun values _ => yields_not values
  case add | subtract | multiply | divide => exact fun _ hv => yields_reduce _ hv
  case extract =>
    exact fun values _ => (yields_extract values).mono fun _ h => good_of_parts_nil h.1 h.2
  case concat => exact fun _ _ => Yields.ok_iff.2 (good_string _)
  case filter => exact keepsBy_filter
  all_goals exact fun values _ => yields_compareAll _ _ values

end Scalar

end QueryForms
