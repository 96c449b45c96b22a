import QueryForms.Proofs.Everywhere
import QueryForms.Proofs.Yields
import QueryForms.Sql.Interpretation

/-!
# What operators take of their operands

A clause takes a condition and a source, an order its keys, a window its partition and its order, an
aggregate a field and perhaps a condition. Whatever is taken stands in an operand, so it has every
property that holds of the operands all the way down.
-/

namespace QueryForms

variable {Q : Expr → Prop}

/-- What a clause asks for, and its source. -/
theorem Relation.yields_clauseOperands {op : String} {operands : List Expr}
    (he : ∀ e ∈ operands, e.Everywhere Q) :
    Yields (clauseOperands op operands) fun pair => pair.1.Everywhere Q ∧ pair.2.Everywhere Q := by
  rw [clauseOperands.eq_def]
  split
  · exact Yields.ok_iff.2 ⟨he _ (by simp), he _ (by simp)⟩
  · exact .fault _

/-- A clause is called with these two operands. -/
theorem Relation.clauseOperands_eq_ok {op : String} {operands : List Expr} {pair : Expr × Expr}
    (h : clauseOperands op operands = .ok pair) : operands = [pair.1, pair.2] := by
  rw [clauseOperands.eq_def] at h
  split at h
  · cases h
    rfl
  · cases h

/-- A name that stands for the fields of a table is its token with an asterisk. -/
theorem Relation.eq_of_tableOfWildcard? {s table : String} (h : tableOfWildcard? s = some table) :
    s = aliasToken table ++ "*" := by
  rw [tableOfWildcard?] at h
  split at h
  · next rest reversed =>
    obtain rfl := Option.some.inj h
    rw [← String.toList_inj, ← List.reverse_inj, reversed]
    simp [aliasToken]
  · cases h

theorem Aggregate.yields_oneOperand {op : String} {operands : List Expr}
    (he : ∀ e ∈ operands, e.Everywhere Q) :
    Yields (oneOperand op operands) fun operand => operand.Everywhere Q := by
  rw [oneOperand.eq_def]
  split
  · exact Yields.ok_iff.2 (he _ (by simp))
  · exact .fault _

/-- The operand of an aggregate, and its condition if it has one. -/
theorem SqlClause.yields_conditional {e : Expr} (he : e.Everywhere Q) :
    Yields (conditional e)
      fun pair => pair.1.Everywhere Q ∧ ∀ c ∈ pair.2, c.Everywhere Q := by
  rw [conditional]
  split
  · split
    · next field condition operands =>
      refine Yields.ok_iff.2 ⟨he.operands (by simp [operands]), fun c hc => ?_⟩
      exact Option.mem_some.1 hc ▸ he.operands (by simp [operands])
    · exact .fault _
  · exact Yields.ok_iff.2 ⟨he, fun c hc => nomatch hc⟩

theorem OrderSpec.yields_parse {e : Expr} (he : e.Everywhere Q) :
    Yields (parse e) fun spec => spec.expr.Everywhere Q := by
  rw [parse.eq_def]
  split
  · split
    · exact .fault _
    · next field found =>
      have hf := he.field? found
      split
      · exact Yields.ok_iff.2 hf
      · split
        · exact Yields.ok_iff.2 hf
        · exact .fault _
  · exact Yields.ok_iff.2 he

/-- The keys of an order. -/
theorem OrderSpec.yields_parseList {e : Expr} (he : e.Everywhere Q) :
    Yields (parseList e) fun specs => ∀ spec ∈ specs, spec.expr.Everywhere Q := by
  rw [parseList]
  split
  · simp
  · exact .mapM fun item hi => yields_parse (he.elements hi)

theorem Expr.itemsOrNone_eq_nil_iff {e : Expr} : e.itemsOrNone = [] ↔ e.isEmpty = true := by
  rw [itemsOrNone]
  split
  · next empty => simp [empty]
  · next some =>
    refine iff_of_false ?_ some
    cases e with
    | list inside => exact mt List.isEmpty_iff.2 some
    | _ => exact List.cons_ne_nil _ _

theorem Expr.elements_ne_nil {e : Expr} (h : e.isEmpty = false) : e.elements ≠ [] := by
  rw [elements.eq_def]
  split
  · split
    · simpa [isEmpty] using h
    · exact List.cons_ne_nil _ _
  · exact List.cons_ne_nil _ _

/-- There are keys of an order unless it stands for nothing. -/
theorem OrderSpec.yields_parseList_nil (e : Expr) :
    Yields (parseList e) fun specs => specs = [] ↔ e.isEmpty = true := by
  rw [parseList]
  split
  · next empty => simp [empty]
  · next some =>
    refine (Yields.length_mapM parse e.elements).mono fun specs length => ?_
    have keys := Expr.elements_ne_nil ((Bool.not_eq_true _).mp some)
    refine iff_of_false (fun none => keys ?_) some
    rw [← List.length_eq_zero_iff, ← length, none, List.length_nil]

theorem WindowSpec.everywhere_partitionKeys {e key : Expr} (he : e.Everywhere Q)
    (hk : key ∈ partitionKeys e) : key.Everywhere Q := by
  rw [partitionKeys] at hk
  split at hk
  · next part found =>
    split at hk
    · exact absurd hk List.not_mem_nil
    · exact (he.field? found).elements hk
  · exact absurd hk List.not_mem_nil

/-- The partition and the order of a window. -/
theorem WindowSpec.yields_parse {spec : Option Expr} (hw : ∀ e ∈ spec, e.Everywhere Q) :
    Yields (parse spec) fun w => (∀ e ∈ w.partition, e.Everywhere Q) ∧
      ∀ key ∈ w.order, key.expr.Everywhere Q := by
  rw [parse.eq_def]
  split
  · simp [whole]
  · next fields =>
    have he : (Expr.record fields).Everywhere Q := hw _ rfl
    -- what a frame holds are no expressions, so it may be any
    have framed : ∀ specs : List OrderSpec, (∀ key ∈ specs, key.expr.Everywhere Q) →
        ∀ frame : Result (Option FrameSpec),
          Yields (frame >>= fun f =>
            pure (WindowSpec.mk (partitionKeys (.record fields)) specs f)) fun w =>
              (∀ e ∈ w.partition, e.Everywhere Q) ∧ ∀ key ∈ w.order, key.expr.Everywhere Q :=
      fun specs ho frame => .bind (.trivial _) fun f _ =>
        Yields.pure_iff.2 ⟨fun key => everywhere_partitionKeys he, ho⟩
    dsimp only
    split
    · next o found =>
      refine .bind (OrderSpec.yields_parseList (he.field? found)) fun specs ho => ?_
      split
      · split <;> exact framed specs ho _
      · exact framed specs ho _
    · refine .bind (P := fun specs => specs = []) (by simp) fun specs none => ?_
      have ho : ∀ key ∈ specs, key.expr.Everywhere Q := by simp [none]
      split
      · split <;> exact framed specs ho _
      · exact framed specs ho _
  · exact .fault _

end QueryForms
