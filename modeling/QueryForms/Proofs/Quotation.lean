import QueryForms.Proofs.ConstantFolding
import QueryForms.Proofs.Json.Exact
import QueryForms.Proofs.Levels

/-!
# Quotation

Data is read as an expression and written back without loss (`Expr.toValue_ofValue`): the one record
that is read as an array of data, with the empty name alone over an array, is written as that record.
A quotation writes its operand back, whatever surrounds it and whatever the interpretation
(`Interpretation.step_quote`), so it gives any document as it stands, calls and quoted arrays in it
included.
-/

namespace QueryForms

/-! ## Expressions and data -/

namespace Expr

/-- A record is read as an array of data if it has the empty name alone over an array, and field by
field otherwise. -/
theorem ofValue_object (fields : List (String × Value)) :
    (∃ items, fields = [("", .array items)] ∧ ofValue (.object fields) = .quoted items) ∨
    (∀ items, fields ≠ [("", .array items)]) ∧
      ofValue (.object fields) = .record (ofFields fields) := by
  rw [ofValue.eq_def]
  split
  · next eq => cases eq
  · next eq => cases eq
  · next name items eq =>
    obtain rfl := Value.object.inj eq
    split
    · next empty => exact .inl ⟨items, by rw [empty], rfl⟩
    · next named =>
      refine .inr ⟨fun others same => named ?_, rfl⟩
      exact congrArg Prod.fst (List.cons.inj same).1
  · next other eq =>
    obtain rfl := Value.object.inj eq
    exact .inr ⟨fun items same => other "" items same, rfl⟩
  · next noObject => exact absurd rfl (noObject fields)

/-- Data that is read as an expression is written back as it was, the order of fields included. -/
theorem toValue_ofValue (v : Value) : (ofValue v).toValue = v := by
  have everything : v.Everywhere fun _ => True := .of_forall (fun _ => trivial) v
  induction everything with
  | @intro v _ _ ih =>
    cases v with
    | array items =>
      rw [ofValue, toValue, ofValues_eq_map, toValues_eq_map, List.map_map]
      exact congrArg Value.array ((List.map_congr_left ih).trans (List.map_id _))
    | object fields =>
      rcases ofValue_object fields with ⟨items, rfl, quoted⟩ | ⟨-, record⟩
      · rw [quoted]
        rfl
      · rw [record, toValue, ofFields_eq_map, toFields_eq_map, List.map_map]
        refine congrArg Value.object ((List.map_congr_left fun field hf => ?_).trans (List.map_id _))
        exact Prod.ext rfl (ih _ (List.mem_map_of_mem hf))
    | _ => rfl

end Expr

/-! ## Quotations -/

namespace Interpretation

variable (i : Interpretation)

/-- A quotation gives its operand as data, however its surroundings are evaluated. -/
theorem step_quote (eval : Evaluator) (e : Expr) (env : Environment) :
    i.step eval (.list [.symbol "$quote", e]) env = .ok e.toValue := by
  have calls : (Expr.list [.symbol "$quote", e]).operator? = some .quote := by rfl
  rw [step_eq_apply calls, apply, if_pos rfl]
  rfl

theorem evaluate_quote (e : Expr) (env : Environment) :
    i.evaluate (.list [.symbol "$quote", e]) env = .ok e.toValue :=
  i.step_quote (i.evaluateLevels (Expr.depthOfList [.symbol "$quote", e])) e env

end Interpretation

mutual

/-- A document is plain data. -/
theorem Value.plain_ofJson : (j : Json) → (ofJson j).Plain
  | .null | .boolean _ | .integer _ | .float _ | .string _ => .of_parts_nil rfl rfl
  | .array items => Everywhere.array_iff.2 ⟨rfl, plain_ofJsonList items⟩
  | .object fields => Everywhere.object_iff.2 ⟨rfl, plain_ofJsonFields fields⟩

theorem Value.plain_ofJsonList : (items : List Json) → ∀ v ∈ ofJsonList items, v.Plain
  | [] => fun _ h => absurd h List.not_mem_nil
  | j :: rest => List.forall_mem_cons.2 ⟨plain_ofJson j, plain_ofJsonList rest⟩

theorem Value.plain_ofJsonFields : (fields : List (String × Json)) →
    ∀ field ∈ ofJsonFields fields, field.2.Plain
  | [] => fun _ h => absurd h List.not_mem_nil
  | (_, j) :: rest => List.forall_mem_cons.2 ⟨plain_ofJson j, plain_ofJsonFields rest⟩

end

/-- The expression that quotes a document. -/
def Json.quotation (j : Json) : Expr :=
  .ofValue (.ofJson (.array [.string "$quote", j]))

/-- Data is read as an expression without loss, and so is an expression that was read from data when it
is written and read again. The quotation of a document has the document as its value in both
interpretations, in any environment and in any context. -/
theorem quotation_lossless :
    (∀ v : Value, (Expr.ofValue v).toValue = v) ∧
    (∀ v : Value, Expr.ofValue (Expr.ofValue v).toValue = .ofValue v) ∧
    ∀ j : Json,
      (∀ env, InMemory.evaluateIn env j.quotation = .ok (.ofJson j) ∧
        Sql.evaluateIn env j.quotation = .ok (.ofJson j)) ∧
      ∀ context, InMemory.evaluate j.quotation context = .ok (.ofJson j) ∧
        ∀ style, Sql.compile style j.quotation context = .ok (.value (.ofJson j)) := by
  refine ⟨Expr.toValue_ofValue, fun v => congrArg Expr.ofValue (Expr.toValue_ofValue v),
    fun j => ?_⟩
  have evaluates : ∀ (i : Interpretation) env, i.evaluate j.quotation env = .ok (.ofJson j) :=
    fun i env => by
      have quoted := i.evaluate_quote (.ofValue (.ofJson j)) env
      rwa [Expr.toValue_ofValue] at quoted
  have plain := Value.plain_ofJson j
  refine ⟨fun env => ⟨evaluates _ env, evaluates _ env⟩, fun context => ⟨?_, fun style => ?_⟩⟩
  · rw [InMemory.evaluate, InMemory.evaluateIn, evaluates, Except.map,
      Value.materialize_of_plain plain]
  · rw [Sql.compile, Sql.evaluateIn, evaluates, Except.map, Sql.Compiled.ofValue_of_plain plain]

end QueryForms
