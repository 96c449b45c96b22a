import QueryForms.Value.Basic

/-!
# Identical values

`Value.beq` tells whether two values are the same: of one type, with the same parts. The fields of a
record and the tables of a row may come in any order. An integer never is a float here, and a float
that is no number is not the same as itself.
-/

namespace QueryForms

mutual

/-- Whether two values are the same. -/
def Value.beq : Value → Value → Bool
  | .null, .null => true
  | .boolean a, .boolean b => a == b
  | .float a, .float b => a == b
  | .integer a, .integer b => a == b
  | .string a, .string b => a == b
  | .date a, .date b => a == b
  | .array a, .array b => Value.beqList a b
  | .object a, .object b => a.length == b.length && Value.beqFields a b
  | .rows a, .rows b => Row.beqList a b
  | .column a, .column b => a == b
  | .fragment a, .fragment b => Fragment.beq a b
  | _, _ => false
termination_by structural v => v

/-- Whether two lists hold the same values in the same order. -/
def Value.beqList : List Value → List Value → Bool
  | [], [] => true
  | a :: as, b :: bs => Value.beq a b && Value.beqList as bs
  | _, _ => false
termination_by structural v => v

/-- Whether every field has the same value among others. -/
def Value.beqFields : List (String × Value) → List (String × Value) → Bool
  | [], _ => true
  | (name, v) :: rest, others =>
    (match Entries.get? others name with
      | some w => Value.beq v w
      | none => false) && Value.beqFields rest others
termination_by structural v => v

/-- Whether two rows are the same. -/
def Row.beq : Row → Row → Bool
  | ⟨tables, groups, items⟩, other =>
    tables.length == other.tables.length && Value.beqFields tables other.tables &&
    (match groups, other.groups with
      | none, none => true
      | some a, some b => a.length == b.length && Value.beqFields a b
      | _, _ => false) &&
    (match items, other.items with
      | none, none => true
      | some a, some b => Row.beqList a b
      | _, _ => false)
termination_by structural v => v

/-- Whether two lists hold the same rows in the same order. -/
def Row.beqList : List Row → List Row → Bool
  | [], [] => true
  | a :: as, b :: bs => Row.beq a b && Row.beqList as bs
  | _, _ => false
termination_by structural v => v

/-- Whether two fragments have the same pieces and parameters and are both queries or both not. -/
def Fragment.beq : Fragment → Fragment → Bool
  | ⟨pieces, params, isQuery⟩, other =>
    pieces == other.pieces && Value.beqList params other.params && isQuery == other.isQuery
termination_by structural v => v

end

instance : BEq Value := ⟨Value.beq⟩

instance : BEq Row := ⟨Row.beq⟩

instance : BEq Fragment := ⟨Fragment.beq⟩

end QueryForms
