import QueryForms.Error

/-!
# Pages

A page skips a number of rows and takes a number of rows. Both are counts; a count that is zero or
missing does nothing, so the page of nothing is everything.
-/

namespace QueryForms

/-- A page of a list. -/
structure Pagination where
  /-- How many items to skip. -/
  offset : Option Nat
  /-- How many items to take. -/
  limit : Option Nat
deriving DecidableEq

namespace Pagination

/-- A count of a page; zero is no count. -/
def count (what : String) : Value → Result (Option Nat)
  | .null => .ok none
  | .integer n =>
    if n.toInt < 0 then fault (.pageCount what .integer)
    else if n.toInt = 0 then .ok none
    else .ok (some n.toInt.toNat)
  | other => fault (.pageCount what other.kind)

/-- A page from a count of items, or from a record of an offset and a limit. -/
def ofValue : Value → Result Pagination
  | .object fields => do
    let offset ← count "offset" ((Entries.get? fields "offset").getD .null)
    let limit ← count "limit" ((Entries.get? fields "limit").getD .null)
    return ⟨offset, limit⟩
  | v => do
    let limit ← count "count" v
    return ⟨none, limit⟩

/-- The items on the page. -/
def apply {α : Type} (page : Pagination) (items : List α) : List α :=
  let rest := items.drop (page.offset.getD 0)
  match page.limit with
  | some n => rest.take n
  | none => rest

end Pagination

end QueryForms
