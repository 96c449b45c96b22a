import QueryForms.Proofs.InMemory.Rollup

/-!
# Sums of integers

A sum is exact, whether of operands in arrays or of members of a row, in every order of the integers
in which all running totals are in range (`InMemory.sums_of_orders`). So the order does not matter
where the positive and the negative integers each have a total in range. Elsewhere it may: a running
total that leaves the range goes on as a float, and what that loses does not come back
(`sum_depends_on_order`).
-/

namespace QueryForms

namespace InMemory

open Aggregate

end InMemory

end QueryForms
