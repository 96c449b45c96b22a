import QueryForms.Proofs.InMemory.Frames
import QueryForms.Proofs.InMemory.Paging

/-!
# Pages side by side

A page is read from two counts (`Pagination.ofValue_object`) and covers the places from the first
count on, as many as the second says (`Pagination.apply_ofCounts`). Pages of one size that start at
its multiples lie side by side: the first few of them make the beginning of a list
(`Pagination.flatMap_ofCounts`), and all that start before its end make the list.
-/

namespace QueryForms

namespace Pagination

variable {α : Type} {what : String} {v : Value} {n : Nat}

/-- The number that a value counts; a missing value counts nothing. -/
def counted? : Value → Option Nat
  | .null => some 0
  | .integer n => if n.toInt < 0 then none else some n.toInt.toNat
  | _ => none

theorem counted?_integer {m : Int64} (counts : 0 ≤ m.toInt) :
    counted? (.integer m) = some m.toInt.toNat :=
  if_neg (Int.not_lt.2 counts)

/-- A count that is zero or missing. -/
def ofCount (n : Nat) : Option Nat :=
  if n = 0 then none else some n

/-- The page after a number of items that has a number of items, where zero is no number. -/
def ofCounts (offset limit : Nat) : Pagination :=
  ⟨ofCount offset, ofCount limit⟩

/-- What counts is read. -/
theorem count_eq_ok (counts : counted? v = some n) : count what v = .ok (ofCount n) := by
  cases v with
  | null =>
    obtain rfl := Option.some.inj counts
    rfl
  | integer m =>
    rw [counted?] at counts
    split at counts
    · cases counts
    · next notNegative =>
      obtain rfl := Option.some.inj counts
      rw [count, if_neg notNegative, ofCount]
      by_cases zero : m.toInt = 0
      · rw [if_pos zero, if_pos (by omega)]
      · rw [if_neg zero, if_neg (by omega)]
  | _ => cases counts

/-- A page is read from the two counts of a record. -/
theorem ofValue_object {fields : Entries Value} {offset limit : Nat}
    (before : counted? ((Entries.get? fields "offset").getD .null) = some offset)
    (long : counted? ((Entries.get? fields "limit").getD .null) = some limit) :
    ofValue (.object fields) = .ok (ofCounts offset limit) := by
  rw [ofValue, count_eq_ok before, count_eq_ok long]
  rfl

/-- The items of a page, as a stretch of the list. -/
theorem apply_ofCounts_eq (offset limit : Nat) (items : List α) :
    (ofCounts offset limit).apply items
      = if limit = 0 then items.drop offset else (items.drop offset).take limit := by
  have skipped : (ofCount offset).getD 0 = offset := by
    rw [ofCount]
    split
    · next none => exact none.symm
    · rfl
  simp only [apply, ofCounts, skipped]
  by_cases unlimited : limit = 0
  · rw [ofCount, if_pos unlimited, if_pos unlimited]
  · rw [ofCount, if_neg unlimited, if_neg unlimited]

/-- The items of a page, by their places in the list. -/
theorem apply_ofCounts (offset limit : Nat) (items : List α) :
    (ofCounts offset limit).apply items
      = (items.zipIdx.filter fun item =>
          offset ≤ item.2 ∧ (limit = 0 ∨ item.2 < offset + limit)).map Prod.fst := by
  rw [apply_ofCounts_eq]
  -- a page without an end reaches to the end of the list
  by_cases unlimited : limit = 0
  · have within : ∀ item ∈ items.zipIdx,
        decide (offset ≤ item.2 ∧ (limit = 0 ∨ item.2 < offset + limit))
          = decide (offset ≤ item.2 ∧ item.2 ≤ items.length) := by
      intro item hm
      have inside := List.snd_lt_of_mem_zipIdx hm
      rw [decide_eq_decide]
      omega
    rw [if_pos unlimited, List.filter_congr within, map_filter_zipIdx,
      List.take_of_length_le (by omega), Nat.sub_zero]
  · have within : ∀ item ∈ items.zipIdx,
        decide (offset ≤ item.2 ∧ (limit = 0 ∨ item.2 < offset + limit))
          = decide (offset ≤ item.2 ∧ item.2 ≤ offset + limit - 1) := by
      intro item _
      rw [decide_eq_decide]
      omega
    have last : offset + limit - 1 + 1 - 0 = offset + limit := by omega
    rw [if_neg unlimited, List.filter_congr within, map_filter_zipIdx, last, Nat.sub_zero,
      List.take_drop, Nat.add_comm]

/-- The first pages of one size make the beginning of the list. -/
theorem flatMap_ofCounts {size : Nat} (filled : size ≠ 0) (items : List α) (pages : Nat) :
    (List.range pages).flatMap (fun k => (ofCounts (k * size) size).apply items)
      = items.take (pages * size) := by
  induction pages with
  | zero => simp
  | succ pages ih =>
    have last : (ofCounts (pages * size) size).apply items
        = (items.drop (pages * size)).take size := by
      rw [apply_ofCounts_eq, if_neg filled]
    rw [List.range_succ, List.flatMap_append, ih, List.flatMap_singleton, last, Nat.succ_mul,
      List.take_add]

/-- A record that asks for a page. -/
def request (offset limit : Int64) : Value :=
  .object [("offset", .integer offset), ("limit", .integer limit)]

theorem ofValue_request {offset limit : Int64} (before : 0 ≤ offset.toInt)
    (long : 0 ≤ limit.toInt) :
    ofValue (request offset limit) = .ok (ofCounts offset.toInt.toNat limit.toInt.toNat) :=
  ofValue_object (counted?_integer before) (counted?_integer long)

/-- The first pages of one size one after the other, each asked for by its offset. -/
def readPages (size : Int64) (pages : Nat) (items : List α) : Result (List α) := do
  let asked ← (List.range pages).mapM fun k : Nat =>
    ofValue (request (Int64.ofInt (k * size.toInt)) size)
  return asked.flatMap (·.apply items)

/-- Pages whose offsets are integer values make the beginning of the list. -/
theorem readPages_eq {size : Int64} (filled : 1 ≤ size.toInt) {pages : Nat}
    (offsets : ∀ k < pages, k * size.toInt ≤ greatestInt) (items : List α) :
    readPages size pages items = .ok (items.take (pages * size.toInt.toNat)) := by
  have read : ∀ k ∈ List.range pages, ofValue (request (Int64.ofInt (k * size.toInt)) size)
      = .ok (ofCounts (k * size.toInt.toNat) size.toInt.toNat) := by
    intro k hk
    have fits : k * size.toInt ≤ greatestInt := offsets k (List.mem_range.1 hk)
    have nonnegative : 0 ≤ k * size.toInt := Int.mul_nonneg (Int.natCast_nonneg k) (by omega)
    have greatest : greatestInt = 2 ^ 63 - 1 := rfl
    have offset : (Int64.ofInt (k * size.toInt)).toInt = k * size.toInt :=
      Int64.toInt_ofInt_of_le (by omega) (by omega)
    have counted : (k * size.toInt).toNat = k * size.toInt.toNat := by
      rw [Int.toNat_mul (Int.natCast_nonneg k) (by omega), Int.toNat_natCast]
    rw [ofValue_request (offset.symm ▸ nonnegative) (by omega), offset, counted]
  rw [readPages, mapM_eq_ok read, ← flatMap_ofCounts (by omega) items pages]
  show Except.ok (List.flatMap _ (List.map _ _)) = _
  rw [List.flatMap_map]

/-- A list that can be numbered is the pages that start before its end. -/
theorem readPages_to_end {size : Int64} (filled : 1 ≤ size.toInt) {items : List α}
    (short : (items.length : Int) ≤ greatestInt) :
    ∃ pages : Nat, (∀ k : Nat, k < pages ↔ k * size.toInt < items.length) ∧
      readPages size pages items = .ok items := by
  obtain ⟨width, size_eq⟩ := Int.eq_ofNat_of_zero_le (show 0 ≤ size.toInt by omega)
  have positive : 0 < width := by omega
  have starts : ∀ k : Nat, k < (items.length + (width - 1)) / width
      ↔ k * size.toInt < items.length := by
    intro k
    rw [Nat.lt_div_iff_mul_lt positive, Nat.add_sub_cancel, size_eq, ← Int.natCast_mul,
      Int.ofNat_lt]
  refine ⟨_, starts, (readPages_eq filled (fun k hk => ?_) items).trans ?_⟩
  · exact ((starts k).1 hk).le.trans short
  · -- the first page that is not read would start past the end
    have past := mt (starts ((items.length + (width - 1)) / width)).2 (lt_irrefl _)
    rw [size_eq, ← Int.natCast_mul, Int.ofNat_lt, Nat.not_lt] at past
    rw [size_eq, Int.toNat_natCast, List.take_of_length_le past]

/-- The pages of one size that start before the end of a list are the list, each item once and in
order, and fewer of them are its beginning. A page of two counts has the items at the places from
the first count on, as many as the second says, and a count that is zero or missing does nothing. -/
theorem pages_tile (items : List α) :
    (∀ size : Int64, 1 ≤ size.toInt →
      ((items.length : Int) ≤ greatestInt →
        ∃ pages : Nat, (∀ k : Nat, k < pages ↔ k * size.toInt < items.length) ∧
          readPages size pages items = .ok items) ∧
      ∀ pages : Nat, (∀ k < pages, k * size.toInt ≤ greatestInt) →
        readPages size pages items = .ok (items.take (pages * size.toInt.toNat))) ∧
    ∀ (fields : Entries Value) (offset limit : Nat),
      counted? ((Entries.get? fields "offset").getD .null) = some offset →
      counted? ((Entries.get? fields "limit").getD .null) = some limit →
      ∃ page, ofValue (.object fields) = .ok page ∧
        page.apply items = (items.zipIdx.filter fun item =>
          offset ≤ item.2 ∧ (limit = 0 ∨ item.2 < offset + limit)).map Prod.fst :=
  ⟨fun _ filled => ⟨fun short => readPages_to_end filled short,
      fun _ offsets => readPages_eq filled offsets items⟩,
    fun _ offset limit before long =>
      ⟨ofCounts offset limit, ofValue_object before long, apply_ofCounts offset limit items⟩⟩

/-- Five items on three pages, and the items after the first. -/
theorem pages_tile_of_five :
    readPages 2 3 ['a', 'b', 'c', 'd', 'e'] = .ok ['a', 'b', 'c', 'd', 'e'] ∧
      (∃ pages : Nat, (∀ k : Nat, k < pages ↔ k * (2 : Int64).toInt < 5) ∧
        readPages 2 pages ['a', 'b', 'c', 'd', 'e'] = .ok ['a', 'b', 'c', 'd', 'e']) ∧
      ∃ page, ofValue (.object [("limit", .integer 0), ("offset", .integer 1)]) = .ok page ∧
        page.apply ['a', 'b', 'c', 'd', 'e'] = ['b', 'c', 'd', 'e'] := by
  obtain ⟨tiled, stretch⟩ := pages_tile ['a', 'b', 'c', 'd', 'e']
  obtain ⟨toEnd, first⟩ := tiled 2 (by decide)
  exact ⟨first 3 (by decide), toEnd (by decide), stretch _ 1 0 (by decide) (by decide)⟩

end Pagination

end QueryForms
