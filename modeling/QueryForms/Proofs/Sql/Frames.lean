import QueryForms.Proofs.InMemory.Frames
import QueryForms.Proofs.Sql.Rendered
import QueryForms.Proofs.Sql.Vocabulary

/-!
# Frames in statements

The words of a frame in a statement and the frame in memory mean the same rows (`frame_of_window`).
The words are read with the meaning that they have in SQL: two bounds, each a position relative to the
current row or an end of the partition; a frame that ends before it begins has no rows. A window
without words has its whole partition for a frame. That is so in SQL only where there is no order, and
the compiler leaves the words out only there.
-/

namespace QueryForms

namespace Sql

/-! ## Reading -/

/-- The position that two tokens give as a bound. -/
def readBound? (current length : Nat) : Token → Token → Option Int
  | .word "UNBOUNDED", .word "PRECEDING" => some 0
  | .word "UNBOUNDED", .word "FOLLOWING" => some (length - 1)
  | .word "CURRENT", .word "ROW" => some current
  | .number n, .word "PRECEDING" => some (current - n)
  | .number n, .word "FOLLOWING" => some (current + n)
  | _, _ => none

/-- The first and the last position of a frame in words, or of a window that has none and no order. -/
def readFrame? (current length : Nat) : List Token → Option (Int × Int)
  | [] => some (0, length - 1)
  | [.word "ROWS", .word "BETWEEN", a, b, .word "AND", c, d] => do
    return (← readBound? current length a b, ← readBound? current length c d)
  | _ => none

/-- The words of a bound are two tokens, which are read as its exact position. -/
theorem tokensOf_toSql (b : Bound) (edge : Edge) (current length : Nat) :
    ∃ first second, tokensOf (b.toSql edge).toList = [first, second] ∧
      readBound? current length first second = some (b.exact current length edge) := by
  cases b with
  | unbounded =>
    cases edge with
    | first => exact ⟨.word "UNBOUNDED", .word "PRECEDING", rfl, rfl⟩
    | last => exact ⟨.word "UNBOUNDED", .word "FOLLOWING", rfl, rfl⟩
  | current =>
    have words : tokensOf "CURRENT ROW".toList = [.word "CURRENT", .word "ROW"] := rfl
    exact ⟨_, _, words, rfl⟩
  | preceding n => exact ⟨_, _, tokensOf_counted n (by decide), rfl⟩
  | following n => exact ⟨_, _, tokensOf_counted n (by decide), rfl⟩

/-- The words of a frame are read as the exact positions of its bounds. -/
theorem readFrame?_frameText (start stop : Bound) (current length : Nat) :
    readFrame? current length (tokensOf (frameText start stop).toList)
      = some (start.exact current length .first, stop.exact current length .last) := by
  obtain ⟨a, b, startTokens, startRead⟩ := tokensOf_toSql start .first current length
  obtain ⟨c, d, stopTokens, stopRead⟩ := tokensOf_toSql stop .last current length
  have tokens : tokensOf (frameText start stop).toList
      = [.word "ROWS", .word "BETWEEN", a, b, .word "AND", c, d] := by
    have ready : (run .start "ROWS BETWEEN ".toList).2 = .start := by decide
    have opened : Lexical ("ROWS BETWEEN ".toList ++ (start.toSql .first).toList) :=
      (lexical_of_isKnown (by decide)).append_of_ready (lexical_bound start .first) ready
    rw [frameText, String.toList_append, String.toList_append, String.toList_append,
      opened.tokensOf_between (by decide),
      tokensOf_append (by rw [ready]; exact Pending.cutBy_start _), startTokens, stopTokens]
    rfl
  rw [tokens, readFrame?, startRead, stopRead]
  rfl

/-- The words of a window are read as the exact positions of the frame that counts. -/
theorem readFrame?_frameClause (spec : WindowSpec) (current length : Nat) (style : PlaceholderStyle)
    (n : Nat) :
    readFrame? current length
        (tokensOf ((Fragment.join " " (SqlWindow.frameClause spec)).chars style n))
      = some (spec.effectiveFrame.start.exact current length .first,
          spec.effectiveFrame.stop.exact current length .last) := by
  unfold SqlWindow.frameClause
  split
  · next silent =>
    obtain ⟨unwritten, unordered⟩ := (Bool.and_eq_true _ _).mp silent
    have frame : spec.effectiveFrame = ⟨.unbounded, .unbounded⟩ := by
      rw [WindowSpec.effectiveFrame, Option.isNone_iff_eq_none.1 unwritten, unordered]
      rfl
    rw [frame]
    rfl
  · have chars : (Fragment.join " " [Fragment.ofText (frameText spec.effectiveFrame.start
        spec.effectiveFrame.stop)]).chars style n
          = (frameText spec.effectiveFrame.start spec.effectiveFrame.stop).toList := by
      rw [Fragment.join, Fragment.appendAll, List.foldl_nil, Fragment.chars_append,
        Fragment.chars_ofText]
      rfl
    exact (congrArg (fun text => readFrame? current length (tokensOf text)) chars).trans
      (readFrame?_frameText ..)

end Sql

/-- The words of a window are those of its partition, of its order and of its frame. -/
theorem SqlWindow.yields_call {eval : Evaluator} {function : Expr} {rest : List Expr}
    {env : Environment} {spec : WindowSpec} (parsed : WindowSpec.parse rest.head? = .ok spec) :
    Yields (SqlWindow.call eval (function :: rest) env) fun v => ∃ head partition order,
      SqlClause.render eval (env.withWindow .compiling) function = .ok head ∧
      SqlWindow.partitionClause eval env spec.partition = .ok partition ∧
      SqlWindow.orderClause eval env spec.order = .ok order ∧
      v = .fragment (((head.pushText " OVER (").append (Fragment.join " "
        (partition ++ order ++ SqlWindow.frameClause spec))).pushText ")") := by
  rw [SqlWindow.call, parsed]
  refine .bind (.itself _) fun spec same => ?_
  obtain rfl := Except.ok.inj same
  refine .bind (.itself _) fun head function => .bind (.itself _) fun partition keys =>
    .bind (.itself _) fun order ordered => ?_
  exact Yields.pure_iff.2 ⟨head, partition, order, function, keys, ordered, rfl⟩

/-- The frame of a window is exact, and one in both places. In memory it holds the places of the
partition between its bounds, counted by integers without end, and goes from one place to another
unless it holds none; its rows are the rows at these places. In a statement its words, or that there
are none, are read as the same bounds, and a window call is written with these words. -/
theorem WindowSpec.effectiveFrame_exact (spec : WindowSpec) {current length : Nat}
    (inside : current < length) (short : length ≤ Bound.farthest) :
    (∀ i < length,
      (∃ first last, spec.effectiveFrame.resolve? current length = some (first, last) ∧
        first ≤ i ∧ i ≤ last) ↔
      spec.effectiveFrame.start.exact current length .first ≤ i ∧
        i ≤ spec.effectiveFrame.stop.exact current length .last) ∧
    (∀ first last, spec.effectiveFrame.resolve? current length = some (first, last) →
      first ≤ last ∧ last < length) ∧
    (∀ f : Frame, f.partition.length = length →
      f.bounds = spec.effectiveFrame.resolve? current length →
        f.rows = (f.partition.zipIdx.filter fun item =>
          spec.effectiveFrame.Covers current length item.2).map fun item => item.1.2) ∧
    (∀ style n, Sql.readFrame? current length
        (Sql.tokensOf ((Fragment.join " " (SqlWindow.frameClause spec)).chars style n))
      = some (spec.effectiveFrame.start.exact current length .first,
          spec.effectiveFrame.stop.exact current length .last)) ∧
    ∀ eval function rest env v, WindowSpec.parse rest.head? = .ok spec →
      SqlWindow.call eval (function :: rest) env = .ok v → ∃ head partition order,
        SqlClause.render eval (env.withWindow .compiling) function = .ok head ∧
        SqlWindow.partitionClause eval env spec.partition = .ok partition ∧
        SqlWindow.orderClause eval env spec.order = .ok order ∧
        v = .fragment (((head.pushText " OVER (").append (Fragment.join " "
          (partition ++ order ++ SqlWindow.frameClause spec))).pushText ")") := by
  refine ⟨fun i within => FrameSpec.resolve?_covers_iff short inside within,
    fun first last resolved => ?_, fun f size bounds => ?_,
    Sql.readFrame?_frameClause spec current length,
    fun _ _ _ _ v parsed called => SqlWindow.yields_call parsed v called⟩
  · rw [FrameSpec.resolve?_eq_some_iff short (Nat.zero_lt_of_lt inside)] at resolved
    omega
  · subst size
    exact Frame.rows_of_resolve? inside short bounds

/-- The record of a frame from the row before on, and farther than positions go. -/
def Expr.farFrame : Expr :=
  .record [("frame", .record [
    ("start", .record [("type", .symbol "preceding"), ("offset", .literal (.integer 1))]),
    ("end", .record [("type", .symbol "following"),
      ("offset", .literal (.integer 9223372036854775807))])])]

/-- The window of that record. -/
def WindowSpec.far : WindowSpec :=
  ⟨[], [], some ⟨.preceding 1, .following 9223372036854775807⟩⟩

/-- That frame for the third of four rows, and in the text of a window call. -/
theorem WindowSpec.effectiveFrame_far :
    (∀ i < 4, (∃ first last, WindowSpec.far.effectiveFrame.resolve? 2 4 = some (first, last) ∧
          first ≤ i ∧ i ≤ last) ↔
      ((2 : Nat) : Int) - (1 : Nat) ≤ i ∧ i ≤ ((2 : Nat) : Int) + (9223372036854775807 : Nat)) ∧
    (∀ first last, WindowSpec.far.effectiveFrame.resolve? 2 4 = some (first, last) →
      first ≤ last ∧ last < 4) ∧
    (∀ f : Frame, f.partition.length = 4 → f.bounds = WindowSpec.far.effectiveFrame.resolve? 2 4 →
      f.rows = (f.partition.zipIdx.filter fun item =>
        WindowSpec.far.effectiveFrame.Covers 2 4 item.2).map fun item => item.1.2) ∧
    (∀ style n, Sql.readFrame? 2 4 (Sql.tokensOf
        ((Fragment.join " " (SqlWindow.frameClause WindowSpec.far)).chars style n))
      = some (1, 9223372036854775809)) ∧
    WindowSpec.parse (some .farFrame) = .ok .far ∧
    ∃ v, SqlWindow.call Sql.interpretation.evaluate [.list [.symbol "$row_number"], .farFrame]
        (Environment.ofContext []) = .ok v ∧ ∃ head partition order,
      SqlClause.render Sql.interpretation.evaluate
        ((Environment.ofContext []).withWindow .compiling) (.list [.symbol "$row_number"])
        = .ok head ∧
      SqlWindow.partitionClause Sql.interpretation.evaluate (Environment.ofContext []) []
        = .ok partition ∧
      SqlWindow.orderClause Sql.interpretation.evaluate (Environment.ofContext []) [] = .ok order ∧
      v = .fragment (((head.pushText " OVER (").append (Fragment.join " "
        (partition ++ order ++ SqlWindow.frameClause .far))).pushText ")") := by
  have parsed : WindowSpec.parse (some .farFrame) = .ok .far := rfl
  have called : SqlWindow.call Sql.interpretation.evaluate
      [.list [.symbol "$row_number"], .farFrame] (Environment.ofContext []) = .ok (.fragment
        ((((Fragment.ofText "ROW_NUMBER()").pushText " OVER (").append (Fragment.join " "
          (SqlWindow.frameClause .far))).pushText ")")) := rfl
  obtain ⟨covers, inside, rows, words, text⟩ := WindowSpec.effectiveFrame_exact .far
    (by decide : 2 < 4) (by decide : ((4 : Nat) : Int) ≤ Bound.farthest)
  exact ⟨covers, inside, rows, words, parsed, _, called, text _ _ [.farFrame] _ _ parsed called⟩

end QueryForms
