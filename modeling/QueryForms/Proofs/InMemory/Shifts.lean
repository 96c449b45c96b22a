import QueryForms.Proofs.InMemory.WindowOrder

/-!
# Shifts

`$lead` and `$lag` go along the window order of a partition. They read the partition and the position
of a window but not its bounds (`Windowed.shifted_eq_ok`), so no frame matters to them, not even an
empty one. Positions are counted by natural numbers and a step back is taken only where there is one,
so the target of a shift is exact however far it goes, and the two undo each other
(`Windowed.before_eq_some_iff`): where one row stands some places before another, the one finds the
other ahead and the other finds the one behind (`InMemory.shifts_of_partition`).

That takes an order that all rows of a partition see. Keys are evaluated in the scope of the row that
asks, so a key that is a window call may give every row an order of its own
(`InMemory.shifts_of_asking_rows`).
-/

namespace QueryForms

open Interpretation (evaluateAll)

namespace Windowed

/-- A position is the target of a step back from another if this one is the target of as long a step
ahead from it. -/
theorem before_eq_some_iff {position other steps : Nat} :
    before other steps = some position ↔ after position steps = some other := by
  rw [before, after, Option.ite_none_right_eq_some, Option.some.injEq, Option.some.injEq]
  omega

theorem before_eq_none {position steps : Nat} (short : position < steps) :
    before position steps = none :=
  if_neg (Nat.not_le.2 short)

/-- What a shift finds in a window: the value of the row at its target, or the default. -/
def shiftedFrom (target : Nat → Nat → Option Nat) (steps : Nat) (value : Row → Value)
    (default : Value) (f : Frame) : Value :=
  (((target f.position steps).bind fun position => f.partition[position]?).map
    fun item => value item.2).getD default

section

variable {env : Environment} {field otherwise : Expr} {value : Row → Value} {default : Value}
  {n : Int64} {steps : Nat}

/-- A shift depends on the partition and the position of its window, and on nothing else of it. -/
theorem shifted_eq_ok {f : Frame} (op : String) (target : Nat → Nat → Option Nat)
    (free : field.Windowless)
    (valued : ∀ item ∈ f.partition,
      InMemory.evaluateIn (env.surround item.2) field = .ok (value item.2))
    (fixed : ∀ row w,
      InMemory.evaluateIn { env with row := row, window := w } otherwise = .ok default)
    (far : n.toInt = steps) (row : Row) :
    shifted op target InMemory.interpretation.evaluate [field, .literal (.integer n), otherwise]
        (scope env f row)
      = .ok (shiftedFrom target steps value default f) := by
  have own : ownFrame op (scope env f row) = .ok f := rfl
  have offset : shiftOffset op InMemory.interpretation.evaluate (scope env f row)
      (some (.literal (.integer n))) = .ok steps := by
    show (if 0 ≤ n.toInt then Except.ok n.toInt.toNat else _) = _
    rw [far, if_pos (Int.natCast_nonneg steps), Int.toNat_natCast]
  simp only [shifted, shiftedFrom, own, offset, List.head?_cons, bind, Except.bind]
  cases there : (target f.position steps).bind fun position => f.partition[position]? with
  | none => exact fixed _ _
  | some item =>
    obtain ⟨position, -, found⟩ := Option.bind_eq_some_iff.1 there
    exact (InMemory.evaluate_besideWindow free (env.surround item.2) _).trans
      (valued item (List.mem_of_getElem? found))

end

section

variable {spec : WindowSpec} {key order : Row → List Value} {rows : List Row} {row : Row}
  {value : Row → Value} {default : Value} {steps position : Nat} {member : Nat × Row}

/-- The window of a row holds its partition. -/
theorem mem_of_mem_frameFor {item : List Value × Row}
    (h : item ∈ (frameFor spec key order rows member).partition) : item.2 ∈ rows := by
  obtain ⟨other, inside, rfl⟩ := List.mem_map.1 h
  exact mem_of_mem_indexed (mem_indexed_of_mem_placed inside)

/-- From the row at a position of a partition a shift finds the row at the target of the position. -/
theorem shiftedFrom_frameFor (target : Nat → Nat → Option Nat)
    (here : (placed spec key order rows row)[position]? = some member) :
    shiftedFrom target steps value default (frameFor spec key order rows member)
      = (((target position steps).bind fun other => (placed spec key order rows row)[other]?).map
          fun found => value found.2).getD default := by
  have same := placed_of_mem (List.mem_of_getElem? here)
  simp only [shiftedFrom, frameFor, place_of_getElem? here, same]
  cases target position steps with
  | none => rfl
  | some other =>
    rw [Option.bind_some, Option.bind_some, List.getElem?_map, Option.map_map]
    rfl

end

end Windowed

namespace InMemory

section

variable {env : Environment} {window field otherwise : Expr} {spec : WindowSpec} {rows : List Row}
  {key order : Row → List Value} {value : Row → Value} {default : Value} {n : Int64} {steps : Nat}

section

variable (parsed : WindowSpec.parse (some window) = .ok spec)
  (keyed : ∀ member ∈ Windowed.indexed rows, ∀ row ∈ rows,
    evaluateAll interpretation.evaluate spec.partition
      ((Relation.rowScope env rows true member).surround row) = .ok (key row))
  (ordered : ∀ member ∈ Windowed.indexed rows, ∀ row ∈ rows,
    evaluateAll interpretation.evaluate (spec.order.map OrderSpec.expr)
      ((Relation.rowScope env rows true member).surround row) = .ok (order row))
  (free : field.Windowless)
  (valued : ∀ row ∈ rows, evaluateIn (env.surround row) field = .ok (value row))
  (fixed : ∀ row w, evaluateIn { env with row := row, window := w } otherwise = .ok default)
  (far : n.toInt = steps)

include parsed keyed ordered free valued fixed far

/-- A window call of a shift on a row of a projection. -/
theorem evaluate_shift (op : Operator) (target : Nat → Nat → Option Nat)
    (shifts : handler op = some (.onOperands (Windowed.shifted op.name target)))
    {member : Nat × Row} (hm : member ∈ Windowed.indexed rows) :
    evaluateIn (Relation.rowScope env rows true member) (.windowCall
        (.list [.symbol op.name, field, .literal (.integer n), otherwise]) window)
      = .ok (Windowed.shiftedFrom target steps value default
          (Windowed.frameFor spec key order rows member)) := by
  refine (evaluate_windowCall parsed rfl hm (keyed member hm) (ordered member hm) _).trans ?_
  refine (evaluate_call op shifts [field, .literal (.integer n), otherwise] _).trans ?_
  exact Windowed.shifted_eq_ok op.name target free
    (fun item inside => valued item.2 (Windowed.mem_of_mem_frameFor inside)) fixed far member.2

/-- The shifts of the rows of a projection by a number of steps, for any frame. The keys of each row
are the same in the scope of every row, as they are if they look at no window. In the window order of
a partition, where a row precedes another if its order keys are less in the directions of the window,
or level and it is the earlier one in the source, the row at a position leads to the row that many
places after it, which lags to it. Past the end and before the beginning there is the default: a
literal, or anything else that is the same wherever it is evaluated. -/
theorem shifts_of_partition :
    ∃ leads lags : Nat × Row → Value,
      (∀ member ∈ Windowed.indexed rows,
        evaluateIn (Relation.rowScope env rows true member) (.windowCall
            (.list [.symbol "$lead", field, .literal (.integer n), otherwise]) window)
          = .ok (leads member) ∧
        evaluateIn (Relation.rowScope env rows true member) (.windowCall
            (.list [.symbol "$lag", field, .literal (.integer n), otherwise]) window)
          = .ok (lags member)) ∧
      (∀ source, Relation.sourceRows interpretation.evaluate source env = .ok rows → ∀ name,
        evaluateIn env (.selectAs name (.windowCall
            (.list [.symbol "$lead", field, .literal (.integer n), otherwise]) window) source)
          = .ok (.array ((Windowed.indexed rows).map fun member =>
              .object [(name, leads member)])) ∧
        evaluateIn env (.selectAs name (.windowCall
            (.list [.symbol "$lag", field, .literal (.integer n), otherwise]) window) source)
          = .ok (.array ((Windowed.indexed rows).map fun member =>
              .object [(name, lags member)]))) ∧
      ∀ row ∈ rows, ∃ placed : List (Nat × Row),
        placed.Perm (Windowed.partition key rows row) ∧
        placed.Pairwise (Windowed.Precedes (spec.order.map OrderSpec.descending) order) ∧
        (∀ p a b, placed[p]? = some a → placed[p + steps]? = some b →
          leads a = value b.2 ∧ lags b = value a.2) ∧
        (∀ p a, placed[p]? = some a → placed.length ≤ p + steps → leads a = default) ∧
        ∀ p b, placed[p]? = some b → p < steps → lags b = default := by
  have leads := fun member (hm : member ∈ Windowed.indexed rows) =>
    evaluate_shift parsed keyed ordered free valued fixed far .lead Windowed.after rfl hm
  have lags := fun member (hm : member ∈ Windowed.indexed rows) =>
    evaluate_shift parsed keyed ordered free valued fixed far .lag Windowed.before rfl hm
  refine ⟨_, _, fun member hm => ⟨leads member hm, lags member hm⟩, fun source sourced name =>
    ⟨evaluate_selectAs_windowCall leads sourced name, evaluate_selectAs_windowCall lags sourced name⟩,
    fun row hr => ⟨Windowed.placed spec key order rows row, Windowed.placed_perm .., ?_,
      fun p a b ha hb => ⟨?_, ?_⟩, fun p a ha past => ?_, fun p b hb short => ?_⟩⟩
  · obtain ⟨index, here⟩ := List.mem_iff_getElem?.1 hr
    have inside := List.mem_of_getElem? (Windowed.getElem?_indexed here)
    exact Windowed.pairwise_placed fun other ho =>
      Interpretation.length_evaluateAll (ordered _ inside other ho)
  · rw [Windowed.shiftedFrom_frameFor _ ha, Windowed.after, Option.bind_some, hb]
    rfl
  · rw [Windowed.shiftedFrom_frameFor _ hb, Windowed.before_eq_some_iff.2 rfl, Option.bind_some, ha]
    rfl
  · rw [Windowed.shiftedFrom_frameFor _ ha, Windowed.after, Option.bind_some,
      List.getElem?_eq_none past]
    rfl
  · rw [Windowed.shiftedFrom_frameFor _ hb, Windowed.before_eq_none short]
    rfl

end

/-- Two records under a frame that never holds a row. The lesser leads to the greater, which lags to
it, and nothing stands before the one or after the other. -/
theorem shifts_of_pair :
    ∃ (a b : Nat × Row) (leads lags : Nat × Row → Value),
      evaluateIn (Environment.ofContext []) (.selectAs "x" (.windowCall
          (.list [.symbol "$lead", .symbol ":n", .literal (.integer 1), .literal (.integer 0)])
          (.record [("order", .list [.symbol ":n"]), ("frame", .record [("start", .record
            [("type", .symbol "following"), ("offset", .literal (.integer 1))])])]))
          (.quoted [.object [("n", .integer 5)], .object [("n", .integer 7)]]))
        = .ok (.array [.object [("x", leads a)], .object [("x", leads b)]]) ∧
      evaluateIn (Environment.ofContext []) (.selectAs "x" (.windowCall
          (.list [.symbol "$lag", .symbol ":n", .literal (.integer 1), .literal (.integer 0)])
          (.record [("order", .list [.symbol ":n"]), ("frame", .record [("start", .record
            [("type", .symbol "following"), ("offset", .literal (.integer 1))])])]))
          (.quoted [.object [("n", .integer 5)], .object [("n", .integer 7)]]))
        = .ok (.array [.object [("x", lags a)], .object [("x", lags b)]]) ∧
      leads a = .integer 7 ∧ lags b = .integer 5 ∧ leads b = .integer 0 ∧ lags a = .integer 0 := by
  let lesser := Row.single "" (.object [("n", .integer 5)])
  let greater := Row.single "" (.object [("n", .integer 7)])
  have parsed : WindowSpec.parse (some (.record [("order", .list [.symbol ":n"]),
      ("frame", .record [("start", .record
        [("type", .symbol "following"), ("offset", .literal (.integer 1))])])]))
      = .ok ⟨[], [⟨.symbol ":n", false⟩], some ⟨.following 1, .current⟩⟩ := rfl
  have free : (Expr.symbol ":n").Windowless := Expr.Everywhere.symbol_iff.2 nofun
  have keyed : ∀ member ∈ Windowed.indexed [lesser, greater], ∀ row ∈ [lesser, greater],
      evaluateAll interpretation.evaluate [] ((Relation.rowScope (Environment.ofContext [])
        [lesser, greater] true member).surround row) = .ok [] := fun _ _ _ _ => rfl
  have valued : ∀ row ∈ [lesser, greater],
      evaluateIn ((Environment.ofContext []).surround row) (.symbol ":n")
        = .ok (row.lookup "n") := by
    simp only [List.forall_mem_cons, List.not_mem_nil, false_implies, implies_true, and_true]
    exact ⟨rfl, rfl⟩
  have ordered : ∀ member ∈ Windowed.indexed [lesser, greater], ∀ row ∈ [lesser, greater],
      evaluateAll interpretation.evaluate ([⟨.symbol ":n", false⟩].map OrderSpec.expr)
        ((Relation.rowScope (Environment.ofContext []) [lesser, greater] true member).surround row)
          = .ok [row.lookup "n"] := fun _ _ => by
    simp only [List.forall_mem_cons, List.not_mem_nil, false_implies, implies_true, and_true]
    exact ⟨rfl, rfl⟩
  have fixed : ∀ row w, evaluateIn { Environment.ofContext [] with row := row, window := w }
      (.literal (.integer 0)) = .ok (.integer 0) := fun _ _ => rfl
  have far : (1 : Int64).toInt = (1 : Nat) := by decide
  obtain ⟨leads, lags, -, shown, partition⟩ :=
    shifts_of_partition parsed keyed ordered free valued fixed far
  obtain ⟨leading, lagging⟩ := shown
    (.quoted [.object [("n", .integer 5)], .object [("n", .integer 7)]]) rfl "x"
  obtain ⟨placed, perm, sorted, between, past, short⟩ := partition lesser (.head _)
  have whole : Windowed.partition (fun _ => []) [lesser, greater] lesser
      = [(0, lesser), (1, greater)] := List.filter_eq_self.2 fun _ _ => beq_self_eq_true _
  have inOrder : [(0, lesser), (1, greater)].Pairwise (Windowed.Precedes
      ([⟨.symbol ":n", false⟩].map OrderSpec.descending) fun row => [row.lookup "n"]) := by
    refine List.pairwise_pair.2 (.inl ?_)
    show compareKeys [false] [.integer 5] [.integer 7] = .lt
    rfl
  have listed : placed.Perm [(0, lesser), (1, greater)] := whole ▸ perm
  obtain rfl := listed.eq_of_pairwise
    (fun _ _ _ _ first second => absurd second (Windowed.Precedes.asymm first)) sorted inOrder
  refine ⟨(0, lesser), (1, greater), leads, lags, leading, lagging, ?_⟩
  obtain ⟨ahead, behind⟩ := between 0 _ _ rfl rfl
  exact ⟨ahead, behind, past 1 _ rfl (Nat.le_refl 2), short 0 _ rfl Nat.zero_lt_one⟩

/-- Where an order key is a window call itself, it is evaluated in the scope of the row that asks, and
every row may see an order of its own. Here each of two rows sees itself last. So neither leads to the
other, although in any listing of the two one stands before the other. -/
theorem shifts_of_asking_rows :
    ∃ (rows : List Row) (leads : Nat × Row → Value),
      evaluateIn (Environment.ofContext []) (.selectAs "x" (.windowCall
          (.list [.symbol "$lead", .symbol ":n", .literal (.integer 1), .literal (.integer 0)])
          (.record [("order", .list [.list [.symbol "=", .symbol ":n",
            .windowCall (.list [.symbol "$row_number"]) (.record [])]])]))
          (.quoted [.object [("n", .integer 1)], .object [("n", .integer 2)]]))
        = .ok (.array ((Windowed.indexed rows).map fun member =>
            .object [("x", leads member)])) ∧
      Relation.sourceRows interpretation.evaluate
          (.quoted [.object [("n", .integer 1)], .object [("n", .integer 2)]])
          (Environment.ofContext []) = .ok rows ∧
      ∀ placed : List (Nat × Row), placed.Perm (Windowed.indexed rows) →
        ¬∀ p a b, placed[p]? = some a → placed[p + 1]? = some b → leads a = b.2.lookup "n" := by
  let first := Row.single "" (.object [("n", .integer 1)])
  let second := Row.single "" (.object [("n", .integer 2)])
  refine ⟨[first, second], fun _ => .integer 0, rfl, rfl, fun placed perm leading => ?_⟩
  have two : placed.length = 2 := perm.length_eq
  obtain ⟨a, b, rfl⟩ := List.length_eq_two.1 two
  have absurdity : Value.integer 0 = b.2.lookup "n" := leading 0 a b rfl rfl
  have inside : b ∈ [(0, first), (1, second)] := perm.mem_iff.1 (by simp)
  simp only [List.mem_cons, List.not_mem_nil, or_false] at inside
  rcases inside with rfl | rfl
  · cases absurdity
  · cases absurdity

end

end InMemory

end QueryForms
