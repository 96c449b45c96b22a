import QueryForms.InMemory.Interpretation
import QueryForms.Proofs.Sites

/-!
# Sites in memory

Stages, aggregates and shifts evaluate their operands on other rows, but in the window that they are
given. Two operators make a window: a window call, for its function, and a projection with window
calls among its fields, for all of its fields.
-/

namespace QueryForms

/-! ## What evaluates operands on rows -/

namespace AgreeIn

variable {eval other : Evaluator} {env : Environment} (h : AgreeIn env.window eval other)

include h

theorem sourceRows (e : Expr) :
    Relation.sourceRows eval e env = Relation.sourceRows other e env := by
  rw [Relation.sourceRows, Relation.sourceRows, h.here]

theorem holds (condition : Expr) :
    Relation.holds eval condition env = Relation.holds other condition env := by
  funext row
  rw [Relation.holds, Relation.holds, h.onRow]

theorem keyRows (keys : List Expr) (rows : List Row) :
    Relation.keyRows eval keys env rows = Relation.keyRows other keys env rows := by
  simp only [Relation.keyRows, h.allOnRow]

theorem project : Relation.project eval env = Relation.project other env := by
  funext field
  simp only [Relation.project, h.here]

theorem projectAll (fields : List Expr) :
    Relation.projectAll eval fields env = Relation.projectAll other fields env := by
  rw [Relation.projectAll, Relation.projectAll, h.project]

theorem memberValues (field : Expr) :
    Aggregate.memberValues eval field env = Aggregate.memberValues other field env := by
  simp only [Aggregate.memberValues, h.onRow]

theorem partitionOf (spec : WindowSpec) (rows : List Row) (index : Nat) :
    Windowed.partitionOf eval spec env rows index
      = Windowed.partitionOf other spec env rows index := by
  simp only [Windowed.partitionOf, Windowed.keysOn, h.allOnRow]

theorem shiftOffset (op : String) (e : Option Expr) :
    Windowed.shiftOffset op eval env e = Windowed.shiftOffset op other env e := by
  cases e with
  | none => rfl
  | some e => simp only [Windowed.shiftOffset, h.here]

end AgreeIn

/-! ## Operators that hand their window on -/

theorem Scalar.handsOn {op : Operator} {h : Handler} (hh : handler op = some h) : h.HandsOn := by
  cases op <;> simp only [handler, Option.some.injEq, reduceCtorEq] at hh <;> subst hh
  case filter =>
    intro eval other operands env h
    simp only [filter, h.here]
  all_goals exact trivial

/-- The stages of a query but the projection hand their window on. -/
theorem Relation.handsOn {op : Operator} {h : Handler} (shows : op ≠ .select)
    (hh : handler op = some h) : h.HandsOn := by
  cases op <;> simp only [handler, Option.some.injEq, reduceCtorEq] at hh <;> subst hh <;>
    intro eval other operands env h
  case source => simp only [source, h.sourceRows]
  case aliased => simp only [aliased, h.here]
  case join | leftJoin => simp only [join, matchesOf, h.sourceRows, h.holds]
  case filterRows | having => simp only [filterRows, h.sourceRows, h.holds]
  case group => simp only [group, h.sourceRows, h.keyRows]
  case order => simp only [order, h.sourceRows, h.allOnRow]
  case limit => simp only [limit, h.here]
  case union => simp only [union, h.evaluateAll]
  case select => exact absurd rfl shows

/-- Aggregates hand their window on to all members. -/
theorem Aggregate.handsOn {op : Operator} {h : Handler} (hh : handler op = some h) :
    h.HandsOn := by
  cases op <;> simp only [handler, Option.some.injEq, reduceCtorEq] at hh <;> subst hh <;>
    intro eval other operands env h
  case count => simp only [count, h.memberValues]
  case sum => simp only [sum, h.memberValues]
  case avg => simp only [avg, h.memberValues]
  all_goals simp only [extreme, h.memberValues]

/-- Window functions hand their window on, but a window call does not. -/
theorem Windowed.handsOn {op : Operator} {h : Handler} (calls : op ≠ .windowed)
    (hh : handler op = some h) : h.HandsOn := by
  cases op <;> simp only [handler, Option.some.injEq, reduceCtorEq] at hh <;> subst hh
  case windowed => exact absurd rfl calls
  case lag | lead =>
    intro eval other operands env h
    simp only [shifted, h.shiftOffset, h.here, h.onRow]
  all_goals exact fun _ _ _ _ _ => rfl

/-! ## Operators that make a window -/

/-- A window call that evaluates its function by the window. -/
def Windowed.callBy (inside : WindowState → Evaluator) (eval : Evaluator) (operands : List Expr)
    (env : Environment) : Result Value :=
  match operands with
  | [] => fault .overOperands
  | function :: rest => do
    let spec ← WindowSpec.parse rest.head?
    match env.window with
    | some (.source rows index) => do
      let frame ← frameOf spec index (← partitionOf eval spec env rows index)
      let current := { (rows[index]?).getD Row.empty with items := some frame.rows }
      inside (.frame frame) function ((env.surround current).withWindow (.frame frame))
    | _ => .error (.windowMisuse .overOutsideSelect)

/-- A projection that evaluates its fields apart if window calls are among them. -/
def Relation.selectBy (apart eval : Evaluator) (operands : List Expr) (env : Environment) :
    Result Value := do
  let (fieldList, rows) ← match operands with
    | [fieldList] => pure (fieldList, [env.row.getD Row.empty])
    | [fieldList, e] => do pure (fieldList, ← sourceRows eval e env)
    | _ => fault .selectOperands
  let fields := fieldList.itemsOrNone
  let rows := selectedRows fields rows
  let windowed := fields.any Expr.isWindowed
  let records ← (Windowed.indexed rows).mapM fun indexed =>
    projectAll (if windowed then apart else eval) fields (rowScope env rows windowed indexed)
  return .array records

namespace InMemory

/-- In memory the function of a window call stands in the frame, and the fields of a projection with
window calls stand in none. -/
def sites : Sites interpretation where
  accepts
    | .frame _ => true
    | _ => false
  moves evaluators
    | .windowed => some (Windowed.callBy fun window => evaluators (some window))
    | .select => some (Relation.selectBy (evaluators none))
    | _ => none

section

variable {eval : Evaluator} {evaluators : Site → Evaluator}
  (agree : ∀ e env, eval e env = evaluators (sites.ofEnvironment env) e env)

include agree

theorem call_eq_callBy (operands : List Expr) (env : Environment) :
    Windowed.call eval operands env = Windowed.callBy (fun window => evaluators (some window))
      (evaluators (sites.ofEnvironment env)) operands env := by
  have keys := (Sites.agreeIn agree env).partitionOf
  have function : ∀ f e (inner : Environment), eval e (inner.withWindow (.frame f))
      = evaluators (some (.frame f)) e (inner.withWindow (.frame f)) := fun _ _ _ => agree _ _
  have alike : Windowed.call eval operands env
      = Windowed.callBy (fun _ => eval) eval operands env := rfl
  rw [alike]
  simp only [Windowed.callBy, keys, function]

theorem select_eq_selectBy (operands : List Expr) (env : Environment) :
    Relation.select eval operands env = Relation.selectBy (evaluators none)
      (evaluators (sites.ofEnvironment env)) operands env := by
  have here := Sites.agreeIn agree env
  have fields : ∀ (fields : List Expr) rows windowed indexed,
      Relation.projectAll eval fields (Relation.rowScope env rows windowed indexed)
        = Relation.projectAll
          (if windowed then evaluators none else evaluators (sites.ofEnvironment env)) fields
          (Relation.rowScope env rows windowed indexed) := by
    intro fields rows windowed indexed
    have scope := Sites.agreeIn agree (Relation.rowScope env rows windowed indexed)
    cases windowed with
    | true => exact scope.projectAll fields
    | false => exact scope.projectAll fields
  have alike : Relation.select eval operands env
      = Relation.selectBy eval eval operands env := by
    simp only [Relation.selectBy, ite_self]
    rfl
  rw [alike]
  simp only [Relation.selectBy, ite_self, here.sourceRows, fields]

end

/-- Without a frame there is no window for a window function. -/
theorem ownFrame_of_no_site {env : Environment} (outside : sites.ofEnvironment env = none)
    (op : String) :
    Windowed.ownFrame op env = .error (.windowMisuse (.functionOutsideOver op)) := by
  rw [Windowed.ownFrame]
  split
  · next f frame =>
    rw [Sites.ofEnvironment, frame] at outside
    cases outside
  · rfl

/-- In a frame a shift is not refused, unless a window function is inside an operand. -/
theorem shifted_ne_misuse {name : String} {operands : List Expr} {eval : Evaluator}
    {error : WindowFault}
    (clean : ∀ e ∈ operands, ∀ inner, eval e inner ≠ .error (.windowMisuse error))
    (target : Nat → Nat → Option Nat) (f : Frame) (env : Environment) :
    Windowed.shifted name target eval operands (env.withWindow (.frame f))
      ≠ .error (.windowMisuse error) := by
  refine bind_ne_error (r := .ok f) nofun fun frame => ?_
  cases operands with
  | nil => nofun
  | cons field rest =>
    have later : ∀ e ∈ rest, ∀ inner, eval e inner ≠ .error (.windowMisuse error) :=
      fun e he => clean e (List.mem_cons_of_mem _ he)
    refine bind_ne_error ?_ fun offset => ?_
    · rw [Windowed.shiftOffset.eq_def]
      split
      · nofun
      · next e first =>
        refine bind_ne_error (later e (List.mem_of_mem_head? first) _) fun v => ?_
        split
        · split <;> nofun
        · nofun
    · split
      · exact clean field (List.mem_cons_self ..) _
      · split
        · next other given => exact later other (List.mem_of_getElem? given) _
        · nofun

theorem sites_lawful : sites.Lawful where
  refuses op eval operands env guarded outside := by
    have refused := ownFrame_of_no_site outside
    cases op <;> cases guarded
    case rowNumber | rank | denseRank =>
      show Windowed.ranking _ _ eval operands env = _
      rw [Windowed.ranking, refused]
      rfl
    case lag | lead =>
      show Windowed.shifted _ _ eval operands env = _
      rw [Windowed.shifted, refused]
      rfl
  admits op eval operands env window guarded accepted clean := by
    cases window <;> cases accepted
    case frame f =>
      cases op <;> cases guarded
      case lag | lead => exact shifted_ne_misuse clean _ f env
      all_goals nofun
  still evaluators op guarded := by
    cases op <;> cases guarded <;> rfl
  handsOn evaluators op h stays hh := by
    have other : op ≠ .select ∧ op ≠ .windowed := by
      constructor <;> rintro rfl <;> cases stays
    have known : handler op = some h := hh
    simp only [handler, Option.orElse_eq_orElse, Option.orElse_eq_or,
      Option.or_eq_some_iff] at known
    rcases known with hh | ⟨-, hh | ⟨-, hh | ⟨-, hh | ⟨-, hh⟩⟩⟩⟩
    · exact PlainOperators.handsOn hh
    · exact Scalar.handsOn hh
    · exact Relation.handsOn other.1 hh
    · exact Aggregate.handsOn hh
    · exact Windowed.handsOn other.2 hh
  moved evaluators op apply eval operands env moves agree := by
    cases op <;> cases moves
    case windowed => exact call_eq_callBy agree operands env
    case select => exact select_eq_selectBy agree operands env

/-- In memory evaluation goes by the site. -/
theorem evaluateIn_eq_evaluateAt (e : Expr) (env : Environment) :
    evaluateIn env e = sites.evaluateAt id e.depth (sites.ofEnvironment env) e env :=
  sites_lawful.evaluateLevels_eq e.depth e env

end InMemory

end QueryForms
