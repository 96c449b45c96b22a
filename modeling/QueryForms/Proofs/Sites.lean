import QueryForms.Proofs.Operands
import QueryForms.Proofs.Yields

/-!
# Where window functions are accepted

A window call evaluates its function in a window of its own, and the functions that only a window
call may call ask for that window. An environment hands its window on to those that are made of it,
so what the guard sees far below may be the window of a call far above. `Sites.evaluateAt` is an
evaluation that goes by the place of an expression instead: its site is the window of the call whose
function it is, and where the operands of an expression stand is a parameter. Almost all operators
evaluate their operands in the window that they are given (`Handler.HandsOn`), so evaluation hands
the site on unchanged (`Sites.Lawful.evaluateLevels_eq`).
-/

namespace QueryForms

/-- Whether only a window call may call an operator. -/
def Operator.isWindowFunction : Operator → Bool
  | .rowNumber => true
  | .rank => true
  | .denseRank => true
  | .lag => true
  | .lead => true
  | _ => false

/-- The error of a window function that no window call calls. -/
def Operator.misuse (op : Operator) : EvalError :=
  .windowMisuse (.functionOutsideOver op.name)

/-- Where an expression stands: in the function of a window call, which has a window, or in none. -/
abbrev Site := Option WindowState

/-! ## Errors that do not occur -/

section Errors

variable {α β : Type} {error : EvalError}

theorem bind_ne_error {r : Result α} {f : α → Result β} (first : r ≠ .error error)
    (second : ∀ a, f a ≠ .error error) : r >>= f ≠ .error error := by
  cases r with
  | error other =>
    rintro ⟨⟩
    exact first rfl
  | ok a => exact second a

theorem mapM_ne_error {f : α → Result β} {list : List α}
    (h : ∀ a ∈ list, f a ≠ .error error) : list.mapM f ≠ .error error := by
  induction list with
  | nil => nofun
  | cons a rest ih =>
    rw [List.mapM_cons]
    refine bind_ne_error (h a (List.mem_cons_self ..)) fun b => ?_
    exact bind_ne_error (ih fun c hc => h c (List.mem_cons_of_mem _ hc)) fun _ => nofun

end Errors

/-! ## Operators that hand their window on -/

/-- Two evaluators agree in all environments that have one window. -/
def AgreeIn (window : Option WindowState) (eval other : Evaluator) : Prop :=
  ∀ e env, env.window = window → eval e env = other e env

namespace AgreeIn

variable {eval other : Evaluator} {env : Environment} (h : AgreeIn env.window eval other)

include h

theorem here (e : Expr) : eval e env = other e env :=
  h e env rfl

theorem onRow (e : Expr) (row : Row) : eval e (env.surround row) = other e (env.surround row) :=
  h e _ rfl

theorem evaluateAll (exprs : List Expr) :
    Interpretation.evaluateAll eval exprs env = Interpretation.evaluateAll other exprs env :=
  mapM_congr fun e _ => h.here e

theorem allOnRow (exprs : List Expr) (row : Row) :
    Interpretation.evaluateAll eval exprs (env.surround row)
      = Interpretation.evaluateAll other exprs (env.surround row) :=
  mapM_congr fun e _ => h.onRow e row

theorem evaluateFields (fields : List (String × Expr)) :
    Interpretation.evaluateFields eval env fields
      = Interpretation.evaluateFields other env fields := by
  induction fields with
  | nil => rfl
  | cons field rest ih =>
    rw [Interpretation.evaluateFields, Interpretation.evaluateFields, h.here, ih]

end AgreeIn

/-- An operator evaluates nothing but in the window that it is given. -/
def Handler.HandsOn : Handler → Prop
  | .onValues _ => True
  | .onOperands apply => ∀ (eval other : Evaluator) (operands : List Expr) (env : Environment),
    AgreeIn env.window eval other → apply eval operands env = apply other operands env

namespace PlainOperators

theorem handsOn_wait : (Handler.onOperands wait).HandsOn := by
  intro eval other operands env h
  rw [wait, wait, h.evaluateAll]

/-- What is bound in an environment does not change its window. -/
theorem handsOn_define : (Handler.onOperands define).HandsOn := by
  intro eval other operands env h
  have inside : ∀ body token name v,
      (env.extend token name v >>= fun inner => eval body inner)
        = env.extend token name v >>= fun inner => other body inner := by
    intro body token name v
    rw [Environment.extend]
    split
    · exact h body _ rfl
    · rfl
  simp only [define, h.here, inside]

/-- What both interpretations share hands its window on. -/
theorem handsOn {op : Operator} {h : Handler} (hh : handler op = some h) : h.HandsOn := by
  cases op <;> simp only [handler, Option.some.injEq, reduceCtorEq] at hh <;> subst hh
  case wait => exact handsOn_wait
  case define => exact handsOn_define
  all_goals exact trivial

end PlainOperators

/-! ## Evaluation by site -/

namespace Interpretation

variable {i j : Interpretation} {eval other : Evaluator} {env : Environment}

theorem apply_congr {op : Operator} (handsOn : ∀ h, i.handler op = some h → h.HandsOn)
    (agree : AgreeIn env.window eval other) (operands : List Expr) :
    i.apply eval op operands env = i.apply other op operands env := by
  rw [apply, apply]
  split
  · rfl
  · split
    · rfl
    · rw [agree.evaluateAll]
    · next f hf => exact handsOn _ hf eval other operands env agree

/-- Interpretations in which symbols mean the same and calls give the same give the same. -/
theorem step_eq_step (resolve : i.resolve = j.resolve) (agree : AgreeIn env.window eval other)
    (calls : ∀ op operands, i.apply eval op operands env = j.apply other op operands env)
    (e : Expr) : i.step eval e env = j.step other e env := by
  cases e with
  | literal v => rfl
  | quoted items => rfl
  | symbol s => rw [step, step, resolveSymbol, resolveSymbol, resolve]
  | record fields => rw [step, step, agree.evaluateFields]
  | list items =>
    cases items with
    | nil => rfl
    | cons head operands => simp only [step, call, calls]

end Interpretation

/-- What the sites of an interpretation are. -/
structure Sites (i : Interpretation) where
  /-- The windows that functions of window calls are evaluated in. -/
  accepts : WindowState → Bool
  /-- What an operator does that evaluates operands at another site than its own, if it is one: the
  evaluators of all sites are given, and then the one for its other operands. -/
  moves : (Site → Evaluator) → Operator →
    Option (Evaluator → List Expr → Environment → Result Value)

namespace Sites

variable {i : Interpretation}

/-- The site that the window of an environment shows. -/
def ofEnvironment (sites : Sites i) (env : Environment) : Site :=
  env.window.filter sites.accepts

/-- The interpretation at a site: there a window function is evaluated in the window of the site,
and without one it is refused. -/
def interpretationAt (sites : Sites i) (evaluators : Site → Evaluator) (site : Site) :
    Interpretation where
  resolve := i.resolve
  handler op :=
    match sites.moves evaluators op with
    | some apply => some (.onOperands apply)
    | none =>
      if op.isWindowFunction then
        some (.onOperands fun eval operands env =>
          match site with
          | some window => i.apply eval op operands (env.withWindow window)
          | none => .error op.misuse)
      else i.handler op

/-- Evaluate the given number of levels of an expression at a site. An operand of it that is not moved
to another site stands where `below` says. -/
def evaluateAt (sites : Sites i) (below : Site → Site) : Nat → Site → Evaluator
  | 0, _ => fun _ _ => .ok .null
  | levels + 1, site =>
    (sites.interpretationAt (sites.evaluateAt below levels) site).step
      (sites.evaluateAt below levels (below site))

/-- The guards of an interpretation go by its sites. -/
structure Lawful (sites : Sites i) : Prop where
  /-- Where there is no site a window function is refused. -/
  refuses : ∀ (op : Operator) eval operands env, op.isWindowFunction = true →
    sites.ofEnvironment env = none → i.apply eval op operands env = .error op.misuse
  /-- In a window of a site a window function is not refused, unless it is inside an operand. -/
  admits : ∀ (op : Operator) eval operands (env : Environment) window,
    op.isWindowFunction = true → sites.accepts window = true →
    (∀ e ∈ operands, ∀ inner, eval e inner ≠ .error op.misuse) →
    i.apply eval op operands (env.withWindow window) ≠ .error op.misuse
  /-- A window function moves no operand. -/
  still : ∀ evaluators (op : Operator), op.isWindowFunction = true →
    sites.moves evaluators op = none
  /-- An operator that moves no operand hands its window on. -/
  handsOn : ∀ evaluators op h, sites.moves evaluators op = none → i.handler op = some h → h.HandsOn
  /-- An operator that moves operands does so by the windows that it makes. -/
  moved : ∀ evaluators op apply eval operands env, sites.moves evaluators op = some apply →
    (∀ e env, eval e env = evaluators (sites.ofEnvironment env) e env) →
    i.apply eval op operands env = apply (evaluators (sites.ofEnvironment env)) operands env

variable {sites : Sites i} {eval : Evaluator} {evaluators : Site → Evaluator}

/-- In environments with the window of one, its site is the same. -/
theorem agreeIn (agree : ∀ e env, eval e env = evaluators (sites.ofEnvironment env) e env)
    (env : Environment) : AgreeIn env.window eval (evaluators (sites.ofEnvironment env)) := by
  intro e inner window
  rw [agree, ofEnvironment, ofEnvironment, window]

/-- At the site that an environment shows, an operator does what it does in the environment. -/
theorem Lawful.apply_eq (lawful : sites.Lawful)
    (agree : ∀ e env, eval e env = evaluators (sites.ofEnvironment env) e env) (op : Operator)
    (operands : List Expr) (env : Environment) :
    i.apply eval op operands env
      = (sites.interpretationAt evaluators (sites.ofEnvironment env)).apply
        (evaluators (sites.ofEnvironment env)) op operands env := by
  by_cases quoted : op = .quote
  · rw [Interpretation.apply, Interpretation.apply, if_pos quoted, if_pos quoted]
  cases moves : sites.moves evaluators op with
  | some apply =>
    have handler : ∀ site, (sites.interpretationAt evaluators site).handler op
        = some (.onOperands apply) := by
      intro site
      simp only [interpretationAt, moves]
    rw [lawful.moved _ _ _ _ _ _ moves agree, Interpretation.apply, if_neg quoted, handler]
  | none =>
    have handed := Interpretation.apply_congr (lawful.handsOn evaluators op · moves)
      (agreeIn agree env) operands
    by_cases guarded : op.isWindowFunction = true
    · conv_rhs => rw [Interpretation.apply, if_neg quoted]
      simp only [interpretationAt, moves, guarded, if_true]
      cases site : sites.ofEnvironment env with
      | none => exact lawful.refuses _ _ _ _ guarded site
      | some window =>
        have shown : env.withWindow window = env := by
          rw [Environment.withWindow, ← (Option.filter_eq_some_iff.1 site).1]
        rw [handed, site]
        simp only [shown]
    · have handler : ∀ site, (sites.interpretationAt evaluators site).handler op
          = i.handler op := by
        intro site
        simp only [interpretationAt, moves]
        exact if_neg guarded
      rw [handed, Interpretation.apply, Interpretation.apply, handler]

/-- Evaluation goes by the site, which is handed on unchanged. -/
theorem Lawful.evaluateLevels_eq (lawful : sites.Lawful) (levels : Nat) (e : Expr)
    (env : Environment) :
    i.evaluateLevels levels e env = sites.evaluateAt id levels (sites.ofEnvironment env) e env := by
  induction levels generalizing e env with
  | zero => rfl
  | succ levels ih =>
    -- the levels below agree wherever the window is the same, which is all that operators see of it
    have calls := fun op operands => lawful.apply_eq ih op operands env
    refine Interpretation.step_eq_step ?_ (agreeIn ih env) calls e
    rfl

/-- The site decides on a window function: at none it is refused, and at any it is not, unless it is
so inside an operand. -/
def Decides (sites : Sites i) : Prop :=
  ∀ below levels (op : Operator) operands env, op.isWindowFunction = true →
    sites.evaluateAt below (levels + 1) none (.list (.symbol op.name :: operands)) env
        = .error op.misuse ∧
      ∀ window, sites.accepts window = true →
        (∀ e ∈ operands, ∀ inner,
          sites.evaluateAt below levels (below (some window)) e inner ≠ .error op.misuse) →
        sites.evaluateAt below (levels + 1) (some window) (.list (.symbol op.name :: operands)) env
          ≠ .error op.misuse

theorem Lawful.decides (lawful : sites.Lawful) : sites.Decides := by
  intro below levels op operands env guarded
  have named : Operator.ofName? op.name = some op := Operator.ofName?_name op
  have other : op ≠ .quote := by
    rintro rfl
    cases guarded
  have call : ∀ site, sites.evaluateAt below (levels + 1) site (.list (.symbol op.name :: operands))
      env = match site with
        | some window => i.apply (sites.evaluateAt below levels (below site)) op operands
          (env.withWindow window)
        | none => .error op.misuse := by
    intro site
    simp only [evaluateAt, Interpretation.step, Interpretation.call, Expr.asName?, named]
    rw [Interpretation.apply, if_neg other]
    simp only [interpretationAt, lawful.still _ op guarded, guarded, if_true]
  refine ⟨call none, fun window accepted clean => ?_⟩
  rw [call]
  exact lawful.admits op _ operands env window guarded accepted clean

end Sites

end QueryForms
