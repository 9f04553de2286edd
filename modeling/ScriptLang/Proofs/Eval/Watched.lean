import ScriptLang.Eval.Run

/-!
  Watching a run.

  Some properties are about what goes on during a run and not only about its end: that no call comes to
  the limit, or that no value of some kind is ever made.  To speak of that the evaluator is given a
  watch.  It is asked whenever a call is about to run its body and whenever some part has come to a
  value, and sees the machine as it is then.  A watch that always lets the run go on makes no difference.

  The rules are those of the evaluator, tied together once more with the watch between them.
-/

namespace ScriptLang

/-- What can be seen of a run while it goes on. -/
inductive Sight
  /-- A call inside `depth` others has bound its arguments in `scope`; its body comes next. -/
  | call (depth : Nat) (f : Closure) (scope : ScopeId)
  /-- An expression, a statement, a block or a call has come to a value. -/
  | value (v : Value)

/-- What is done at each sight. -/
abbrev Watch := Sight → Eval Unit

/-- Lets a run go on. -/
def Watch.silent : Watch := fun _ => pure ()

namespace Watched

open Eval

/-- A run whose value is seen. -/
def seen (watch : Watch) (run : Eval Value) : Eval Value := do
  let v ← run
  watch (.value v)
  return v

/-- What a watched call does when its arguments are bound.  It is seen before it is known whether it is
    at the limit. -/
def proceed (watch : Watch) (settings : Settings) (depth : Nat) (runBody : ScopeId → List Stmt → Eval Value)
    (f : Closure) : Except RuntimeError ScopeId → Eval Value
  | .error e => return .error e
  | .ok scope => do
    watch (.call depth f scope)
    Rule.proceed settings depth runBody f (.ok scope)

/-- A call that is seen. -/
def application (watch : Watch) (settings : Settings) (depth : Nat)
    (runBody : ScopeId → List Stmt → Eval Value) (f : Closure) (arguments : List Value) :
    Eval Value := do
  let entry ← Rule.enter settings f arguments
  proceed watch settings depth runBody f entry

mutual

/-- The run of an expression in a scope, inside `depth` calls. -/
def expr (watch : Watch) (settings : Settings) : (fuel depth : Nat) → ScopeId → Expr → Eval Value
  | 0, _, _, _ => outOfFuel
  | fuel + 1, depth, scope, e =>
    seen watch (Rule.expression (expr watch settings fuel depth) (apply watch settings fuel depth) scope e)
termination_by structural fuel => fuel

/-- The run of a statement in a scope, inside `depth` calls. -/
def stmt (watch : Watch) (settings : Settings) : (fuel depth : Nat) → ScopeId → Stmt → Eval Value
  | 0, _, _, _ => outOfFuel
  | fuel + 1, depth, scope, s =>
    seen watch (Rule.statement settings fuel (expr watch settings fuel depth) (stmt watch settings fuel depth)
      (block watch settings fuel depth) scope s)
termination_by structural fuel => fuel

/-- The run of a block in a scope, inside `depth` calls. -/
def block (watch : Watch) (settings : Settings) : (fuel depth : Nat) → ScopeId → Block → Eval Value
  | 0, _, _, _ => outOfFuel
  | fuel + 1, depth, scope, body => seen watch (Rule.block (stmt watch settings fuel depth) scope body)
termination_by structural fuel => fuel

/-- The call of a function from inside `depth` other calls. -/
def apply (watch : Watch) (settings : Settings) :
    (fuel depth : Nat) → Closure → List Value → Eval Value
  | 0, _, _, _ => outOfFuel
  | fuel + 1, depth, f, arguments =>
    seen watch (application watch settings depth
      (fun scope body => Rule.inOrder (stmt watch settings fuel (depth + 1) scope) .null body) f arguments)
termination_by structural fuel => fuel

end

/-- The run of a program in a scope. -/
def program (watch : Watch) (settings : Settings) (fuel : Nat) (scope : ScopeId) (p : Program) :
    Eval Value := do
  return (← Rule.inOrder (stmt watch settings fuel 0 scope) .null p.statements).unwrap

/-- The run of a program in a scope with the start and the result in the trace. -/
def runProgram (watch : Watch) (settings : Settings) (fuel : Nat) (scope : ScopeId) (p : Program) :
    Eval Value := do
  note settings 1 fun _ => return .started p.statements.length
  let v ← program watch settings fuel scope p
  note settings 1 fun _ => return .finished (← v.text)
  return v

/-! ## Silence -/

/-- A watch that lets go of every value. -/
theorem seen_eq {watch : Watch} (h : ∀ v, watch (.value v) = pure ()) (x : Eval Value) : seen watch x = x := by
  unfold seen
  simp only [h, pure_bind, bind_pure]

theorem seen_silent (x : Eval Value) : seen .silent x = x := seen_eq (fun _ => rfl) x

theorem application_silent : application .silent = Rule.application := by
  funext settings depth runBody f arguments
  refine bind_congr fun entry => ?_
  cases entry <;> rfl

/-- Up to a bound on steps a silent watch makes no difference. -/
structure Same (settings : Settings) (fuel : Nat) : Prop where
  expr : Watched.expr .silent settings fuel = evalExpr settings fuel
  stmt : Watched.stmt .silent settings fuel = evalStmt settings fuel
  block : Watched.block .silent settings fuel = evalBlock settings fuel
  apply : Watched.apply .silent settings fuel = applyFunction settings fuel

theorem same (settings : Settings) (fuel : Nat) : Same settings fuel := by
  induction fuel with
  | zero => exact ⟨rfl, rfl, rfl, rfl⟩
  | succ fuel ih =>
    constructor
    · funext depth scope e
      refine (seen_silent _).trans ?_
      rw [ih.expr, ih.apply]
      rfl
    · funext depth scope s
      refine (seen_silent _).trans ?_
      rw [ih.expr, ih.stmt, ih.block]
      rfl
    · funext depth scope b
      refine (seen_silent _).trans ?_
      rw [ih.stmt]
      rfl
    · funext depth f arguments
      refine (seen_silent _).trans ?_
      rw [application_silent, ih.stmt]
      rfl

theorem program_silent (settings : Settings) (fuel : Nat) (scope : ScopeId) (p : Program) :
    program .silent settings fuel scope p = evalProgram settings fuel scope p := by
  unfold program evalProgram
  rw [(same settings fuel).stmt]

theorem runProgram_silent (settings : Settings) (fuel : Nat) (scope : ScopeId) (p : Program) :
    Watched.runProgram .silent settings fuel scope p = ScriptLang.runProgram settings fuel scope p := by
  unfold Watched.runProgram ScriptLang.runProgram
  rw [program_silent]

end Watched

/-- A run has no sight that is bad: a watch that does something only at bad sights makes no difference. -/
def NeverSees (bad : Sight → Machine → Prop) (settings : Settings) (fuel : Nat) (scope : ScopeId) (p : Program)
    (m : Machine) : Prop :=
  ∀ watch : Watch, (∀ s m', ¬ bad s m' → watch s m' = .ok () m') →
    Watched.runProgram watch settings fuel scope p m = runProgram settings fuel scope p m

end ScriptLang
