import ScriptLang.Eval.Rule

/-!
  Running a program.

  The rules are tied together here.  Each construct runs with the evaluator one level deeper put in
  for its parts; `fuel` bounds the number of levels and of iterations of a loop.  A run that finishes
  does the same with any larger bound.
-/

namespace ScriptLang

open Eval

mutual

/-- The run of an expression in a scope, inside `depth` calls. -/
def evalExpr (settings : Settings) : (fuel depth : Nat) → ScopeId → Expr → Eval Value
  | 0, _, _, _ => outOfFuel
  | fuel + 1, depth, scope, e =>
    Rule.expression (evalExpr settings fuel depth) (applyFunction settings fuel depth) scope e
termination_by structural fuel => fuel

/-- The run of a statement in a scope, inside `depth` calls. -/
def evalStmt (settings : Settings) : (fuel depth : Nat) → ScopeId → Stmt → Eval Value
  | 0, _, _, _ => outOfFuel
  | fuel + 1, depth, scope, s =>
    Rule.statement settings fuel (evalExpr settings fuel depth) (evalStmt settings fuel depth)
      (evalBlock settings fuel depth) scope s
termination_by structural fuel => fuel

/-- The run of a block in a scope, inside `depth` calls. -/
def evalBlock (settings : Settings) : (fuel depth : Nat) → ScopeId → Block → Eval Value
  | 0, _, _, _ => outOfFuel
  | fuel + 1, depth, scope, body => Rule.block (evalStmt settings fuel depth) scope body
termination_by structural fuel => fuel

/-- The call of a function from inside `depth` other calls. -/
def applyFunction (settings : Settings) : (fuel depth : Nat) → Closure → List Value → Eval Value
  | 0, _, _, _ => outOfFuel
  | fuel + 1, depth, f, arguments =>
    Rule.application settings depth
      (fun scope body => Rule.inOrder (evalStmt settings fuel (depth + 1) scope) .null body)
      f arguments
termination_by structural fuel => fuel

end

/-- The run of a program in a scope, which becomes the scope of its declarations. -/
def evalProgram (settings : Settings) (fuel : Nat) (scope : ScopeId) (p : Program) : Eval Value := do
  return (← Rule.inOrder (evalStmt settings fuel 0 scope) .null p.statements).unwrap

/-- The run of any node in a scope; an absent one is `null`. -/
def evalNode (settings : Settings) (fuel : Nat) (scope : ScopeId) : Option Node → Eval Value
  | none => return .null
  | some (.program p) => evalProgram settings fuel scope p
  | some (.stmt s) => evalStmt settings fuel 0 scope s
  | some (.expr e) => evalExpr settings fuel 0 scope e
  | some n => return .error (.unsupportedNode n.kindName)

/-- The run of a program in a scope with the start and the result in the trace. -/
def runProgram (settings : Settings) (fuel : Nat) (scope : ScopeId) (p : Program) : Eval Value := do
  note settings 1 fun _ => return .started p.statements.length
  let v ← evalProgram settings fuel scope p
  note settings 1 fun _ => return .finished (← v.text)
  return v

end ScriptLang
