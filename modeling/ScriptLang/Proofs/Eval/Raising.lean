import ScriptLang.Eval.Run

/-!
  The evaluator with exceptions.

  Here a signal is no value.  An error ends the whole evaluation where it is made, and a `return` ends
  it up to the call or the program around it.  So nothing is looked at on the way out, and each
  construct simply does one thing after another.

  A parameter that repeats the name of an earlier one is a redeclaration.  With `strict` it is an error
  like any other; without, the earlier parameter keeps its argument and the evaluation goes on.
-/

namespace ScriptLang

/-- What ends the evaluation of a part of a program. -/
inductive Signal
  | error (e : RuntimeError)
  | returned (v : Value)

/-- What ends an evaluation early. -/
inductive Abort
  | halt (h : Halt)
  | signal (s : Signal)

/-- A step of an evaluation with exceptions. -/
abbrev Raising := EStateM Abort Machine

namespace Raising

open Eval (newScope newFunction lookup? print note ofExcept)

/-- A step on the machine. -/
def step {α : Type} (run : Eval α) : Raising α := fun m =>
  match run m with
  | .ok a m => .ok a m
  | .error h m => .error (.halt h) m

def outOfFuel {α : Type} : Raising α := throw (.halt .outOfFuel)

/-- Ends the evaluation with an error. -/
def fail {α : Type} (e : RuntimeError) : Raising α := throw (.signal (.error e))

/-- Raises an answer that is an error. -/
def raise : Value → Raising Value
  | .error e => fail e
  | v => return v

/-- An evaluation that a `return` in it ends with its value. -/
def upToReturn (run : Raising Value) : Raising Value := fun m =>
  match run m with
  | .error (.signal (.returned v)) m => .ok v m
  | r => r

/-! ## Names -/

def nameValue (scope : ScopeId) (name : String) : Raising Value := do
  match ← step (lookup? scope name) with
  | none => fail (.unknownName name)
  | some v => return v

def define (scope : ScopeId) (name : String) (v : Value) (constant : Bool) : Raising Value := do
  raise (← step (Eval.define scope name v constant))

def assign (scope : ScopeId) (name : String) (v : Value) : Raising Value := do
  raise (← step (Eval.assign scope name v))

def declaration (settings : Settings) (kind : DeclarationKind) (scope : ScopeId) (name : String)
    (value : Raising Value) : Raising Value := do
  let v ← value
  let _ ← define scope name v (kind = .const)
  step (note settings 2 fun _ => return .declared kind name v.typeName (← v.text))
  return .null

def functionDeclaration (settings : Settings) (scope : ScopeId) (name : String)
    (parameters : List Parameter) (returns : TypeName) (body : Block) : Raising Value := do
  let f : Closure := ⟨← step newFunction, some name, parameters, returns, body, scope⟩
  let _ ← define scope name (.function f) true
  step (note settings 2 fun _ => return .defined name f.signature)
  return .null

def update (scope : ScopeId) (op : String) (place : Rule.UpdatePlace) : Expr → Raising Value
  | .name n => do
    match ← step (lookup? scope n.text) with
    | none => fail (.unknownName n.text)
    | some old =>
      match Rule.stepped op old with
      | none => fail (.updateOperand op old.typeName)
      | some new =>
        let _ ← assign scope n.text new
        return match place with
          | .before => new
          | .after => old
  | e => fail (.updateTarget op e.kindName)

/-! ## Statements and operators -/

/-- Statements one after another; the value is that of the last one. -/
def inOrder (run : Stmt → Raising Value) (last : Value) : List Stmt → Raising Value
  | [] => return last
  | s :: ss => do inOrder run (← run s) ss

def branch (settings : Settings) (test onTrue onFalse : Raising Value) : Raising Value := do
  let v ← test
  step (note settings 3 fun _ => return .branched (← v.text) v.truthy)
  if v.truthy then onTrue else onFalse

/-- Values one after another, each used as soon as it is there. -/
def collect {α : Type} (run : Expr → Raising Value) (use : Value → Eval α) :
    List Expr → Raising (List α)
  | [] => return []
  | e :: es => do
    let a ← step (use (← run e))
    return a :: (← collect run use es)

def display (run : Expr → Raising Value) (arguments : List Expr) : Raising Value := do
  let texts ← collect run (fun v => ofExcept v.text) arguments
  step (print (" ".intercalate texts))
  return .null

def loop (test : Raising Bool) (body : Nat → Raising Value) (update : Raising Value) :
    (fuel count : Nat) → Raising Value
  | 0, _ => outOfFuel
  | fuel + 1, count => do
    if ← test then
      let _ ← body (count + 1)
      let _ ← update
      loop test body update fuel (count + 1)
    else return .null

def loopAfter (body : Nat → Raising Value) (test : Raising Bool) : (fuel count : Nat) → Raising Value
  | 0, _ => outOfFuel
  | fuel + 1, count => do
    let _ ← body (count + 1)
    if ← test then loopAfter body test fuel (count + 1) else return .null

def iteration (settings : Settings) (kind : LoopKind) (body : Raising Value) (count : Nat) :
    Raising Value := do
  step (note settings 3 fun _ => return .iterated kind count)
  body

def truth (test : Raising Value) : Raising Bool := return (← test).truthy

def binary (op : String) (left right : Raising Value) : Raising Value := do
  let a ← left
  match op with
  | "&&" => if a.truthy then return .bool (← right).truthy else return .bool false
  | "||" => if a.truthy then return .bool true else return .bool (← right).truthy
  | _ =>
    let b ← right
    raise (← step (ofExcept (binaryOp op a b)))

/-! ## Calls -/

/-- Binds a parameter.  Whether it repeats a name is only looked at with `strict`. -/
def defineParameter (strict : Bool) (scope : ScopeId) (name : String) (v : Value) : Raising Value := do
  let declared ← step (Eval.define scope name v false)
  if strict then raise declared else return v

def bindArguments (strict : Bool) (function : String) (scope : ScopeId) :
    List Parameter → List Value → Raising Unit
  | p :: ps, v :: vs => do
    let bound ← raise (← step (ofExcept (checkArgument function p.name.text p.declared.name v)))
    let _ ← defineParameter strict scope p.name.text bound
    bindArguments strict function scope ps vs
  | _, _ => return ()

def application (strict : Bool) (settings : Settings) (depth : Nat)
    (runBody : ScopeId → List Stmt → Raising Value) (f : Closure) (arguments : List Value) :
    Raising Value := do
  let name := f.displayName
  if arguments.length ≠ f.parameters.length then
    fail (.arity name f.parameters.length arguments.length)
  else
    let scope ← step (newScope (some f.scope))
    bindArguments strict name scope f.parameters arguments
    step (note settings 2 fun _ => return .called name (← Rule.texts arguments))
    if settings.callLimit ≤ depth then fail (.recursionLimit name)
    else
      let result ← upToReturn (runBody scope f.body.statements)
      step (note settings 2 fun _ => return .returned name (← result.text))
      return result

def call (callee : Raising Value) (run : Expr → Raising Value) (arguments : List Expr)
    (apply : Closure → List Value → Raising Value) : Raising Value := do
  match ← callee with
  | .function f => apply f (← collect run pure arguments)
  | v => fail (.notCallable v.tag)

/-! ## Evaluation -/

mutual

/-- The evaluation of an expression in a scope, inside `depth` calls. -/
def expr (strict : Bool) (settings : Settings) : (fuel depth : Nat) → ScopeId → Expr → Raising Value
  | 0, _, _, _ => outOfFuel
  | fuel + 1, depth, scope, e =>
    match e with
    | .int _ value => return .int value
    | .float _ value => return .float value
    | .str _ value => return .str value
    | .bool _ value => return .bool value
    | .name n => nameValue scope n.text
    | .before _ op operand =>
      if op = "++" ∨ op = "--" then update scope op .before operand
      else do raise (unaryOp op (← expr strict settings fuel depth scope operand))
    | .after _ operand op => update scope op .after operand
    | .binary _ left op right =>
      binary op (expr strict settings fuel depth scope left)
        (expr strict settings fuel depth scope right)
    | .choice _ test onTrue onFalse => do
      if (← expr strict settings fuel depth scope test).truthy then
        expr strict settings fuel depth scope onTrue
      else expr strict settings fuel depth scope onFalse
    | .assign _ target value => do
      assign scope target.text (← expr strict settings fuel depth scope value)
    | .function _ parameters returns body => do
      return .function ⟨← step newFunction, none, parameters, returns, body, scope⟩
    | .call _ callee arguments =>
      call (expr strict settings fuel depth scope callee) (expr strict settings fuel depth scope)
        arguments (apply strict settings fuel depth)
termination_by structural fuel => fuel

/-- The evaluation of a statement in a scope, inside `depth` calls. -/
def stmt (strict : Bool) (settings : Settings) : (fuel depth : Nat) → ScopeId → Stmt → Raising Value
  | 0, _, _, _ => outOfFuel
  | fuel + 1, depth, scope, s =>
    match s with
    | .var _ name _ none => declaration settings .var scope name.text (return .null)
    | .var _ name _ (some value) =>
      declaration settings .var scope name.text (expr strict settings fuel depth scope value)
    | .const _ name _ value =>
      declaration settings .const scope name.text (expr strict settings fuel depth scope value)
    | .function _ name parameters returns body =>
      functionDeclaration settings scope name.text parameters returns body
    | .ret _ none => throw (.signal (.returned .null))
    | .ret _ (some value) => do
      throw (.signal (.returned (← expr strict settings fuel depth scope value)))
    | .expr _ value => expr strict settings fuel depth scope value
    | .display _ arguments => display (expr strict settings fuel depth scope) arguments
    | .block body => block strict settings fuel depth scope body
    | .branch _ test onTrue onFalse =>
      branch settings (expr strict settings fuel depth scope test)
        (block strict settings fuel depth scope onTrue)
        (match onFalse with
          | none => return .null
          | some s => stmt strict settings fuel depth scope s)
    | .whileLoop _ test body =>
      loop (truth (expr strict settings fuel depth scope test))
        (iteration settings .whileLoop (block strict settings fuel depth scope body))
        (return .null) fuel 0
    | .doLoop _ body test =>
      loopAfter (iteration settings .doLoop (block strict settings fuel depth scope body))
        (truth (expr strict settings fuel depth scope test)) fuel 0
    | .forLoop _ init test update body => do
      let inner ← step (newScope (some scope))
      let first := match init with
        | none => return .null
        | some s => stmt strict settings fuel depth inner s
      let holds := match test with
        | none => return true
        | some e => truth (expr strict settings fuel depth inner e)
      let next := match update with
        | none => return .null
        | some e => expr strict settings fuel depth inner e
      let _ ← first
      loop holds (iteration settings .forLoop (block strict settings fuel depth inner body)) next fuel 0
termination_by structural fuel => fuel

/-- The evaluation of a block: its statements in a scope of their own. -/
def block (strict : Bool) (settings : Settings) : (fuel depth : Nat) → ScopeId → Block → Raising Value
  | 0, _, _, _ => outOfFuel
  | fuel + 1, depth, scope, body => do
    let inner ← step (newScope (some scope))
    inOrder (stmt strict settings fuel depth inner) .null body.statements
termination_by structural fuel => fuel

/-- The call of a function from inside `depth` other calls. -/
def apply (strict : Bool) (settings : Settings) :
    (fuel depth : Nat) → Closure → List Value → Raising Value
  | 0, _, _, _ => outOfFuel
  | fuel + 1, depth, f, arguments =>
    application strict settings depth
      (fun scope body => inOrder (stmt strict settings fuel (depth + 1) scope) .null body) f arguments
termination_by structural fuel => fuel

end

/-- The evaluation of any node in a scope; an absent one is `null`. -/
def node (strict : Bool) (settings : Settings) (fuel : Nat) (scope : ScopeId) :
    Option Node → Raising Value
  | none => return .null
  | some (.program p) =>
    upToReturn (inOrder (stmt strict settings fuel 0 scope) .null p.statements)
  | some (.stmt s) => stmt strict settings fuel 0 scope s
  | some (.expr e) => expr strict settings fuel 0 scope e
  | some n => fail (.unsupportedNode n.kindName)

end Raising

end ScriptLang
