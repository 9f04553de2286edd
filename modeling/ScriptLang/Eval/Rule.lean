import ScriptLang.Eval.Machine
import ScriptLang.Value.Argument
import ScriptLang.Value.Operator

/-!
  What each construct does with the runs of its parts.

  A rule takes the runs of the parts of a construct and makes the run of the whole.  An error of a
  part ends the whole with that error; a `return` only ends statements, loops and, with its value, the
  call around them.
-/

namespace ScriptLang.Rule

open Eval

/-- Goes on with the value of a run, unless it is an error. -/
def unlessError (run : Eval Value) (next : Value → Eval Value) : Eval Value := do
  match ← run with
  | .error e => return .error e
  | v => next v

/-! ## Statements -/

/-- Runs statements in order up to the first signal.  The value is that of the last one run. -/
def inOrder (run : Stmt → Eval Value) (last : Value) : List Stmt → Eval Value
  | [] => return last
  | s :: ss => do
    let v ← run s
    if v.isSignal then return v else inOrder run v ss

/-- Declares a name with the value of a run. -/
def declaration (settings : Settings) (kind : DeclarationKind) (scope : ScopeId) (name : String)
    (value : Eval Value) : Eval Value :=
  unlessError value fun v =>
    unlessError (define scope name v (kind = .const)) fun _ => do
      note settings 2 fun _ => return .declared kind name v.typeName (← v.text)
      return .null

/-- Declares a function under its own name, as a constant. -/
def functionDeclaration (settings : Settings) (scope : ScopeId) (name : String)
    (parameters : List Parameter) (returns : TypeName) (body : Block) : Eval Value := do
  let f : Closure := ⟨← newFunction, some name, parameters, returns, body, scope⟩
  unlessError (define scope name (.function f) true) fun _ => do
    note settings 2 fun _ => return .defined name f.signature
    return .null

/-- Ends the call around it with the value of a run. -/
def returning (value : Eval Value) : Eval Value :=
  unlessError value fun v => return .returned v

/-- Runs one of two branches. -/
def branch (settings : Settings) (test onTrue onFalse : Eval Value) : Eval Value :=
  unlessError test fun v => do
    note settings 3 fun _ => return .branched (← v.text) v.truthy
    if v.truthy then onTrue else onFalse

/-- Runs every expression and does `use` with each value as soon as it is there; the first error ends
    this. -/
def collect {α : Type} (run : Expr → Eval Value) (use : Value → Eval α) :
    List Expr → Eval (Except RuntimeError (List α))
  | [] => return .ok []
  | e :: es => do
    match ← run e with
    | .error err => return .error err
    | v =>
      let a ← use v
      match ← collect run use es with
      | .error err => return .error err
      | .ok others => return .ok (a :: others)

/-- Writes the values of expressions on a line. -/
def display (run : Expr → Eval Value) (arguments : List Expr) : Eval Value := do
  match ← collect run (fun v => ofExcept v.text) arguments with
  | .error e => return .error e
  | .ok texts =>
    print (" ".intercalate texts)
    return .null

/-! ## Loops -/

/-- What the test of a loop says. -/
inductive Verdict
  | leave (v : Value)
  | goOn

/-- Decides a test: an error or a value that does not count as true leaves the loop. -/
def verdict (test : Eval Value) : Eval Verdict := do
  match ← test with
  | .error e => return .leave (.error e)
  | v => return if v.truthy then .goOn else .leave .null

/-- A loop with its test in front: after each run of the body, which a signal ends, comes `update`,
    of which only an error ends the loop.  The number of iterations is bounded by `fuel`. -/
def loop (test : Eval Verdict) (body : Nat → Eval Value) (update : Eval Value) :
    (fuel count : Nat) → Eval Value
  | 0, _ => outOfFuel
  | fuel + 1, count => do
    match ← test with
    | .leave v => return v
    | .goOn =>
      let v ← body (count + 1)
      if v.isSignal then return v
      else
        match ← update with
        | .error e => return .error e
        | _ => loop test body update fuel (count + 1)

/-- A loop with its test behind. -/
def loopAfter (body : Nat → Eval Value) (test : Eval Verdict) : (fuel count : Nat) → Eval Value
  | 0, _ => outOfFuel
  | fuel + 1, count => do
    let v ← body (count + 1)
    if v.isSignal then return v
    else
      match ← test with
      | .leave v => return v
      | .goOn => loopAfter body test fuel (count + 1)

/-- The run of a loop's body in a given iteration. -/
def iteration (settings : Settings) (kind : LoopKind) (body : Eval Value) (count : Nat) :
    Eval Value := do
  note settings 3 fun _ => return .iterated kind count
  body

/-! ## Expressions -/

/-- The value of a name. -/
def nameValue (scope : ScopeId) (name : String) : Eval Value := do
  match ← lookup? scope name with
  | none => return .error (.unknownName name)
  | some v => return v

/-- The number one step up for `++` and one step down for any other operator. -/
def stepped (op : String) : Value → Option Value
  | .int n => some (.int (if op = "++" then n + 1 else n - 1))
  | .float x => some (.float (if op = "++" then x + 1 else x - 1))
  | _ => none

/-- Where an update operator stands. -/
inductive UpdatePlace
  | before
  | after

/-- Changes a variable by one step.  In front of the variable the operator yields the new value,
    behind it the old one. -/
def update (scope : ScopeId) (op : String) (place : UpdatePlace) (target : Expr) : Eval Value := do
  match target with
  | .name n =>
    match ← lookup? scope n.text with
    | none => return .error (.unknownName n.text)
    | some old =>
      match stepped op old with
      | none => return .error (.updateOperand op old.typeName)
      | some new =>
        unlessError (assign scope n.text new) fun _ =>
          return match place with
            | .before => new
            | .after => old
  | e => return .error (.updateTarget op e.kindName)

/-- An operator between two expressions; `&&` and `||` run the second only if they have to. -/
def binary (op : String) (left right : Eval Value) : Eval Value :=
  unlessError left fun a =>
    match op with
    | "&&" =>
      if a.truthy then unlessError right fun b => return .bool b.truthy else return .bool false
    | "||" =>
      if a.truthy then return .bool true else unlessError right fun b => return .bool b.truthy
    | _ => unlessError right fun b => ofExcept (binaryOp op a b)

/-- A choice between two expressions. -/
def choice (test onTrue onFalse : Eval Value) : Eval Value :=
  unlessError test fun v => if v.truthy then onTrue else onFalse

/-! ## Calls -/

/-- Binds parameters to arguments in a new scope, up to the first argument that is refused.  Of two
    parameters of one name the first is bound. -/
def bindArguments (function : String) (scope : ScopeId) :
    List Parameter → List Value → Eval (Option RuntimeError)
  | p :: ps, v :: vs => do
    match ← ofExcept (checkArgument function p.name.text p.declared.name v) with
    | .error e => return some e
    | bound =>
      let _ ← define scope p.name.text bound false
      bindArguments function scope ps vs
  | _, _ => return none

/-- Shows several values. -/
def texts : List Value → Except Fault (List String)
  | [] => .ok []
  | v :: vs => do return (← v.text) :: (← texts vs)

/-- A call is on record once its arguments are bound. -/
def record (settings : Settings) (f : Closure) (arguments : List Value) (scope : ScopeId) :
    Option RuntimeError → Eval (Except RuntimeError ScopeId)
  | some e => return .error e
  | none => do
    note settings 2 fun _ => return .called f.displayName (← texts arguments)
    return .ok scope

/-- What a call does in front of the body.  It gives the scope that the body is to run in, a child of
    the one the function was made in, or the error that refuses the call. -/
def enter (settings : Settings) (f : Closure) (arguments : List Value) :
    Eval (Except RuntimeError ScopeId) := do
  if arguments.length ≠ f.parameters.length then
    return .error (.arity f.displayName f.parameters.length arguments.length)
  else
    let scope ← newScope (some f.scope)
    let refusal ← bindArguments f.displayName scope f.parameters arguments
    record settings f arguments scope refusal

/-- What a call from inside `depth` other calls does from there on. -/
def proceed (settings : Settings) (depth : Nat) (runBody : ScopeId → List Stmt → Eval Value) (f : Closure) :
    Except RuntimeError ScopeId → Eval Value
  | .error e => return .error e
  | .ok scope => do
    if settings.callLimit ≤ depth then return .error (.recursionLimit f.displayName)
    else
      let result := (← runBody scope f.body.statements).unwrap
      note settings 2 fun _ => return .returned f.displayName (← result.text)
      return result

/-- Calls a function from inside `depth` other calls. -/
def application (settings : Settings) (depth : Nat) (runBody : ScopeId → List Stmt → Eval Value)
    (f : Closure) (arguments : List Value) : Eval Value := do
  let entry ← enter settings f arguments
  proceed settings depth runBody f entry

/-- A call expression. -/
def call (callee : Eval Value) (run : Expr → Eval Value) (arguments : List Expr)
    (apply : Closure → List Value → Eval Value) : Eval Value :=
  unlessError callee fun
    | .function f => do
      match ← collect run pure arguments with
      | .error e => return .error e
      | .ok values => apply f values
    | v => return .error (.notCallable v.tag)

/-! ## Constructs

  The rule of each construct.  The runs of its parts, in any scope, are given. -/

/-- An expression, from the runs of expressions and of calls. -/
def expression (expr : ScopeId → Expr → Eval Value) (apply : Closure → List Value → Eval Value)
    (scope : ScopeId) : Expr → Eval Value
  | .int _ value => return .int value
  | .float _ value => return .float value
  | .str _ value => return .str value
  | .bool _ value => return .bool value
  | .name n => nameValue scope n.text
  | .before _ op operand =>
    if op = "++" ∨ op = "--" then update scope op .before operand
    else unlessError (expr scope operand) fun v => return unaryOp op v
  | .after _ operand op => update scope op .after operand
  | .binary _ left op right => binary op (expr scope left) (expr scope right)
  | .choice _ test onTrue onFalse =>
    choice (expr scope test) (expr scope onTrue) (expr scope onFalse)
  | .assign _ target value => unlessError (expr scope value) fun v => assign scope target.text v
  | .function _ parameters returns body => do
    return .function ⟨← newFunction, none, parameters, returns, body, scope⟩
  | .call _ callee arguments => call (expr scope callee) (expr scope) arguments apply

/-- A statement, from the runs of expressions, statements and blocks.  No loop makes more than `fuel`
    iterations. -/
def statement (settings : Settings) (fuel : Nat) (expr : ScopeId → Expr → Eval Value)
    (stmt : ScopeId → Stmt → Eval Value) (block : ScopeId → Block → Eval Value) (scope : ScopeId) :
    Stmt → Eval Value
  | .var _ name _ none => declaration settings .var scope name.text (return .null)
  | .var _ name _ (some value) => declaration settings .var scope name.text (expr scope value)
  | .const _ name _ value => declaration settings .const scope name.text (expr scope value)
  | .function _ name parameters returns body =>
    functionDeclaration settings scope name.text parameters returns body
  | .ret _ none => return .returned .null
  | .ret _ (some value) => returning (expr scope value)
  | .expr _ value => expr scope value
  | .display _ arguments => display (expr scope) arguments
  | .block body => block scope body
  | .branch _ test onTrue onFalse =>
    branch settings (expr scope test) (block scope onTrue)
      (match onFalse with
        | none => return .null
        | some s => stmt scope s)
  | .whileLoop _ test body =>
    loop (verdict (expr scope test)) (iteration settings .whileLoop (block scope body)) (return .null) fuel 0
  | .doLoop _ body test =>
    loopAfter (iteration settings .doLoop (block scope body)) (verdict (expr scope test)) fuel 0
  | .forLoop _ init test update body => do
    let inner ← newScope (some scope)
    let first := match init with
      | none => return .null
      | some s => stmt inner s
    unlessError first fun _ =>
      loop
        (match test with
          | none => return .goOn
          | some e => verdict (expr inner e))
        (iteration settings .forLoop (block inner body))
        (match update with
          | none => return .null
          | some e => expr inner e)
        fuel 0

/-- A block: its statements in a scope of their own. -/
def block (stmt : ScopeId → Stmt → Eval Value) (scope : ScopeId) (body : Block) : Eval Value := do
  let inner ← newScope (some scope)
  inOrder (stmt inner) .null body.statements

end ScriptLang.Rule
