import ScriptLang.Tree

/-!
  Trees of the shape that sources have.

  The types of trees leave one freedom that no source uses: a `for` loop could be initialised by any
  statement, where sources have a declaration of a variable or an expression.  `Shaped` takes it away.
  With `strict` it also asks that no function gives two parameters the same name.
-/

namespace ScriptLang

/-- The statements that may initialise a `for` loop. -/
def Stmt.opensLoop : Stmt → Bool
  | .var .. | .expr .. => true
  | _ => false

/-- The names of parameters are distinct, if that is asked for. -/
def Parameter.Fit (strict : Bool) (parameters : List Parameter) : Prop :=
  strict = true → (parameters.map (·.name.text)).Nodup

mutual

def Expr.Shaped (strict : Bool) : Expr → Prop
  | .name _ | .int .. | .float .. | .str .. | .bool .. => True
  | .before _ _ operand | .after _ operand _ => operand.Shaped strict
  | .binary _ left _ right => left.Shaped strict ∧ right.Shaped strict
  | .choice _ test onTrue onFalse =>
    test.Shaped strict ∧ onTrue.Shaped strict ∧ onFalse.Shaped strict
  | .assign _ _ value => value.Shaped strict
  | .call _ callee arguments => callee.Shaped strict ∧ exprsShaped strict arguments
  | .function _ parameters _ body => Parameter.Fit strict parameters ∧ body.Shaped strict

def exprsShaped (strict : Bool) : List Expr → Prop
  | [] => True
  | e :: es => e.Shaped strict ∧ exprsShaped strict es

def exprShaped? (strict : Bool) : Option Expr → Prop
  | none => True
  | some e => e.Shaped strict

def Block.Shaped (strict : Bool) : Block → Prop
  | .mk _ statements => stmtsShaped strict statements

def Stmt.Shaped (strict : Bool) : Stmt → Prop
  | .var _ _ _ value | .ret _ value => exprShaped? strict value
  | .const _ _ _ value | .expr _ value => value.Shaped strict
  | .block body => body.Shaped strict
  | .branch _ test onTrue onFalse =>
    test.Shaped strict ∧ onTrue.Shaped strict ∧ stmtShaped? strict onFalse
  | .forLoop _ init test update body =>
    (∀ s ∈ init, s.opensLoop = true) ∧ stmtShaped? strict init ∧ exprShaped? strict test ∧
      exprShaped? strict update ∧ body.Shaped strict
  | .whileLoop _ test body | .doLoop _ body test => test.Shaped strict ∧ body.Shaped strict
  | .function _ _ parameters _ body => Parameter.Fit strict parameters ∧ body.Shaped strict
  | .display _ arguments => exprsShaped strict arguments

def stmtsShaped (strict : Bool) : List Stmt → Prop
  | [] => True
  | s :: ss => s.Shaped strict ∧ stmtsShaped strict ss

def stmtShaped? (strict : Bool) : Option Stmt → Prop
  | none => True
  | some s => s.Shaped strict

end

theorem exprsShaped_iff {strict : Bool} {es : List Expr} :
    exprsShaped strict es ↔ ∀ e ∈ es, e.Shaped strict := by
  induction es with
  | nil => simp [exprsShaped]
  | cons e es ih => simp [exprsShaped, ih]

theorem stmtsShaped_iff {strict : Bool} {ss : List Stmt} :
    stmtsShaped strict ss ↔ ∀ s ∈ ss, s.Shaped strict := by
  induction ss with
  | nil => simp [stmtsShaped]
  | cons s ss ih => simp [stmtsShaped, ih]

/-- Nodes that can be evaluated have the shape of sources. -/
def Node.Shaped (strict : Bool) : Node → Prop
  | .program p => stmtsShaped strict p.statements
  | .stmt s => s.Shaped strict
  | .expr e => e.Shaped strict
  | .typeName _ | .parameter _ => True

end ScriptLang
