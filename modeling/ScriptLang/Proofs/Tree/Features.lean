import ScriptLang.Tree

/-!
  What a tree makes use of, and how high it is.

  A program can do without floats, or without loops.  `Within` says so of a tree and of all that stands
  in it, the bodies of functions included.  The height of a tree is the number of levels that an
  evaluation goes down in it when it makes no call.

  Outside the bodies of functions a statement may declare a name in the scope that it is run in, or end
  the call around it with a `return`.
-/

namespace ScriptLang

/-- The parts of the language that a program may do without. -/
structure Features where
  /-- Float literals, and parameters that take an integer for a float. -/
  floats : Bool
  loops : Bool

namespace Features

def all : Features := ⟨true, true⟩

def withoutFloats : Features := ⟨false, true⟩

def withoutLoops : Features := ⟨true, false⟩

end Features

def Parameter.Within (a : Features) (p : Parameter) : Prop := p.declared.name = "float" → a.floats = true

mutual

def Expr.Within (a : Features) : Expr → Prop
  | .name _ | .int .. | .str .. | .bool .. => True
  | .float .. => a.floats = true
  | .before _ _ operand | .after _ operand _ => operand.Within a
  | .binary _ left _ right => left.Within a ∧ right.Within a
  | .choice _ test onTrue onFalse => test.Within a ∧ onTrue.Within a ∧ onFalse.Within a
  | .assign _ _ value => value.Within a
  | .call _ callee arguments => callee.Within a ∧ exprsWithin a arguments
  | .function _ parameters _ body => (∀ p ∈ parameters, p.Within a) ∧ body.Within a

def exprsWithin (a : Features) : List Expr → Prop
  | [] => True
  | e :: es => e.Within a ∧ exprsWithin a es

def exprWithin? (a : Features) : Option Expr → Prop
  | none => True
  | some e => e.Within a

def Block.Within (a : Features) : Block → Prop
  | .mk _ statements => stmtsWithin a statements

def Stmt.Within (a : Features) : Stmt → Prop
  | .var _ _ _ value | .ret _ value => exprWithin? a value
  | .const _ _ _ value | .expr _ value => value.Within a
  | .block body => body.Within a
  | .branch _ test onTrue onFalse => test.Within a ∧ onTrue.Within a ∧ stmtWithin? a onFalse
  | .forLoop _ init test update body =>
    a.loops = true ∧ stmtWithin? a init ∧ exprWithin? a test ∧ exprWithin? a update ∧ body.Within a
  | .whileLoop _ test body | .doLoop _ body test => a.loops = true ∧ test.Within a ∧ body.Within a
  | .function _ _ parameters _ body => (∀ p ∈ parameters, p.Within a) ∧ body.Within a
  | .display _ arguments => exprsWithin a arguments

def stmtsWithin (a : Features) : List Stmt → Prop
  | [] => True
  | s :: ss => s.Within a ∧ stmtsWithin a ss

def stmtWithin? (a : Features) : Option Stmt → Prop
  | none => True
  | some s => s.Within a

end

def Program.Within (a : Features) (p : Program) : Prop := stmtsWithin a p.statements

variable {a : Features}

theorem exprsWithin_iff {es : List Expr} : exprsWithin a es ↔ ∀ e ∈ es, e.Within a := by
  induction es with
  | nil => simp [exprsWithin]
  | cons e es ih => simp [exprsWithin, ih]

theorem stmtsWithin_iff {ss : List Stmt} : stmtsWithin a ss ↔ ∀ s ∈ ss, s.Within a := by
  induction ss with
  | nil => simp [stmtsWithin]
  | cons s ss ih => simp [stmtsWithin, ih]

theorem Block.Within.statements {b : Block} (h : b.Within a) : ∀ s ∈ b.statements, s.Within a := by
  obtain ⟨t, ss⟩ := b
  exact stmtsWithin_iff.1 h

/-! ## Declarations and returns -/

/-- The name that a statement declares in the scope that it is run in. -/
def Stmt.declared? : Stmt → Option String
  | .var _ name _ _ | .const _ name _ _ | .function _ name _ _ _ => some name.text
  | .branch _ _ _ (some s) => s.declared?
  | _ => none

mutual

def Block.ReturnFree : Block → Prop
  | .mk _ statements => stmtsReturnFree statements

/-- There is no `return` in the statement outside the functions in it. -/
def Stmt.ReturnFree : Stmt → Prop
  | .ret .. => False
  | .block body | .whileLoop _ _ body | .doLoop _ body _ => body.ReturnFree
  | .branch _ _ onTrue onFalse => onTrue.ReturnFree ∧ stmtReturnFree? onFalse
  | .forLoop _ init _ _ body => stmtReturnFree? init ∧ body.ReturnFree
  | .var .. | .const .. | .expr .. | .function .. | .display .. => True

def stmtsReturnFree : List Stmt → Prop
  | [] => True
  | s :: ss => s.ReturnFree ∧ stmtsReturnFree ss

def stmtReturnFree? : Option Stmt → Prop
  | none => True
  | some s => s.ReturnFree

end

theorem stmtsReturnFree_iff {ss : List Stmt} : stmtsReturnFree ss ↔ ∀ s ∈ ss, s.ReturnFree := by
  induction ss with
  | nil => simp [stmtsReturnFree]
  | cons s ss ih => simp [stmtsReturnFree, ih]

theorem Block.ReturnFree.statements {b : Block} (h : b.ReturnFree) : ∀ s ∈ b.statements, s.ReturnFree := by
  obtain ⟨t, ss⟩ := b
  exact stmtsReturnFree_iff.1 h

/-! ## Nothing is missing -/

theorem Parameter.within_all (ps : List Parameter) : ∀ p ∈ ps, p.Within .all := fun _ _ _ => rfl

mutual

theorem Expr.within_all : (e : Expr) → e.Within .all
  | .name _ | .int .. | .str .. | .bool .. => trivial
  | .float .. => rfl
  | .before _ _ operand => operand.within_all
  | .after _ operand _ => operand.within_all
  | .binary _ left _ right => ⟨left.within_all, right.within_all⟩
  | .choice _ test onTrue onFalse => ⟨test.within_all, onTrue.within_all, onFalse.within_all⟩
  | .assign _ _ value => value.within_all
  | .call _ callee arguments => ⟨callee.within_all, exprsWithin_all arguments⟩
  | .function _ parameters _ body => ⟨Parameter.within_all parameters, body.within_all⟩

theorem exprsWithin_all : (es : List Expr) → exprsWithin .all es
  | [] => trivial
  | e :: es => ⟨e.within_all, exprsWithin_all es⟩

theorem exprWithin?_all : (e : Option Expr) → exprWithin? .all e
  | none => trivial
  | some e => e.within_all

theorem Block.within_all : (b : Block) → b.Within .all
  | .mk _ statements => stmtsWithin_all statements

theorem Stmt.within_all : (s : Stmt) → s.Within .all
  | .var _ _ _ value => exprWithin?_all value
  | .ret _ value => exprWithin?_all value
  | .const _ _ _ value => value.within_all
  | .expr _ value => value.within_all
  | .block body => body.within_all
  | .branch _ test onTrue onFalse => ⟨test.within_all, onTrue.within_all, stmtWithin?_all onFalse⟩
  | .forLoop _ init test update body =>
    ⟨rfl, stmtWithin?_all init, exprWithin?_all test, exprWithin?_all update, body.within_all⟩
  | .whileLoop _ test body => ⟨rfl, test.within_all, body.within_all⟩
  | .doLoop _ body test => ⟨rfl, test.within_all, body.within_all⟩
  | .function _ _ parameters _ body => ⟨Parameter.within_all parameters, body.within_all⟩
  | .display _ arguments => exprsWithin_all arguments

theorem stmtsWithin_all : (ss : List Stmt) → stmtsWithin .all ss
  | [] => trivial
  | s :: ss => ⟨s.within_all, stmtsWithin_all ss⟩

theorem stmtWithin?_all : (s : Option Stmt) → stmtWithin? .all s
  | none => trivial
  | some s => s.within_all

end

theorem Program.within_all (p : Program) : p.Within .all := stmtsWithin_all p.statements

/-! ## Heights -/

mutual

def Expr.height : Expr → Nat
  | .name _ | .int .. | .float .. | .str .. | .bool .. => 1
  | .before _ _ operand | .after _ operand _ => operand.height + 1
  | .binary _ left _ right => max left.height right.height + 1
  | .choice _ test onTrue onFalse => max test.height (max onTrue.height onFalse.height) + 1
  | .assign _ _ value => value.height + 1
  | .call _ callee arguments => max callee.height (exprsHeight arguments) + 1
  | .function _ _ _ body => body.height + 1

def exprsHeight : List Expr → Nat
  | [] => 0
  | e :: es => max e.height (exprsHeight es)

def exprHeight? : Option Expr → Nat
  | none => 0
  | some e => e.height

def Block.height : Block → Nat
  | .mk _ statements => stmtsHeight statements + 1

def Stmt.height : Stmt → Nat
  | .var _ _ _ value | .ret _ value => exprHeight? value + 1
  | .const _ _ _ value | .expr _ value => value.height + 1
  | .block body => body.height + 1
  | .branch _ test onTrue onFalse => max test.height (max onTrue.height (stmtHeight? onFalse)) + 1
  | .forLoop _ init test update body =>
    max (stmtHeight? init) (max (exprHeight? test) (max (exprHeight? update) body.height)) + 1
  | .whileLoop _ test body | .doLoop _ body test => max test.height body.height + 1
  | .function _ _ _ _ body => body.height + 1
  | .display _ arguments => exprsHeight arguments + 1

def stmtsHeight : List Stmt → Nat
  | [] => 0
  | s :: ss => max s.height (stmtsHeight ss)

def stmtHeight? : Option Stmt → Nat
  | none => 0
  | some s => s.height

end

theorem Expr.height_pos (e : Expr) : 1 ≤ e.height := by
  cases e <;> exact Nat.le_add_left 1 _

theorem Stmt.height_pos (s : Stmt) : 1 ≤ s.height := by
  cases s <;> exact Nat.le_add_left 1 _

theorem Block.height_eq (b : Block) : b.height = stmtsHeight b.statements + 1 := by
  cases b
  rfl

theorem Block.height_pos (b : Block) : 1 ≤ b.height := by
  rw [b.height_eq]
  exact Nat.le_add_left 1 _

theorem height_le_exprsHeight {es : List Expr} {e : Expr} (he : e ∈ es) : e.height ≤ exprsHeight es := by
  induction es with
  | nil => cases he
  | cons e' es ih =>
    unfold exprsHeight
    rcases List.mem_cons.1 he with rfl | he
    · exact Nat.le_max_left _ _
    · exact Nat.le_trans (ih he) (Nat.le_max_right _ _)

theorem height_le_stmtsHeight {ss : List Stmt} {s : Stmt} (hs : s ∈ ss) : s.height ≤ stmtsHeight ss := by
  induction ss with
  | nil => cases hs
  | cons s' ss ih =>
    unfold stmtsHeight
    rcases List.mem_cons.1 hs with rfl | hs
    · exact Nat.le_max_left _ _
    · exact Nat.le_trans (ih hs) (Nat.le_max_right _ _)

end ScriptLang
