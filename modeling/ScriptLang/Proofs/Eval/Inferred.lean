import ScriptLang.Proofs.Eval.Declarations
import ScriptLang.Proofs.Eval.Entry
import ScriptLang.Proofs.Parse.WellFormed
import ScriptLang.Proofs.Value.Conforms

/-!
  The inferred type of a literal is the type of its value.

  The reader infers the type of a literal from its tree, and a call compares the type of an argument with the
  type that the parameter declares.  The two agree: whatever literal a program declares a name with, it
  evaluates to a value that passes for the inferred type as it is.  A declaration keeps the inferred type
  under its name or another type of the same name, so the value of the name passes for that one too.
-/

namespace ScriptLang

/-! ## What stands in a tree -/

/-- The statements and expressions that stand directly in an expression. -/
def Expr.parts : Expr → List Node
  | .name _ | .int .. | .float .. | .str .. | .bool .. => []
  | .before _ _ operand | .after _ operand _ => [.expr operand]
  | .binary _ left _ right => [.expr left, .expr right]
  | .choice _ test onTrue onFalse => [.expr test, .expr onTrue, .expr onFalse]
  | .assign _ _ value => [.expr value]
  | .call _ callee arguments => .expr callee :: arguments.map .expr
  | .function _ _ _ body => body.statements.map .stmt

/-- The statements and expressions that stand directly in a statement, those in its blocks included. -/
def Stmt.parts : Stmt → List Node
  | .var _ _ _ value | .ret _ value => value.toList.map .expr
  | .const _ _ _ value | .expr _ value => [.expr value]
  | .block body => body.statements.map .stmt
  | .branch _ test onTrue onFalse => .expr test :: (onTrue.statements.map .stmt ++ onFalse.toList.map .stmt)
  | .forLoop _ init test update body =>
    init.toList.map .stmt ++ (test.toList.map .expr ++ (update.toList.map .expr ++ body.statements.map .stmt))
  | .whileLoop _ test body | .doLoop _ body test => .expr test :: body.statements.map .stmt
  | .function _ _ _ _ body => body.statements.map .stmt
  | .display _ arguments => arguments.map .expr

namespace Node

def parts : Node → List Node
  | program p => p.statements.map stmt
  | stmt s => s.parts
  | expr e => e.parts
  | typeName _ | parameter _ => []

/-- The second node stands in the first, at any depth. -/
inductive Contains : Node → Node → Prop
  | self (n : Node) : Contains n n
  | inside {n m k : Node} : m ∈ n.parts → Contains m k → Contains n k

/-- What is well formed in a node; a statement is so inside of a function or outside. -/
def WellFormed : Node → Prop
  | program p => stmtsWellFormed false p.statements
  | stmt s => ∃ inFunction, s.WellFormed inFunction
  | expr e => e.WellFormed
  | typeName _ | parameter _ => True

section Parts

variable {n : Node} {f : Bool}

theorem wellFormed_of_exprs {es : List Expr} (h : exprsWellFormed es) (hn : n ∈ es.map expr) : n.WellFormed := by
  obtain ⟨e, he, rfl⟩ := List.mem_map.1 hn
  exact exprsWellFormed_iff.1 h e he

theorem wellFormed_of_expr? {e : Option Expr} (h : exprWellFormed? e) (hn : n ∈ e.toList.map expr) :
    n.WellFormed := by
  cases e with
  | none => cases hn
  | some e => exact List.mem_singleton.1 hn ▸ h

theorem wellFormed_of_stmts {ss : List Stmt} (h : stmtsWellFormed f ss) (hn : n ∈ ss.map stmt) :
    n.WellFormed := by
  obtain ⟨s, hs, rfl⟩ := List.mem_map.1 hn
  exact ⟨f, stmtsWellFormed_iff.1 h s hs⟩

theorem wellFormed_of_stmt? {s : Option Stmt} (h : stmtWellFormed? f s) (hn : n ∈ s.toList.map stmt) :
    n.WellFormed := by
  cases s with
  | none => cases hn
  | some s => exact List.mem_singleton.1 hn ▸ ⟨f, h⟩

theorem wellFormed_of_block {b : Block} (h : b.WellFormed f) (hn : n ∈ b.statements.map stmt) : n.WellFormed := by
  obtain ⟨t, ss⟩ := b
  exact wellFormed_of_stmts h hn

end Parts

theorem wellFormed_of_expr_parts {e : Expr} {n : Node} (h : e.WellFormed) (hn : n ∈ e.parts) :
    n.WellFormed := by
  cases e with
  | name _ | int _ _ | float _ _ | str _ _ | bool _ _ => cases hn
  | before _ _ operand | after _ operand _ => exact List.mem_singleton.1 hn ▸ h
  | binary _ left _ right =>
    rcases List.mem_pair.1 hn with rfl | rfl
    · exact h.1
    · exact h.2
  | choice _ test onTrue onFalse =>
    rcases List.mem_cons.1 hn with rfl | hn
    · exact h.1
    · rcases List.mem_pair.1 hn with rfl | rfl
      · exact h.2.1
      · exact h.2.2
  | assign _ _ value => exact List.mem_singleton.1 hn ▸ h.2
  | call _ callee arguments =>
    rcases List.mem_cons.1 hn with rfl | hn
    · exact h.1
    · exact wellFormed_of_exprs h.2 hn
  | function _ _ _ body => exact wellFormed_of_block h.2 hn

theorem wellFormed_of_stmt_parts {f : Bool} {s : Stmt} {n : Node} (h : s.WellFormed f) (hn : n ∈ s.parts) :
    n.WellFormed := by
  cases s with
  | var _ _ _ value => exact wellFormed_of_expr? h.2.2.2 hn
  | const _ _ _ value => exact List.mem_singleton.1 hn ▸ h.2.2
  | ret _ value => exact wellFormed_of_expr? h.2 hn
  | expr _ value => exact List.mem_singleton.1 hn ▸ h
  | block body => exact wellFormed_of_block h hn
  | branch _ test onTrue onFalse =>
    obtain ⟨htest, htrue, -, hfalse⟩ := h
    rcases List.mem_cons.1 hn with rfl | hn
    · exact htest
    · rcases List.mem_append.1 hn with hn | hn
      · exact wellFormed_of_block htrue hn
      · exact wellFormed_of_stmt? hfalse hn
  | forLoop _ init test update body =>
    obtain ⟨-, hinit, htest, hupdate, hbody⟩ := h
    rcases List.mem_append.1 hn with hn | hn
    · exact wellFormed_of_stmt? hinit hn
    · rcases List.mem_append.1 hn with hn | hn
      · exact wellFormed_of_expr? htest hn
      · rcases List.mem_append.1 hn with hn | hn
        · exact wellFormed_of_expr? hupdate hn
        · exact wellFormed_of_block hbody hn
  | whileLoop _ test body | doLoop _ body test =>
    rcases List.mem_cons.1 hn with rfl | hn
    · exact h.1
    · exact wellFormed_of_block h.2 hn
  | function _ _ _ _ body => exact wellFormed_of_block h.2.2 hn
  | display _ arguments => exact wellFormed_of_exprs h hn

/-- What stands in a well-formed node is well formed. -/
theorem Contains.wellFormed {n k : Node} (h : n.Contains k) (hn : n.WellFormed) : k.WellFormed := by
  induction h with
  | self n => exact hn
  | @inside n m k hm _ ih =>
    refine ih ?_
    cases n with
    | program p => exact wellFormed_of_stmts hn hm
    | stmt s =>
      obtain ⟨f, hs⟩ := hn
      exact wellFormed_of_stmt_parts hs hm
    | expr e => exact wellFormed_of_expr_parts hn hm
    | typeName t | parameter p => cases hm

end Node

/-! ## Declarations -/

/-- The statement declares the name with a type and a value. -/
inductive Stmt.Declares : Stmt → DeclarationKind → Name → Option TypeName → Expr → Prop
  | var {t : Token} {name : Name} {kept : Option TypeName} {e : Expr} :
      Declares (.var t name kept (some e)) .var name kept e
  | const {t : Token} {name : Name} {kept : Option TypeName} {e : Expr} :
      Declares (.const t name kept e) .const name kept e

namespace Stmt.Declares

variable {s : Stmt} {kind : DeclarationKind} {name : Name} {kept : Option TypeName} {e : Expr}

theorem agreesWithLiteral (h : s.Declares kind name kept e) {f : Bool} (hs : s.WellFormed f) :
    AgreesWithLiteral kept e := by
  cases h with
  | var => exact hs.2.2.1 e rfl
  | const => exact hs.2.1

theorem evalStmt_eq (h : s.Declares kind name kept e) (settings : Settings) (fuel depth : Nat) (scope : ScopeId) :
    evalStmt settings (fuel + 1) depth scope s =
      Rule.declaration settings kind scope name.text (evalExpr settings fuel depth scope e) := by
  cases h with
  | var => rfl
  | const => rfl

end Stmt.Declares

theorem Machine.Untouched.binding? {m m' : Machine} (h : m.Untouched m') {scope : ScopeId}
    (hscope : scope < m.heap.scopes.size) (name : String) :
    scope < m'.heap.scopes.size ∧ m'.heap.binding? scope name = m.heap.binding? scope name := by
  have hsame := h.scopes scope hscope
  constructor
  · rw [Array.getElem?_eq_getElem hscope] at hsame
    exact (Array.getElem?_eq_some_iff.1 hsame).1
  · unfold Heap.binding?
    rw [hsame]

/-- A declaration of a new name gives it the value, whatever becomes of its line of the trace. -/
theorem get?_declaration {settings : Settings} {m m' : Machine} {x : Eval Value} {v : Value} {scope : ScopeId}
    {name : String} (hx : x m = .ok v m') (hv : v.isError = false) (hscope : scope < m'.heap.scopes.size)
    (hnew : m'.heap.binding? scope name = none) (kind : DeclarationKind) :
    (m.step (Rule.declaration settings kind scope name x)).2.heap.get? scope name = some v := by
  let defined : Machine := ⟨(m'.heap.define scope name v (kind = .const)).2, m'.output, m'.trace⟩
  have hvalue : m.step x = (.ok v, m') := by
    unfold Machine.step
    rw [hx]
  have hdefine : m'.step (Eval.define scope name v (kind = .const)) = (.ok v, defined) := by
    rcases Heap.define_cases m'.heap scope name v (kind = .const) with ⟨hsome, -⟩ | ⟨-, hresult, -⟩
    · rw [hnew] at hsome
      cases hsome
    · exact congrArg (fun w => (Except.ok w, defined)) hresult
  have hbound : defined.heap.binding? scope name = some ⟨v, kind = .const⟩ :=
    Heap.binding?_define_self hscope hnew
  unfold Rule.declaration
  rcases step_unlessError m x _ with ⟨-, herror⟩ | ⟨w, hw, -, hstep⟩
  · rw [herror v (by rw [hvalue])] at hv
    cases hv
  · rw [hvalue] at hw hstep
    cases hw
    rw [hstep]
    rcases step_unlessError m' (Eval.define scope name v (kind = .const)) _ with ⟨-, herror⟩ | ⟨w, -, -, hstep'⟩
    · rw [herror v (by rw [hdefine])] at hv
      cases hv
    · rw [hstep', hdefine]
      obtain ⟨r, m'', hnote, hheap, -⟩ := step_note defined 2 _
      rw [hnote, hheap]
      exact Heap.get?_of_binding? hbound

/-! ## Literals -/

/-- Every argument check for the type takes the value as it is. -/
def Value.PassesAs (v : Value) (declared : String) : Prop :=
  ∀ function parameter, checkArgument function parameter declared v = .ok v

theorem Value.passesAs_of_typeAgainst {v : Value} {declared : String} (h : v.typeAgainst declared = declared)
    (hconverts : ¬ v.Converts declared) : v.PassesAs declared :=
  fun function parameter =>
    (checkArgument_of_not_converts hconverts function parameter).1 (Or.inr (Or.inr h))

theorem startsWith_declaredSignature (ps : List Parameter) (r : TypeName) :
    (declaredSignature ps r).startsWith "fn(" = true := by
  rw [String.startsWith_string_iff]
  unfold declaredSignature signature
  simp only [String.toList_append, List.append_assoc]
  exact List.prefix_append _ _

/-- A value passes for the type of its name: it is never an integer for `float`. -/
theorem Value.passesAs_typeName (v : Value) : v.PassesAs v.typeName := by
  refine passesAs_of_typeAgainst (typeAgainst_typeName v) ?_
  rintro ⟨hname, n, rfl⟩
  exact absurd hname (by decide : "int" ≠ "float")

theorem Closure.passesAs_signature (f : Closure) : (Value.function f).PassesAs f.signature := by
  refine Value.passesAs_of_typeAgainst (if_pos (startsWith_declaredSignature f.parameters f.returns)) ?_
  rintro ⟨-, n, hn⟩
  cases hn

/-- A literal evaluates to a value of its type, and the machine is as before but for the number that a function
    takes. -/
theorem eval_literal {e : Expr} {i : TypeName} (h : e.literalType? = some i) (settings : Settings)
    (fuel depth : Nat) (scope : ScopeId) (m : Machine) :
    ∃ v m', evalExpr settings (fuel + 2) depth scope e m = .ok v m' ∧ v.isSignal = false ∧ m.Untouched m' ∧
      v.PassesAs i.name := by
  unfold Expr.literalType? at h
  split at h
  · cases h
    exact ⟨.int _, m, rfl, rfl, .refl m, Value.passesAs_typeName _⟩
  · cases h
    exact ⟨.float _, m, rfl, rfl, .refl m, Value.passesAs_typeName _⟩
  · cases h
    exact ⟨.str _, m, rfl, rfl, .refl m, Value.passesAs_typeName _⟩
  · cases h
    exact ⟨.bool _, m, rfl, rfl, .refl m, Value.passesAs_typeName _⟩
  · cases h
    exact ⟨_, _, rfl, rfl, ⟨rfl, rfl, fun _ _ => rfl⟩, Closure.passesAs_signature _⟩
  · obtain ⟨rfl, hi⟩ := Option.ite_none_right_eq_some.1 h
    cases hi
    exact ⟨.int _, m, rfl, rfl, .refl m, Value.passesAs_typeName _⟩
  · obtain ⟨rfl, hi⟩ := Option.ite_none_right_eq_some.1 h
    cases hi
    exact ⟨.float _, m, rfl, rfl, .refl m, Value.passesAs_typeName _⟩
  · cases h

/-- If a declaration anywhere in a program that was read has a literal as its value, then the value evaluates in
    every scope and machine, without printing and with all scopes as they were, to one that passes for the
    inferred type as it is.  The declaration has a type of that name, and once it is made the name has such a
    value. -/
theorem literals_pass_as_inferred {t : Token} {ts : List Token} {parsed : Parsed}
    (hends : (ts.getLastD t).kind = .eof) (hparse : parseTokens (t :: ts) = .ok parsed) {s : Stmt}
    {kind : DeclarationKind} {name : Name} {kept : Option TypeName} {e : Expr} {i : TypeName}
    (hs : (Node.program parsed.program).Contains (.stmt s)) (hdeclares : s.Declares kind name kept e)
    (hi : e.literalType? = some i) (settings : Settings) (fuel depth : Nat) (scope : ScopeId) (m : Machine) :
    ∃ v m', evalExpr settings (fuel + 2) depth scope e m = .ok v m' ∧ v.isSignal = false ∧ m.Untouched m' ∧
      (∀ f p, checkArgument f p i.name v = .ok v) ∧
      ∃ d, kept = some d ∧ (∀ f p, checkArgument f p d.name v = .ok v) ∧
        (scope < m.heap.scopes.size → m.heap.binding? scope name.text = none →
          (m.step (evalStmt settings (fuel + 3) depth scope s)).2.heap.get? scope name.text = some v) := by
  have hprogram : stmtsWellFormed false parsed.program.statements := by
    rcases parseTokens_reads hends with ⟨u, -, f, -, herror⟩ | ⟨parsed', ws, hparse', hspell, -⟩
    · rw [herror] at hparse
      cases hparse
    · rw [hparse'] at hparse
      cases hparse
      exact hspell.wellFormedAll
  obtain ⟨f, hwellFormed⟩ : Node.WellFormed (.stmt s) := hs.wellFormed hprogram
  obtain ⟨d, hkept, hname⟩ := hdeclares.agreesWithLiteral hwellFormed i hi
  obtain ⟨v, m', heval, hsignal, huntouched, hpasses⟩ := eval_literal hi settings fuel depth scope m
  refine ⟨v, m', heval, hsignal, huntouched, hpasses, d, hkept, hname ▸ hpasses, fun hscope hnew => ?_⟩
  obtain ⟨hscope', hbinding⟩ := huntouched.binding? hscope name.text
  have herror : v.isError = false := by
    rw [Bool.eq_false_iff]
    intro herror
    rw [Value.isSignal_of_isError herror] at hsignal
    cases hsignal
  rw [hdeclares.evalStmt_eq]
  exact get?_declaration heval herror hscope' (hbinding.trans hnew) kind

/-- In `{ var f = fn(g: fn(int) => a, y: int) {}; }` the function in the block passes for the type
    `fn(fn(int) => a, int) => void`, and its name has it as value. -/
theorem literals_pass_as_inferred_function :
    let t : Token := ⟨.lbrace, "\x7b", 1, 1⟩
    let ts : List Token := [⟨.varWord, "var", 1, 3⟩, ⟨.ident, "f", 1, 7⟩, ⟨.assign, "=", 1, 9⟩,
      ⟨.fnWord, "fn", 1, 11⟩, ⟨.lparen, "(", 1, 13⟩, ⟨.ident, "g", 1, 14⟩, ⟨.colon, ":", 1, 15⟩,
      ⟨.fnWord, "fn", 1, 17⟩, ⟨.lparen, "(", 1, 19⟩, ⟨.intWord, "int", 1, 20⟩, ⟨.rparen, ")", 1, 23⟩,
      ⟨.arrow, "=>", 1, 25⟩, ⟨.ident, "a", 1, 28⟩, ⟨.comma, ",", 1, 29⟩, ⟨.ident, "y", 1, 31⟩,
      ⟨.colon, ":", 1, 32⟩, ⟨.intWord, "int", 1, 34⟩, ⟨.rparen, ")", 1, 37⟩, ⟨.lbrace, "\x7b", 1, 39⟩,
      ⟨.rbrace, "\x7d", 1, 40⟩, ⟨.semicolon, ";", 1, 41⟩, ⟨.rbrace, "\x7d", 1, 43⟩, ⟨.eof, "", 1, 44⟩]
    (ts.getLastD t).kind = .eof ∧ ∃ parsed s name kept e i, parseTokens (t :: ts) = .ok parsed ∧
      (Node.program parsed.program).Contains (.stmt s) ∧ s.Declares .var name kept e ∧
      e.literalType? = some i ∧ i.name = signature [signature ["int"] "a", "int"] "void" ∧
      ∃ v, (∀ f p, checkArgument f p i.name v = .ok v) ∧
        (Machine.fresh.step (evalStmt {} 3 0 0 s)).2.heap.get? 0 name.text = some v := by
  intro t ts
  obtain ⟨parsed, v, f, name, kept, e, i, hparse, hstatements, hi, hname⟩ :
      ∃ parsed v f name kept e i, parseTokens (t :: ts) = .ok parsed ∧
        parsed.program.statements = [.block (.mk t [.var v ⟨f, name⟩ kept (some e)])] ∧
        e.literalType? = some i ∧ i.name = signature [signature ["int"] "a", "int"] "void" :=
    ⟨_, _, _, _, _, _, _, rfl, rfl, rfl, rfl⟩
  have hs : (Node.program parsed.program).Contains (.stmt (.var v ⟨f, name⟩ kept (some e))) := by
    refine .inside (m := .stmt (.block (.mk t [.var v ⟨f, name⟩ kept (some e)]))) ?_ (.inside ?_ (.self _))
    · show _ ∈ parsed.program.statements.map Node.stmt
      rw [hstatements]
      exact List.mem_singleton_self _
    · exact List.mem_singleton_self _
  obtain ⟨w, m', -, -, -, hpasses, d, -, -, hget⟩ :=
    literals_pass_as_inferred rfl hparse hs .var hi {} 0 0 0 Machine.fresh
  exact ⟨rfl, parsed, _, _, _, _, i, hparse, hs, .var, hi, hname, w, hpasses, hget (by decide) rfl⟩

end ScriptLang
