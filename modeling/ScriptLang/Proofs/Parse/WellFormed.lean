import ScriptLang.Proofs.Parse.Exact
import ScriptLang.Proofs.Tree.Shaped

/-!
  What is read is well formed, also where statements had to be dropped.

  Trees can be built that no source has: a `return` outside every function, a variable without type and
  value, a literal under a type that is not its own.  `WellFormed` excludes them, at every depth, and
  says of names, parameters and types that they were spelled.  A statement that had to be dropped leaves
  nothing behind, so what is kept is spelled by what is left of the tokens, and a phrase of the grammar
  is well formed.
-/

namespace ScriptLang

open Parse (voidAt FunctionTail)

/-- The name is the text of an identifier token. -/
def Name.Spelled (n : Name) : Prop := n.token.kind = .ident ∧ n.text = n.token.literal

/-- Some tokens spell the type. -/
def TypeName.Spelled (t : TypeName) : Prop := ∃ us, Spells (.typeName t) us

/-- The parameter is an identifier with a type. -/
def Parameter.WellFormed (p : Parameter) : Prop :=
  p.token = p.name.token ∧ p.name.Spelled ∧ p.declared.Spelled

/-- Every parameter of a function has its type, and the function has a result: one that was spelled, or
    `void` at its `fn` token. -/
def HeadWellFormed (fn : Token) (parameters : List Parameter) (returns : TypeName) : Prop :=
  fn.kind = .fnWord ∧ (∀ p ∈ parameters, p.WellFormed) ∧ (returns.Spelled ∨ returns = voidAt fn)

/-- If the value of a declaration is a literal, the declaration keeps a type of the literal's name. -/
def AgreesWithLiteral (kept : Option TypeName) (value : Expr) : Prop :=
  ∀ i ∈ value.literalType?, ∃ d, kept = some d ∧ d.name = i.name

/-- The statements that may follow an `else`. -/
def Stmt.followsElse : Stmt → Bool
  | .block .. | .branch .. => true
  | _ => false

mutual

def Expr.WellFormed : Expr → Prop
  | .name n => n.Spelled
  | .int .. | .float .. | .str .. | .bool .. => True
  | .before _ _ operand | .after _ operand _ => operand.WellFormed
  | .binary _ left _ right => left.WellFormed ∧ right.WellFormed
  | .choice _ test onTrue onFalse => test.WellFormed ∧ onTrue.WellFormed ∧ onFalse.WellFormed
  | .assign _ target value => target.Spelled ∧ value.WellFormed
  | .call _ callee arguments => callee.WellFormed ∧ exprsWellFormed arguments
  | .function fn parameters returns body =>
    HeadWellFormed fn parameters returns ∧ body.WellFormed true

def exprsWellFormed : List Expr → Prop
  | [] => True
  | e :: es => e.WellFormed ∧ exprsWellFormed es

def exprWellFormed? : Option Expr → Prop
  | none => True
  | some e => e.WellFormed

def Block.WellFormed (inFunction : Bool) : Block → Prop
  | .mk _ statements => stmtsWellFormed inFunction statements

def Stmt.WellFormed (inFunction : Bool) : Stmt → Prop
  | .var _ name declared value =>
    name.Spelled ∧ (value = none → ∃ d, declared = some d ∧ d.Spelled) ∧
      (∀ e, value = some e → AgreesWithLiteral declared e) ∧ exprWellFormed? value
  | .const _ name declared value =>
    name.Spelled ∧ AgreesWithLiteral declared value ∧ value.WellFormed
  | .ret _ value => inFunction = true ∧ exprWellFormed? value
  | .expr _ value => value.WellFormed
  | .block body => body.WellFormed inFunction
  | .branch _ test onTrue onFalse =>
    test.WellFormed ∧ onTrue.WellFormed inFunction ∧ (∀ s, onFalse = some s → s.followsElse = true) ∧
      stmtWellFormed? inFunction onFalse
  | .forLoop _ init test update body =>
    (∀ s, init = some s → s.opensLoop = true) ∧ stmtWellFormed? inFunction init ∧
      exprWellFormed? test ∧ exprWellFormed? update ∧ body.WellFormed inFunction
  | .whileLoop _ test body | .doLoop _ body test => test.WellFormed ∧ body.WellFormed inFunction
  | .function fn name parameters returns body =>
    name.Spelled ∧ HeadWellFormed fn parameters returns ∧ body.WellFormed true
  | .display _ arguments => exprsWellFormed arguments

def stmtsWellFormed (inFunction : Bool) : List Stmt → Prop
  | [] => True
  | s :: ss => s.WellFormed inFunction ∧ stmtsWellFormed inFunction ss

def stmtWellFormed? (inFunction : Bool) : Option Stmt → Prop
  | none => True
  | some s => s.WellFormed inFunction

end

theorem exprsWellFormed_iff {es : List Expr} : exprsWellFormed es ↔ ∀ e ∈ es, e.WellFormed := by
  induction es with
  | nil => simp [exprsWellFormed]
  | cons e es ih => simp [exprsWellFormed, ih]

theorem stmtsWellFormed_iff {inFunction : Bool} {ss : List Stmt} :
    stmtsWellFormed inFunction ss ↔ ∀ s ∈ ss, s.WellFormed inFunction := by
  induction ss with
  | nil => simp [stmtsWellFormed]
  | cons s ss ih => simp [stmtsWellFormed, ih]

theorem KeepsType.agreesWithLiteral {d kept : Option TypeName} {e : Expr} (h : KeepsType d e kept) :
    AgreesWithLiteral kept e := by
  intro i hi
  cases h with
  | inferred => exact ⟨i, hi, rfl⟩
  | declared hagrees => exact ⟨_, rfl, (hagrees i hi).symm⟩

/-- What is well formed in a phrase; a list of phrases is looked at elsewhere. -/
def Phrase.WellFormed : Phrase → Prop
  | .typeName t => t.Spelled
  | .declared d => ∀ t, d = some t → t.Spelled
  | .parameter p => p.WellFormed
  | .commas _ => True
  | .tail fn f => fn.kind = .fnWord → HeadWellFormed fn f.parameters f.returns ∧ f.body.WellFormed true
  | .target n => n.Spelled
  | .atom e | .applied e | .tier _ e | .expr e => e.WellFormed
  | .optional e => exprWellFormed? e
  | .varDecl s => s.opensLoop = true ∧ ∀ inFunction, s.WellFormed inFunction
  | .init i =>
    (∀ s, i = some s → s.opensLoop = true) ∧ ∀ inFunction, stmtWellFormed? inFunction i
  | .branch inFunction s => s.followsElse = true ∧ s.WellFormed inFunction
  | .statement inFunction s => s.WellFormed inFunction
  | .statements inFunction ss => stmtsWellFormed inFunction ss
  | .block inFunction b => b.WellFormed inFunction

/-- The same for a phrase and the phrases it lists. -/
def Phrase.WellFormedAll : Phrase → Prop
  | .commas items => ∀ p ∈ items, p.WellFormed
  | ph => ph.WellFormed

theorem Phrase.WellFormedAll.wellFormed {ph : Phrase} (h : ph.WellFormedAll) : ph.WellFormed := by
  cases ph with
  | commas items => trivial
  | _ => exact h

theorem exists_spelled_of_declared {d : TypeName} {us : List Token} (h : Spells (.declared (some d)) us) :
    d.Spelled := by
  cases h with
  | declared _ hd => exact ⟨_, hd⟩

/-- A branch that follows `if ( test )`, with or without an alternative. -/
theorem branch_wellFormed {f : Bool} {i : Token} {e : Expr} {b : Block} {s : Option Stmt}
    (he : e.WellFormed) (hb : b.WellFormed f) (hs : ∀ s', s = some s' → s'.followsElse = true ∧ s'.WellFormed f) :
    (Phrase.branch f (.branch i e b s)).WellFormed := by
  refine ⟨rfl, he, hb, fun s' h => (hs s' h).1, ?_⟩
  cases s with
  | none => trivial
  | some s' => exact (hs s' rfl).2

theorem Spells.wellFormedAll {ph : Phrase} {us : List Token} (h : Spells ph us) : ph.WellFormedAll := by
  induction h with
  | typeWord ht => exact ⟨_, Spells.typeWord ht⟩
  | functionType hfn hlp hps hrp harrow hr _ _ =>
    exact ⟨_, Spells.functionType hfn hlp hps hrp harrow hr⟩
  | undeclared =>
    intro t ht
    cases ht
  | declared _ hd _ =>
    intro t ht
    cases ht
    exact ⟨_, hd⟩
  | parameter hn _ hd _ => exact ⟨rfl, ⟨hn, rfl⟩, _, hd⟩
  | none => exact fun p hp => absurd hp List.not_mem_nil
  | one _ ih =>
    intro p hp
    rw [List.mem_singleton.1 hp]
    exact ih.wellFormed
  | more _ _ _ ih ih' => exact List.forall_mem_cons.2 ⟨ih.wellFormed, ih'⟩
  | @tail fn _ _ ps d _ _ _ _ _ _ _ _ _ ihps ihd ihb =>
    intro hfn
    refine ⟨⟨hfn, fun p hp => ihps _ (List.mem_map_of_mem hp), ?_⟩, ihb⟩
    cases d with
    | none => exact Or.inr rfl
    | some d => exact Or.inl (ihd d rfl)
  | target ht => exact ⟨ht, rfl⟩
  | parenTarget _ _ _ ih => exact ih
  | name ht => exact ⟨ht, rfl⟩
  | int _ _ | float _ _ | str _ | bool _ => exact trivial
  | paren _ _ _ ih | atom _ ih | applied _ ih | tighter _ _ ih | tier _ ih => exact ih
  | function hfn _ ih => exact ih hfn
  | after _ _ ih | before _ _ ih => exact ih
  | call _ _ _ _ ih ihes =>
    exact ⟨ih, exprsWellFormed_iff.2 fun e he => ihes _ (List.mem_map_of_mem he)⟩
  | binary _ _ _ ihl ihr => exact ⟨ihl, ihr⟩
  | choice _ _ _ _ _ ihe iha ihb => exact ⟨ihe, iha, ihb⟩
  | assign _ _ _ ihn ihe => exact ⟨ihn, ihe⟩
  | nothing => trivial
  | something _ ih => exact ih
  | @varValue _ _ _ _ _ kept e _ _ _ hn _ _ _ hkeeps _ _ ihe =>
    refine ⟨rfl, fun _ => ⟨⟨hn, rfl⟩, ?_, ?_, ihe⟩⟩
    · intro hnone
      cases hnone
    · intro e' he'
      cases he'
      exact hkeeps.agreesWithLiteral
  | @varType _ _ _ d _ _ hn hd _ _ =>
    refine ⟨rfl, fun _ => ⟨⟨hn, rfl⟩, fun _ => ⟨d, rfl, exists_spelled_of_declared hd⟩, ?_, trivial⟩⟩
    intro e he
    cases he
  | var _ ih => exact ih.2 _
  | const _ hn _ _ _ hkeeps _ _ ihe => exact ⟨⟨hn, rfl⟩, hkeeps.agreesWithLiteral, ihe⟩
  | branchOnly _ _ _ _ _ ihe ihb =>
    refine branch_wellFormed ihe ihb fun s hs => ?_
    cases hs
  | branchElse _ _ _ _ _ _ _ ihe ihb ihc =>
    refine branch_wellFormed ihe ihb fun s hs => ?_
    cases hs
    exact ⟨rfl, ihc⟩
  | branchChain _ _ _ _ _ _ _ ihe ihb ihs =>
    refine branch_wellFormed ihe ihb fun s hs => ?_
    cases hs
    exact ihs
  | branch _ ih => exact ih.2
  | noInit _ =>
    refine ⟨fun s hs => ?_, fun _ => trivial⟩
    cases hs
  | varInit _ ih =>
    refine ⟨fun s hs => ?_, ih.2⟩
    cases hs
    exact ih.1
  | exprInit _ _ ih =>
    refine ⟨fun s hs => ?_, fun _ => ih⟩
    cases hs
    rfl
  | forLoop _ _ _ _ _ _ _ _ ihi ihe ihu ihb => exact ⟨ihi.1, ihi.2 _, ihe, ihu, ihb⟩
  | whileLoop _ _ _ _ _ ihe ihb => exact ⟨ihe, ihb⟩
  | doLoop _ _ _ _ _ _ _ ihb ihe => exact ⟨ihe, ihb⟩
  | functionNamed hfn hn _ ih => exact ⟨⟨hn, rfl⟩, ih hfn⟩
  | ret _ _ _ ih => exact ⟨rfl, ih⟩
  | display _ _ _ _ _ ih => exact exprsWellFormed_iff.2 fun e he => ih _ (List.mem_map_of_mem he)
  | nested _ ih => exact ih
  | exprOnly _ _ ih => exact ih
  | noStatements => trivial
  | empty _ _ ih => exact ih
  | cons _ _ ihs ihss => exact ⟨ihs, ihss⟩
  | block _ _ _ ih => exact ih

/-- Whatever tokens are read, and whatever had to be dropped of them, the program that is returned is well
    formed, with `return` statements only in the bodies of functions. -/
theorem parseTokens_wellFormed {t : Token} {ts : List Token} {parsed : Parsed}
    (hends : (ts.getLastD t).kind = .eof) (h : parseTokens (t :: ts) = .ok parsed) :
    stmtsWellFormed false parsed.program.statements := by
  rcases parseTokens_reads hends with ⟨u, -, f, -, herror⟩ | ⟨parsed', ws, hparse, hspell, -⟩
  · rw [herror] at h
    contradiction
  · rw [hparse] at h
    cases h
    exact hspell.wellFormedAll

/-- In `return; { fn g(a: int) { return -1; var; } var x = 5; }` two statements are dropped, one of them
    inside a function, and what is left is well formed. -/
theorem parseTokens_wellFormed_recovered :
    let t : Token := ⟨.returnWord, "return", 1, 1⟩
    let ts : List Token := [⟨.semicolon, ";", 1, 7⟩, ⟨.lbrace, "\x7b", 1, 9⟩, ⟨.fnWord, "fn", 1, 11⟩,
      ⟨.ident, "g", 1, 14⟩, ⟨.lparen, "(", 1, 15⟩, ⟨.ident, "a", 1, 16⟩, ⟨.colon, ":", 1, 17⟩,
      ⟨.intWord, "int", 1, 19⟩, ⟨.rparen, ")", 1, 22⟩, ⟨.lbrace, "\x7b", 1, 24⟩,
      ⟨.returnWord, "return", 1, 26⟩, ⟨.minus, "-", 1, 33⟩, ⟨.int, "1", 1, 34⟩, ⟨.semicolon, ";", 1, 35⟩,
      ⟨.varWord, "var", 1, 37⟩, ⟨.semicolon, ";", 1, 40⟩, ⟨.rbrace, "\x7d", 1, 42⟩,
      ⟨.varWord, "var", 1, 44⟩, ⟨.ident, "x", 1, 48⟩, ⟨.assign, "=", 1, 50⟩, ⟨.int, "5", 1, 52⟩,
      ⟨.semicolon, ";", 1, 53⟩, ⟨.rbrace, "\x7d", 1, 55⟩, ⟨.eof, "", 1, 56⟩]
    (ts.getLastD t).kind = .eof ∧ ∃ parsed, parseTokens (t :: ts) = .ok parsed ∧
      parsed.diagnostics.length = 2 ∧ parsed.program.statements.length = 1 ∧
      stmtsWellFormed false parsed.program.statements := by
  intro t ts
  have hshort : (parseTokens (t :: ts)).toOption.map
      (fun parsed => (parsed.diagnostics.length, parsed.program.statements.length)) = some (2, 1) := by
    decide +kernel
  cases h : parseTokens (t :: ts) with
  | error e =>
    rw [h] at hshort
    cases hshort
  | ok parsed =>
    rw [h] at hshort
    obtain ⟨hdiagnostics, hstatements⟩ := Prod.mk.inj (Option.some.inj hshort)
    exact ⟨rfl, parsed, rfl, hdiagnostics, hstatements, parseTokens_wellFormed rfl h⟩

end ScriptLang
