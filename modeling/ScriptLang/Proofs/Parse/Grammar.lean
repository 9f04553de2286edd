import ScriptLang.Parse.Program

/-!
  The grammar of the language.

  `Spells ph ts` says that the tokens `ts` spell the phrase `ph`, where a phrase is a syntactic
  category together with the tree it stands for.  The grammar is stratified: expressions are layered
  from assignments and choices down to atoms, with one tier for each strength of operator, so that a
  list of tokens has one reading only.  It says nothing about how tokens are read, and a rule needs
  no look at the tokens around it.

      program   = (stmt | ";")*
      block     = "{" (stmt | ";")* "}"
      var       = "var" IDENT [":" type] "=" expr ";" | "var" IDENT ":" type ";"
      branch    = "if" "(" expr ")" block ["else" (branch | block)]
      stmt      = var | branch | "const" IDENT [":" type] "=" expr ";"
                | "for" "(" (var | expr ";" | ";") [expr] ";" [expr] ")" block
                | "while" "(" expr ")" block | "do" block "while" "(" expr ")" ";"
                | "fn" IDENT tail | "return" [expr] ";" | "display" "(" [expr {"," expr}] ")" ";"
                | block | expr ";"
      tail      = "(" [IDENT ":" type {"," IDENT ":" type}] ")" [":" type] block
      type      = built-in type | IDENT | "fn" "(" [type {"," type}] ")" "=>" type
      expr      = target "=" expr | tier₃ "?" expr ":" expr | tier₃
      target    = IDENT | "(" target ")"
      tierₖ     = tierₖ operatorₖ tierₖ₊₁ | tierₖ₊₁          (k from 3 to 7)
      tier₈     = ("!" | "-" | "++" | "--") tier₈ | applied
      applied   = applied ("++" | "--") | applied "(" [expr {"," expr}] ")" | atom
      atom      = IDENT | INT | FLOAT | STRING | BOOLEAN | "(" expr ")" | "fn" tail

  Two rules look at more than the shape of a statement.  A `return` is a statement only inside the
  body of a function, and a declaration whose value is a literal has to declare the type of that
  literal, if it declares one.
-/

namespace ScriptLang

open Parse (FunctionTail voidAt)

/-- A syntactic category with a tree of that category.  Statements and blocks also say whether they
    stand inside the body of a function. -/
inductive Phrase
  | typeName (t : TypeName)
  /-- A colon and a type, or nothing. -/
  | declared (d : Option TypeName)
  | parameter (p : Parameter)
  /-- Phrases with commas between them, maybe none. -/
  | commas (items : List Phrase)
  /-- What follows the `fn` token and the name of a function. -/
  | tail (fn : Token) (f : FunctionTail)
  | target (n : Name)
  | atom (e : Expr)
  /-- An atom with calls and operators behind it. -/
  | applied (e : Expr)
  | tier (k : Nat) (e : Expr)
  | expr (e : Expr)
  /-- An expression or nothing. -/
  | optional (e : Option Expr)
  /-- A `var` statement. -/
  | varDecl (s : Stmt)
  /-- The first part of a `for` loop with its semicolon. -/
  | init (s : Option Stmt)
  /-- An `if` statement. -/
  | branch (inFunction : Bool) (s : Stmt)
  | statement (inFunction : Bool) (s : Stmt)
  | statements (inFunction : Bool) (ss : List Stmt)
  | block (inFunction : Bool) (b : Block)

/-- The operators between two expressions, by tier: the tiers are numbered by the strengths from
    `Strength.logical` to `Strength.product`. -/
def operatorsAt : Nat → List TokenKind
  | 3 => [.and, .or]
  | 4 => [.eq, .notEq]
  | 5 => [.lt, .gt, .ltEq, .gtEq]
  | 6 => [.plus, .minus]
  | 7 => [.asterisk, .slash, .percent]
  | _ => []

/-- The operators in front of an expression. -/
def operatorsBefore : List TokenKind := [.bang, .minus, .increment, .decrement]

/-- The operators behind an expression. -/
def operatorsAfter : List TokenKind := [.increment, .decrement]

/-- `KeepsType declared value kept`: a declaration that declares the type `declared` for `value` is
    allowed and keeps the type `kept`. -/
inductive KeepsType : Option TypeName → Expr → Option TypeName → Prop
  /-- Without a declared type the type of the literal is kept, if the value is one. -/
  | inferred {e : Expr} : KeepsType none e e.literalType?
  /-- A declared type is kept; it has to be the type of the literal, if the value is one. -/
  | declared {d : TypeName} {e : Expr} (agrees : ∀ i ∈ e.literalType?, i.name = d.name) :
      KeepsType (some d) e (some d)

/-- The tokens spell the phrase. -/
inductive Spells : Phrase → List Token → Prop
  -- types
  | typeWord {t : Token} : t.kind.isTypeWord → Spells (.typeName ⟨t, t.literal⟩) [t]
  | functionType {fn lp rp arrow : Token} {ps : List TypeName} {r : TypeName} {us vs : List Token} :
      fn.kind = .fnWord → lp.kind = .lparen → Spells (.commas (ps.map .typeName)) us →
      rp.kind = .rparen → arrow.kind = .arrow → Spells (.typeName r) vs →
      Spells (.typeName ⟨fn, signature (ps.map (·.name)) r.name⟩) (fn :: lp :: us ++ rp :: arrow :: vs)
  | undeclared : Spells (.declared none) []
  | declared {c : Token} {d : TypeName} {us : List Token} :
      c.kind = .colon → Spells (.typeName d) us → Spells (.declared (some d)) (c :: us)
  | parameter {n c : Token} {d : TypeName} {us : List Token} :
      n.kind = .ident → c.kind = .colon → Spells (.typeName d) us →
      Spells (.parameter ⟨n, ⟨n, n.literal⟩, d⟩) (n :: c :: us)
  -- lists
  | none : Spells (.commas []) []
  | one {p : Phrase} {us : List Token} : Spells p us → Spells (.commas [p]) us
  | more {p q : Phrase} {ps : List Phrase} {c : Token} {us vs : List Token} :
      Spells p us → c.kind = .comma → Spells (.commas (q :: ps)) vs →
      Spells (.commas (p :: q :: ps)) (us ++ c :: vs)
  -- functions
  | tail {fn lp rp : Token} {ps : List Parameter} {d : Option TypeName} {b : Block}
      {us vs ws : List Token} :
      lp.kind = .lparen → Spells (.commas (ps.map .parameter)) us → rp.kind = .rparen →
      Spells (.declared d) vs → Spells (.block true b) ws →
      Spells (.tail fn ⟨ps, d.getD (voidAt fn), b⟩) (lp :: us ++ rp :: vs ++ ws)
  -- expressions
  | target {t : Token} : t.kind = .ident → Spells (.target ⟨t, t.literal⟩) [t]
  | parenTarget {lp rp : Token} {n : Name} {us : List Token} :
      lp.kind = .lparen → Spells (.target n) us → rp.kind = .rparen →
      Spells (.target n) (lp :: us ++ [rp])
  | name {t : Token} : t.kind = .ident → Spells (.atom (.name ⟨t, t.literal⟩)) [t]
  | int {t : Token} {n : Int} : t.kind = .int → Number.readInteger t.literal = .ok n →
      Spells (.atom (.int t n)) [t]
  | float {t : Token} {x : Float} : t.kind = .float → Number.readFloat t.literal = .ok x →
      Spells (.atom (.float t x)) [t]
  | str {t : Token} : t.kind = .string → Spells (.atom (.str t t.literal)) [t]
  | bool {t : Token} : t.kind = .boolean → Spells (.atom (.bool t (t.literal = "true"))) [t]
  | paren {lp rp : Token} {e : Expr} {us : List Token} :
      lp.kind = .lparen → Spells (.expr e) us → rp.kind = .rparen →
      Spells (.atom e) (lp :: us ++ [rp])
  | function {fn : Token} {f : FunctionTail} {us : List Token} :
      fn.kind = .fnWord → Spells (.tail fn f) us →
      Spells (.atom (.function fn f.parameters f.returns f.body)) (fn :: us)
  | atom {e : Expr} {us : List Token} : Spells (.atom e) us → Spells (.applied e) us
  | after {t : Token} {e : Expr} {us : List Token} :
      Spells (.applied e) us → t.kind ∈ operatorsAfter →
      Spells (.applied (.after t e t.literal)) (us ++ [t])
  | call {lp rp : Token} {e : Expr} {es : List Expr} {us vs : List Token} :
      Spells (.applied e) us → lp.kind = .lparen → Spells (.commas (es.map .expr)) vs →
      rp.kind = .rparen → Spells (.applied (.call lp e es)) (us ++ lp :: vs ++ [rp])
  | applied {e : Expr} {us : List Token} :
      Spells (.applied e) us → Spells (.tier Strength.before e) us
  | before {t : Token} {e : Expr} {us : List Token} :
      t.kind ∈ operatorsBefore → Spells (.tier Strength.before e) us →
      Spells (.tier Strength.before (.before t t.literal e)) (t :: us)
  | tighter {k : Nat} {e : Expr} {us : List Token} :
      k < Strength.before → Spells (.tier (k + 1) e) us → Spells (.tier k e) us
  | binary {k : Nat} {t : Token} {l r : Expr} {us vs : List Token} :
      Spells (.tier k l) us → t.kind ∈ operatorsAt k → Spells (.tier (k + 1) r) vs →
      Spells (.tier k (.binary t l t.literal r)) (us ++ t :: vs)
  | tier {e : Expr} {us : List Token} : Spells (.tier Strength.logical e) us → Spells (.expr e) us
  | choice {q c : Token} {e a b : Expr} {us vs ws : List Token} :
      Spells (.tier Strength.logical e) us → q.kind = .question → Spells (.expr a) vs →
      c.kind = .colon → Spells (.expr b) ws →
      Spells (.expr (.choice q e a b)) (us ++ q :: vs ++ c :: ws)
  | assign {t : Token} {n : Name} {e : Expr} {us vs : List Token} :
      Spells (.target n) us → t.kind = .assign → Spells (.expr e) vs →
      Spells (.expr (.assign t n e)) (us ++ t :: vs)
  | nothing : Spells (.optional none) []
  | something {e : Expr} {us : List Token} : Spells (.expr e) us → Spells (.optional (some e)) us
  -- statements
  | varValue {v n eq sc : Token} {d kept : Option TypeName} {e : Expr} {us vs : List Token} :
      v.kind = .varWord → n.kind = .ident → Spells (.declared d) us → eq.kind = .assign →
      Spells (.expr e) vs → KeepsType d e kept → sc.kind = .semicolon →
      Spells (.varDecl (.var v ⟨n, n.literal⟩ kept (some e))) (v :: n :: us ++ eq :: vs ++ [sc])
  | varType {v n sc : Token} {d : TypeName} {us : List Token} :
      v.kind = .varWord → n.kind = .ident → Spells (.declared (some d)) us →
      sc.kind = .semicolon →
      Spells (.varDecl (.var v ⟨n, n.literal⟩ (some d) none)) (v :: n :: us ++ [sc])
  | var {f : Bool} {s : Stmt} {us : List Token} :
      Spells (.varDecl s) us → Spells (.statement f s) us
  | const {f : Bool} {c n eq sc : Token} {d kept : Option TypeName} {e : Expr} {us vs : List Token} :
      c.kind = .constWord → n.kind = .ident → Spells (.declared d) us → eq.kind = .assign →
      Spells (.expr e) vs → KeepsType d e kept → sc.kind = .semicolon →
      Spells (.statement f (.const c ⟨n, n.literal⟩ kept e)) (c :: n :: us ++ eq :: vs ++ [sc])
  | branchOnly {f : Bool} {i lp rp : Token} {e : Expr} {b : Block} {us vs : List Token} :
      i.kind = .ifWord → lp.kind = .lparen → Spells (.expr e) us → rp.kind = .rparen →
      Spells (.block f b) vs →
      Spells (.branch f (.branch i e b none)) (i :: lp :: us ++ rp :: vs)
  | branchElse {f : Bool} {i lp rp el : Token} {e : Expr} {b c : Block} {us vs ws : List Token} :
      i.kind = .ifWord → lp.kind = .lparen → Spells (.expr e) us → rp.kind = .rparen →
      Spells (.block f b) vs → el.kind = .elseWord → Spells (.block f c) ws →
      Spells (.branch f (.branch i e b (some (.block c)))) (i :: lp :: us ++ rp :: vs ++ el :: ws)
  | branchChain {f : Bool} {i lp rp el : Token} {e : Expr} {b : Block} {s : Stmt}
      {us vs ws : List Token} :
      i.kind = .ifWord → lp.kind = .lparen → Spells (.expr e) us → rp.kind = .rparen →
      Spells (.block f b) vs → el.kind = .elseWord → Spells (.branch f s) ws →
      Spells (.branch f (.branch i e b (some s))) (i :: lp :: us ++ rp :: vs ++ el :: ws)
  | branch {f : Bool} {s : Stmt} {us : List Token} :
      Spells (.branch f s) us → Spells (.statement f s) us
  | noInit {sc : Token} : sc.kind = .semicolon → Spells (.init none) [sc]
  | varInit {s : Stmt} {us : List Token} : Spells (.varDecl s) us → Spells (.init (some s)) us
  | exprInit {t sc : Token} {e : Expr} {us : List Token} :
      Spells (.expr e) (t :: us) → sc.kind = .semicolon →
      Spells (.init (some (.expr t e))) (t :: us ++ [sc])
  | forLoop {f : Bool} {w lp sc rp : Token} {i : Option Stmt} {e u : Option Expr} {b : Block}
      {us vs ws xs : List Token} :
      w.kind = .forWord → lp.kind = .lparen → Spells (.init i) us → Spells (.optional e) vs →
      sc.kind = .semicolon → Spells (.optional u) ws → rp.kind = .rparen → Spells (.block f b) xs →
      Spells (.statement f (.forLoop w i e u b)) (w :: lp :: us ++ vs ++ sc :: ws ++ rp :: xs)
  | whileLoop {f : Bool} {w lp rp : Token} {e : Expr} {b : Block} {us vs : List Token} :
      w.kind = .whileWord → lp.kind = .lparen → Spells (.expr e) us → rp.kind = .rparen →
      Spells (.block f b) vs →
      Spells (.statement f (.whileLoop w e b)) (w :: lp :: us ++ rp :: vs)
  | doLoop {f : Bool} {d w lp rp sc : Token} {e : Expr} {b : Block} {us vs : List Token} :
      d.kind = .doWord → Spells (.block f b) us → w.kind = .whileWord → lp.kind = .lparen →
      Spells (.expr e) vs → rp.kind = .rparen → sc.kind = .semicolon →
      Spells (.statement f (.doLoop d b e)) (d :: us ++ w :: lp :: vs ++ [rp, sc])
  | functionNamed {f : Bool} {fn n : Token} {t : FunctionTail} {us : List Token} :
      fn.kind = .fnWord → n.kind = .ident → Spells (.tail fn t) us →
      Spells (.statement f (.function fn ⟨n, n.literal⟩ t.parameters t.returns t.body)) (fn :: n :: us)
  | ret {r sc : Token} {e : Option Expr} {us : List Token} :
      r.kind = .returnWord → Spells (.optional e) us → sc.kind = .semicolon →
      Spells (.statement true (.ret r e)) (r :: us ++ [sc])
  | display {f : Bool} {d lp rp sc : Token} {es : List Expr} {us : List Token} :
      d.kind = .displayWord → lp.kind = .lparen → Spells (.commas (es.map .expr)) us →
      rp.kind = .rparen → sc.kind = .semicolon →
      Spells (.statement f (.display d es)) (d :: lp :: us ++ [rp, sc])
  | nested {f : Bool} {b : Block} {us : List Token} :
      Spells (.block f b) us → Spells (.statement f (.block b)) us
  | exprOnly {f : Bool} {t sc : Token} {e : Expr} {us : List Token} :
      Spells (.expr e) (t :: us) → sc.kind = .semicolon →
      Spells (.statement f (.expr t e)) (t :: us ++ [sc])
  | noStatements {f : Bool} : Spells (.statements f []) []
  | empty {f : Bool} {sc : Token} {ss : List Stmt} {us : List Token} :
      sc.kind = .semicolon → Spells (.statements f ss) us → Spells (.statements f ss) (sc :: us)
  | cons {f : Bool} {s : Stmt} {ss : List Stmt} {us vs : List Token} :
      Spells (.statement f s) us → Spells (.statements f ss) vs →
      Spells (.statements f (s :: ss)) (us ++ vs)
  | block {f : Bool} {lb rb : Token} {ss : List Stmt} {us : List Token} :
      lb.kind = .lbrace → Spells (.statements f ss) us → rb.kind = .rbrace →
      Spells (.block f (.mk lb ss)) (lb :: us ++ [rb])

/-! ## Tiers -/

theorem strength_of_mem_operatorsAt {k : Nat} {op : TokenKind} (h : op ∈ operatorsAt k) :
    op.strength = k ∧ Strength.logical ≤ k ∧ k ≤ Strength.product := by
  unfold operatorsAt at h
  split at h
  all_goals
    simp only [List.mem_cons, List.not_mem_nil, or_false] at h
  · rcases h with rfl | rfl <;> decide
  · rcases h with rfl | rfl <;> decide
  · rcases h with rfl | rfl | rfl | rfl <;> decide
  · rcases h with rfl | rfl <;> decide
  · rcases h with rfl | rfl | rfl <;> decide

/-- An operator that extends an expression to its right and is not one of the special ones stands
    between two expressions, at the tier of its strength. -/
theorem mem_operatorsAt_strength {op : TokenKind} (h : op.strength ≠ Strength.lowest)
    (hassign : op ≠ .assign) (hquestion : op ≠ .question) (hafter : op ∉ operatorsAfter)
    (hcall : op ≠ .lparen) : op ∈ operatorsAt op.strength := by
  revert h hassign hquestion hafter hcall
  cases op <;> decide

namespace Spells

/-- What is spelled at a tier is spelled at every looser one. -/
theorem looser {j k : Nat} {e : Expr} {us : List Token} (hjk : j ≤ k) (hk : k ≤ Strength.before)
    (h : Spells (.tier k e) us) : Spells (.tier j e) us := by
  induction hjk with
  | refl => exact h
  | step _ ih => exact ih (by omega) (tighter (by omega) h)

/-- A name can only be spelled as the target of an assignment, whatever it is spelled as. -/
theorem target_of_name {ph : Phrase} {us : List Token} (h : Spells ph us) :
    ∀ n, (ph = .atom (.name n) ∨ ph = .applied (.name n) ∨ (∃ k, ph = .tier k (.name n)) ∨
      ph = .expr (.name n)) → Spells (.target n) us := by
  induction h with
  | name ht =>
    rintro n (h | h | ⟨k, h⟩ | h) <;> cases h
    exact target ht
  | paren hlp _ hrp ih =>
    rintro n (h | h | ⟨k, h⟩ | h) <;> cases h
    exact parenTarget hlp (ih n (Or.inr (Or.inr (Or.inr rfl)))) hrp
  | atom _ ih =>
    rintro n (h | h | ⟨k, h⟩ | h) <;> cases h
    exact ih n (Or.inl rfl)
  | applied _ ih =>
    rintro n (h | h | ⟨k, h⟩ | h) <;> cases h
    exact ih n (Or.inr (Or.inl rfl))
  | tighter _ _ ih =>
    rintro n (h | h | ⟨k, h⟩ | h) <;> cases h
    exact ih n (Or.inr (Or.inr (Or.inl ⟨_, rfl⟩)))
  | tier _ ih =>
    rintro n (h | h | ⟨k, h⟩ | h) <;> cases h
    exact ih n (Or.inr (Or.inr (Or.inl ⟨_, rfl⟩)))
  | _ => rintro n (h | h | ⟨k, h⟩ | h) <;> cases h

end Spells

end ScriptLang
