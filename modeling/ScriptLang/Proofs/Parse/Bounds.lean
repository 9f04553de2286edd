import ScriptLang.Proofs.Parse.Path

/-!
  What the bound on nested routines can change.

  `Approximates p q` compares a routine with the same routine under a larger bound: `q` ends as `p` does,
  unless `p` was cut off.  The same relation records what holds under every bound: wherever `p` stops,
  cut off or not, the cursor has only moved forward, and it is inside a function if it was before.

  There is one rule for each way of putting routines together, one lemma for each routine that needs
  only the routines inside it, and one induction over the bound at the end.

  Specification: `routines_approximate` and `program_approximates`.  Crux: `Approximates.bind`.  If the first
  routine is cut off, so is the sequence, and nothing need be known of the rest; else the second starts from
  the same state under both bounds.
-/

namespace ScriptLang.Parse

/-- The state in which a routine stops. -/
def stateOf {α : Type} : EStateM.Result Stop State α → State
  | .ok _ s => s
  | .error _ s => s

/-- Wherever `p` is started it leaves the cursor on a path, and `q` ends in the same way unless `p` is
    cut off by its bound. -/
structure Approximates {α : Type} (p q : Parse α) : Prop where
  moves : ∀ s, ∃ us, Path s us (stateOf (p s))
  agrees : ∀ s, q s = p s ∨ ∃ s', p s = .error (.halt .outOfFuel) s'

namespace Approximates

variable {α β : Type} {p q : Parse α}

/-- A routine without a bound. -/
theorem self (h : ∀ s, ∃ us, Path s us (stateOf (p s))) : Approximates p p :=
  ⟨h, fun _ => Or.inl rfl⟩

/-- A routine that is cut off at once approximates every other. -/
theorem outOfFuel : Approximates (outOfFuel : Parse α) q :=
  ⟨fun s => ⟨[], Path.refl s⟩, fun s => Or.inr ⟨s, rfl⟩⟩

theorem pure {a : α} : Approximates (pure a) (pure a) := self fun s => ⟨[], Path.refl s⟩

theorem get : Approximates (get : Parse State) get := self fun s => ⟨[], Path.refl s⟩

theorem current : Approximates current current := self fun s => ⟨[], Path.refl s⟩

theorem peek : Approximates peek peek := self fun s => ⟨[], Path.refl s⟩

theorem peekIs {k : TokenKind} : Approximates (peekIs k) (peekIs k) := self fun s => ⟨[], Path.refl s⟩

/-- A rejection adds a diagnostic and leaves the cursor where it is. -/
theorem reject {d : Diagnostic} : Approximates (reject d : Parse α) (reject d) :=
  self fun _ => ⟨[], Tracks.report⟩

/-- The cursor moves on by one token, or stays at the end of the source. -/
theorem advance : Approximates advance advance := by
  refine self fun s => ?_
  obtain ⟨c, rest, ds, f⟩ := s
  cases rest with
  | nil => exact ⟨[], Path.refl _⟩
  | cons t ts => exact ⟨[t], Path.step rfl⟩

theorem readNumber {r : Except Fault α} : Approximates (readNumber r) (readNumber r) := by
  refine self fun s => ?_
  cases r with
  | ok a => exact ⟨[], Path.refl s⟩
  | error f => exact ⟨[], Path.refl s⟩

/-- One routine after the other. -/
theorem bind {f g : α → Parse β} (hp : Approximates p q) (hf : ∀ a, Approximates (f a) (g a)) :
    Approximates (p >>= f) (q >>= g) := by
  constructor
  · intro s
    obtain ⟨us, hus⟩ := hp.moves s
    show ∃ us, Path s us (stateOf (EStateM.bind p f s))
    unfold EStateM.bind
    cases hr : p s with
    | error e s₁ =>
      rw [hr] at hus
      exact ⟨us, hus⟩
    | ok a s₁ =>
      rw [hr] at hus
      obtain ⟨vs, hvs⟩ := (hf a).moves s₁
      exact ⟨us ++ vs, hus.trans hvs⟩
  · intro s
    show EStateM.bind q g s = EStateM.bind p f s ∨ ∃ s', EStateM.bind p f s = _
    unfold EStateM.bind
    -- either both get to the second routine from one state, or the first was cut off under the lesser bound
    rcases hp.agrees s with heq | ⟨s', hcut⟩
    · rw [heq]
      cases hr : p s with
      | error e s₁ => exact Or.inl rfl
      | ok a s₁ => exact (hf a).agrees s₁
    · exact Or.inr ⟨s', by rw [hcut]⟩

/-- Both routines take the same branch. -/
theorem ite {c : Prop} [Decidable c] {p' q' : Parse α} (h : Approximates p q)
    (h' : Approximates p' q') : Approximates (if c then p else p') (if c then q else q') := by
  by_cases hc : c
  · rwa [if_pos hc, if_pos hc]
  · rwa [if_neg hc, if_neg hc]

/-- A decision by the kind of the next token. -/
theorem ifPeekIs {k : TokenKind} {p' q' : Parse α} (h : Approximates p q) (h' : Approximates p' q') :
    Approximates (Parse.peekIs k >>= fun b => if b = true then p else p')
      (Parse.peekIs k >>= fun b => if b = true then q else q') :=
  peekIs.bind fun _ => ite h h'

theorem expect {k : TokenKind} : Approximates (expect k) (expect k) :=
  peek.bind fun _ => ite advance reject

theorem expectName : Approximates expectName expectName :=
  expect.bind fun _ => current.bind fun _ => pure

/-- Inside the body of a function. -/
theorem inBody (h : Approximates p q) : Approximates (inBody p) (inBody q) := by
  constructor
  · intro s
    obtain ⟨us, hus⟩ := h.moves { s with inFunction := true }
    unfold Parse.inBody
    cases hr : p { s with inFunction := true } with
    | ok a s' =>
      rw [hr] at hus
      exact ⟨us, hus.leaveBody⟩
    | error e s' =>
      rw [hr] at hus
      exact ⟨us, hus.leaveBody⟩
  · intro s
    unfold Parse.inBody
    rcases h.agrees { s with inFunction := true } with heq | ⟨s', hcut⟩
    · exact Or.inl (by rw [heq])
    · exact Or.inr ⟨_, by rw [hcut]⟩

/-- A rejection is caught, but a routine that was cut off stays so. -/
theorem attempt (h : Approximates p q) : Approximates (attempt p) (attempt q) := by
  constructor
  · intro s
    obtain ⟨us, hus⟩ := h.moves s
    unfold Parse.attempt
    cases hr : p s with
    | ok a s' =>
      rw [hr] at hus
      exact ⟨us, hus⟩
    | error e s' =>
      rw [hr] at hus
      -- a rejection becomes a result and a halt does not, but the cursor is where it was left
      cases e with
      | rejected => exact ⟨us, hus⟩
      | halt h => exact ⟨us, hus⟩
  · intro s
    unfold Parse.attempt
    rcases h.agrees s with heq | ⟨s', hcut⟩
    · exact Or.inl (by rw [heq])
    · exact Or.inr ⟨s', by rw [hcut]⟩

end Approximates

/-! ## Lists, types and the heads of functions -/

section Declared

variable {α : Type} {item item' : Parse α} {inner inner' : Parse TypeName} {body body' : Parse Block}
  {fuel fuel' : Nat}

/-- A list: one item after the other as long as a comma follows. -/
theorem commaSeparated_approximates (h : Approximates item item') (hle : fuel ≤ fuel') :
    Approximates (commaSeparated item fuel) (commaSeparated item' fuel') := by
  induction fuel generalizing fuel' with
  | zero => exact Approximates.outOfFuel
  | succ fuel ih =>
    obtain ⟨fuel', rfl⟩ : ∃ m, fuel' = m + 1 := ⟨fuel' - 1, by omega⟩
    refine h.bind fun _ => Approximates.ifPeekIs ?_ Approximates.pure
    refine Approximates.advance.bind fun _ => ?_
    exact (ih (by omega)).bind fun _ => Approximates.pure

/-- A list up to its closing parenthesis, which may follow at once. -/
theorem parenthesised_approximates (h : Approximates item item') (hle : fuel ≤ fuel') :
    Approximates (parenthesised item fuel) (parenthesised item' fuel') := by
  refine Approximates.ifPeekIs (Approximates.advance.bind fun _ => Approximates.pure) ?_
  refine (commaSeparated_approximates h hle).bind fun _ => ?_
  exact Approximates.expect.bind fun _ => Approximates.pure

/-- The type of a function, or a name. -/
theorem typeRule_approximates (h : Approximates inner inner') (hle : fuel ≤ fuel') :
    Approximates (typeRule inner fuel) (typeRule inner' fuel') := by
  refine Approximates.peek.bind fun t => Approximates.ite ?_ (Approximates.ite ?_ Approximates.reject)
  -- only a type of a function has types inside it
  · refine Approximates.advance.bind fun _ => Approximates.expect.bind fun _ => ?_
    refine (parenthesised_approximates h hle).bind fun _ => Approximates.expect.bind fun _ => ?_
    exact h.bind fun _ => Approximates.pure
  · exact Approximates.advance.bind fun _ => Approximates.pure

/-- A type of a function is nested in types of functions, by induction on the bound. -/
theorem typeName_approximates (hle : fuel ≤ fuel') : Approximates (typeName fuel) (typeName fuel') := by
  induction fuel generalizing fuel' with
  | zero => exact Approximates.outOfFuel
  | succ fuel ih =>
    obtain ⟨fuel', rfl⟩ : ∃ m, fuel' = m + 1 := ⟨fuel' - 1, by omega⟩
    exact typeRule_approximates (ih (by omega)) (by omega)

theorem declaredType_approximates (hle : fuel ≤ fuel') :
    Approximates (declaredType fuel) (declaredType fuel') :=
  Approximates.expect.bind fun _ => typeName_approximates hle

theorem declaredType?_approximates (hle : fuel ≤ fuel') :
    Approximates (declaredType? fuel) (declaredType? fuel') :=
  Approximates.ifPeekIs ((declaredType_approximates hle).bind fun _ => Approximates.pure)
    Approximates.pure

theorem parameter_approximates (hle : fuel ≤ fuel') :
    Approximates (parameter fuel) (parameter fuel') := by
  refine Approximates.expectName.bind fun _ => Approximates.ifPeekIs ?_ Approximates.reject
  exact (declaredType_approximates hle).bind fun _ => Approximates.pure

/-- From the parameters to the end of the body; only the body is read inside a function. -/
theorem functionTail_approximates (h : Approximates body body') (hle : fuel ≤ fuel') (t : Token) :
    Approximates (functionTail body fuel t) (functionTail body' fuel' t) := by
  refine Approximates.expect.bind fun _ => ?_
  refine (parenthesised_approximates (parameter_approximates hle) hle).bind fun _ => ?_
  refine (declaredType?_approximates hle).bind fun _ => Approximates.expect.bind fun _ => ?_
  exact h.inBody.bind fun _ => Approximates.pure

end Declared

/-! ## Expressions -/

section Expression

variable {expr expr' : Nat → Parse Expr} {tail tail' : Token → Parse FunctionTail}
  {extend extend' : Expr → Parse Expr} {fuel fuel' : Nat}
  (hexpr : ∀ strength, Approximates (expr strength) (expr' strength))

include hexpr

/-- What an expression starts with. -/
theorem operand_approximates (htail : ∀ t, Approximates (tail t) (tail' t)) :
    Approximates (operand expr tail) (operand expr' tail') := by
  have hbefore : ∀ t : Token, Approximates
      (do advance; return Expr.before t t.literal (← expr Strength.before))
      (do advance; return Expr.before t t.literal (← expr' Strength.before)) :=
    fun t => Approximates.advance.bind fun _ => (hexpr _).bind fun _ => Approximates.pure
  refine Approximates.current.bind fun t => ?_
  generalize t.kind = k
  cases k
  case ident => exact Approximates.pure
  case int => exact Approximates.readNumber.bind fun _ => Approximates.pure
  case float => exact Approximates.readNumber.bind fun _ => Approximates.pure
  case string => exact Approximates.pure
  case boolean => exact Approximates.pure
  case bang => exact hbefore t
  case minus => exact hbefore t
  case increment => exact hbefore t
  case decrement => exact hbefore t
  case lparen =>
    refine Approximates.advance.bind fun _ => (hexpr _).bind fun _ => ?_
    exact Approximates.expect.bind fun _ => Approximates.pure
  case fnWord => exact (htail t).bind fun _ => Approximates.pure
  all_goals exact Approximates.reject

theorem arguments_approximates (hle : fuel ≤ fuel') :
    Approximates (arguments expr fuel) (arguments expr' fuel') :=
  parenthesised_approximates (Approximates.advance.bind fun _ => hexpr _) hle

/-- What goes on with an expression: an operator, a choice, an assignment or a call. -/
theorem extension_approximates (hle : fuel ≤ fuel') (left : Expr) :
    Approximates (extension expr fuel left) (extension expr' fuel' left) := by
  refine Approximates.current.bind fun t => ?_
  generalize t.kind = k
  cases k
  case assign =>
    -- only a name can be assigned to
    cases left
    case name =>
      exact Approximates.advance.bind fun _ => (hexpr _).bind fun _ => Approximates.pure
    all_goals exact Approximates.reject
  case question =>
    refine Approximates.advance.bind fun _ => (hexpr _).bind fun _ => ?_
    refine Approximates.expect.bind fun _ => Approximates.advance.bind fun _ => ?_
    exact (hexpr _).bind fun _ => Approximates.pure
  case increment => exact Approximates.pure
  case decrement => exact Approximates.pure
  case lparen => exact (arguments_approximates hexpr hle).bind fun _ => Approximates.pure
  -- every other token that an expression can go on with is an operator between two operands
  all_goals exact Approximates.advance.bind fun _ => (hexpr _).bind fun _ => Approximates.pure

omit hexpr in
/-- An expression goes on as long as the next operator binds more strongly. -/
theorem climb_approximates (h : ∀ left, Approximates (extend left) (extend' left)) (strength : Nat)
    (hle : fuel ≤ fuel') (left : Expr) :
    Approximates (climb extend strength fuel left) (climb extend' strength fuel' left) := by
  induction fuel generalizing fuel' left with
  | zero => exact Approximates.outOfFuel
  | succ fuel ih =>
    obtain ⟨fuel', rfl⟩ : ∃ m, fuel' = m + 1 := ⟨fuel' - 1, by omega⟩
    refine Approximates.peek.bind fun _ => Approximates.ite ?_ Approximates.pure
    refine Approximates.advance.bind fun _ => (h left).bind fun _ => ?_
    exact ih (by omega) _

theorem expressionRule_approximates (htail : ∀ t, Approximates (tail t) (tail' t))
    (hle : fuel ≤ fuel') (strength : Nat) :
    Approximates (expressionRule expr tail fuel strength) (expressionRule expr' tail' fuel' strength) :=
  (operand_approximates hexpr htail).bind fun _ =>
    climb_approximates (extension_approximates hexpr hle) strength hle _

end Expression

/-! ## Statements -/

/-- The routines for the parts of a statement approximate each other. -/
structure Parts.Approximate (parts parts' : Parts) : Prop where
  expr : ∀ strength, Approximates (parts.expr strength) (parts'.expr strength)
  block : Approximates parts.block parts'.block
  fuel : parts.fuel ≤ parts'.fuel

/-- No routine is run inside: the type of the value is compared with the one that is written. -/
theorem reconcile_approximates {kind : DeclarationKind} {name : Name} {d : Option TypeName} {e : Expr} :
    Approximates (reconcile kind name d e) (reconcile kind name d e) := by
  unfold reconcile
  split
  · exact Approximates.pure
  · exact Approximates.pure
  · exact Approximates.ite Approximates.pure Approximates.reject

namespace Parts.Approximate

variable {parts parts' : Parts} (h : parts.Approximate parts')

include h

theorem nextExpr : Approximates parts.nextExpr parts'.nextExpr :=
  Approximates.advance.bind fun _ => h.expr _

theorem test : Approximates parts.test parts'.test :=
  Approximates.expect.bind fun _ => h.nextExpr.bind fun _ =>
    Approximates.expect.bind fun _ => Approximates.pure

theorem nextBlock : Approximates parts.nextBlock parts'.nextBlock :=
  Approximates.expect.bind fun _ => h.block

/-- The value of a declaration, from its `=` to its semicolon. -/
theorem value {kind : DeclarationKind} {name : Name} {d : Option TypeName}
    {declaration : Option TypeName → Expr → Stmt} :
    Approximates
      (do
        advance
        let value ← parts.nextExpr
        let declared ← reconcile kind name d value
        expect .semicolon
        return declaration declared value)
      (do
        advance
        let value ← parts'.nextExpr
        let declared ← reconcile kind name d value
        expect .semicolon
        return declaration declared value) :=
  Approximates.advance.bind fun _ => h.nextExpr.bind fun _ => reconcile_approximates.bind fun _ =>
    Approximates.expect.bind fun _ => Approximates.pure

/-- A variable may do without a value, if it has a type. -/
theorem varStatement : Approximates parts.varStatement parts'.varStatement := by
  refine Approximates.current.bind fun _ => Approximates.expectName.bind fun _ => ?_
  refine (declaredType?_approximates h.fuel).bind fun _ => Approximates.ifPeekIs h.value ?_
  exact Approximates.ite Approximates.reject (Approximates.expect.bind fun _ => Approximates.pure)

/-- A constant has a value. -/
theorem constStatement : Approximates parts.constStatement parts'.constStatement := by
  refine Approximates.current.bind fun _ => Approximates.expectName.bind fun _ => ?_
  exact (declaredType?_approximates h.fuel).bind fun _ => Approximates.ifPeekIs h.value Approximates.reject

theorem exprStatement : Approximates parts.exprStatement parts'.exprStatement :=
  Approximates.current.bind fun _ => (h.expr _).bind fun _ =>
    Approximates.expect.bind fun _ => Approximates.pure

/-- An `else if` is a branch again, by induction on the number of branches. -/
theorem branchStatement {fuel fuel' : Nat} (hle : fuel ≤ fuel') :
    Approximates (parts.branchStatement fuel) (parts'.branchStatement fuel') := by
  induction fuel generalizing fuel' with
  | zero => exact Approximates.outOfFuel
  | succ fuel ih =>
    obtain ⟨fuel', rfl⟩ : ∃ m, fuel' = m + 1 := ⟨fuel' - 1, by omega⟩
    refine Approximates.current.bind fun _ => h.test.bind fun _ => h.nextBlock.bind fun _ => ?_
    refine Approximates.ifPeekIs ?_ Approximates.pure
    refine Approximates.advance.bind fun _ => Approximates.peek.bind fun t => ?_
    generalize t.kind = k
    cases k
    case ifWord =>
      exact Approximates.advance.bind fun _ => (ih (by omega)).bind fun _ => Approximates.pure
    case lbrace => exact Approximates.advance.bind fun _ => h.block.bind fun _ => Approximates.pure
    all_goals exact Approximates.reject

theorem whileStatement : Approximates parts.whileStatement parts'.whileStatement :=
  Approximates.current.bind fun _ => h.test.bind fun _ => h.nextBlock.bind fun _ => Approximates.pure

theorem doStatement : Approximates parts.doStatement parts'.doStatement := by
  refine Approximates.current.bind fun _ => h.nextBlock.bind fun _ => Approximates.expect.bind fun _ => ?_
  exact h.test.bind fun _ => Approximates.expect.bind fun _ => Approximates.pure

/-- The first part of a loop: nothing, a variable or an expression. -/
theorem forInit : Approximates parts.forInit parts'.forInit := by
  refine Approximates.current.bind fun t => ?_
  generalize t.kind = k
  cases k
  case semicolon => exact Approximates.pure
  case varWord => exact h.varStatement.bind fun _ => Approximates.pure
  all_goals exact h.exprStatement.bind fun _ => Approximates.pure

/-- The test of a loop up to its semicolon, which may follow at once. -/
theorem forTest : Approximates parts.forTest parts'.forTest := by
  refine Approximates.ifPeekIs (Approximates.advance.bind fun _ => Approximates.pure) ?_
  exact h.nextExpr.bind fun _ => Approximates.expect.bind fun _ => Approximates.pure

theorem forUpdate : Approximates parts.forUpdate parts'.forUpdate :=
  Approximates.ifPeekIs Approximates.pure (h.nextExpr.bind fun _ => Approximates.pure)

theorem forStatement : Approximates parts.forStatement parts'.forStatement := by
  refine Approximates.current.bind fun _ => Approximates.expect.bind fun _ => ?_
  refine Approximates.advance.bind fun _ => h.forInit.bind fun _ => h.forTest.bind fun _ => ?_
  refine h.forUpdate.bind fun _ => Approximates.expect.bind fun _ => ?_
  exact h.nextBlock.bind fun _ => Approximates.pure

theorem functionStatement : Approximates parts.functionStatement parts'.functionStatement := by
  refine Approximates.current.bind fun t => Approximates.advance.bind fun _ => ?_
  refine Approximates.current.bind fun _ => ?_
  exact (functionTail_approximates h.block h.fuel t).bind fun _ => Approximates.pure

/-- A `return` outside functions is rejected before its value is read. -/
theorem returnStatement : Approximates parts.returnStatement parts'.returnStatement := by
  refine Approximates.current.bind fun _ => Approximates.get.bind fun _ => ?_
  refine Approximates.ite Approximates.reject (Approximates.ifPeekIs ?_ ?_)
  · exact Approximates.advance.bind fun _ => Approximates.pure
  · exact h.nextExpr.bind fun _ => Approximates.expect.bind fun _ => Approximates.pure

theorem displayStatement : Approximates parts.displayStatement parts'.displayStatement := by
  refine Approximates.current.bind fun _ => Approximates.expect.bind fun _ => ?_
  refine (arguments_approximates h.expr h.fuel).bind fun _ => ?_
  exact Approximates.expect.bind fun _ => Approximates.pure

/-- The first token decides which statement is read. -/
theorem statement : Approximates parts.statement parts'.statement := by
  refine Approximates.current.bind fun t => ?_
  generalize t.kind = k
  cases k
  case semicolon => exact Approximates.pure
  case varWord => exact h.varStatement.bind fun _ => Approximates.pure
  case constWord => exact h.constStatement.bind fun _ => Approximates.pure
  case ifWord => exact (h.branchStatement h.fuel).bind fun _ => Approximates.pure
  case forWord => exact h.forStatement.bind fun _ => Approximates.pure
  case whileWord => exact h.whileStatement.bind fun _ => Approximates.pure
  case doWord => exact h.doStatement.bind fun _ => Approximates.pure
  case returnWord => exact h.returnStatement.bind fun _ => Approximates.pure
  case displayWord => exact h.displayStatement.bind fun _ => Approximates.pure
  case lbrace => exact h.block.bind fun _ => Approximates.pure
  case fnWord =>
    -- with a name after it this is a declaration, and else an expression
    exact Approximates.ifPeekIs (h.functionStatement.bind fun _ => Approximates.pure)
      (h.exprStatement.bind fun _ => Approximates.pure)
  all_goals exact h.exprStatement.bind fun _ => Approximates.pure

end Parts.Approximate

/-! ## Loops over statements and programs -/

section Loops

variable {st st' : Parse (Option Stmt)} (h : Approximates st st') {fuel fuel' : Nat}

include h

/-- A statement that is rejected is left out, and the cursor moves on past the token where it was. -/
theorem keptStatement_approximates : Approximates (keptStatement st) (keptStatement st') :=
  h.attempt.bind fun _ => Approximates.advance.bind fun _ => Approximates.pure

/-- Statements up to the closing brace, by induction on their number; a source that ends before it is
    rejected. -/
theorem blockStatements_approximates (line : Nat) (hle : fuel ≤ fuel') :
    Approximates (blockStatements st line fuel) (blockStatements st' line fuel') := by
  induction fuel generalizing fuel' with
  | zero => exact Approximates.outOfFuel
  | succ fuel ih =>
    obtain ⟨fuel', rfl⟩ : ∃ m, fuel' = m + 1 := ⟨fuel' - 1, by omega⟩
    refine Approximates.current.bind fun t => ?_
    generalize t.kind = k
    cases k
    case rbrace => exact Approximates.pure
    case eof => exact Approximates.reject
    all_goals
      exact (keptStatement_approximates h).bind fun _ => (ih (by omega)).bind fun _ => Approximates.pure

theorem blockRule_approximates (hle : fuel ≤ fuel') :
    Approximates (blockRule st fuel) (blockRule st' fuel') :=
  Approximates.current.bind fun t => Approximates.advance.bind fun _ =>
    (blockStatements_approximates h t.line hle).bind fun _ => Approximates.pure

/-- Statements up to the end of the source, by induction on their number. -/
theorem programStatements_approximates (hle : fuel ≤ fuel') :
    Approximates (programStatements st fuel) (programStatements st' fuel') := by
  induction fuel generalizing fuel' with
  | zero => exact Approximates.outOfFuel
  | succ fuel ih =>
    obtain ⟨fuel', rfl⟩ : ∃ m, fuel' = m + 1 := ⟨fuel' - 1, by omega⟩
    refine Approximates.current.bind fun _ => Approximates.ite Approximates.pure ?_
    exact (keptStatement_approximates h).bind fun _ => (ih (by omega)).bind fun _ => Approximates.pure

end Loops

/-- The induction over the bound. -/
theorem routines_approximate {fuel fuel' : Nat} (hle : fuel ≤ fuel') :
    (∀ strength, Approximates (expression fuel strength) (expression fuel' strength)) ∧
    Approximates (statement fuel) (statement fuel') ∧ Approximates (block fuel) (block fuel') := by
  induction fuel generalizing fuel' with
  | zero => exact ⟨fun _ => Approximates.outOfFuel, Approximates.outOfFuel, Approximates.outOfFuel⟩
  | succ fuel ih =>
    obtain ⟨fuel', rfl⟩ : ∃ m, fuel' = m + 1 := ⟨fuel' - 1, by omega⟩
    have hle' : fuel ≤ fuel' := by omega
    -- expressions, statements and blocks are nested in each other, and each needs the others one level deeper
    obtain ⟨hexpr, hstatement, hblock⟩ := ih hle'
    have hparts : Parts.Approximate ⟨expression fuel, block fuel, fuel⟩
        ⟨expression fuel', block fuel', fuel'⟩ := ⟨hexpr, hblock, hle'⟩
    refine ⟨fun strength => ?_, hparts.statement, blockRule_approximates hstatement hle'⟩
    exact expressionRule_approximates hexpr (functionTail_approximates hblock hle') hle' strength

/-- A program that is read within a bound is read in the same way within every larger bound. -/
theorem program_approximates {fuel fuel' : Nat} (hle : fuel ≤ fuel') :
    Approximates (program fuel) (program fuel') :=
  Approximates.current.bind fun _ =>
    (programStatements_approximates (routines_approximate hle).2.1 hle).bind fun _ => Approximates.pure

end ScriptLang.Parse
