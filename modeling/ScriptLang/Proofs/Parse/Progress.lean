import ScriptLang.Proofs.Parse.Bounds
import ScriptLang.Proofs.Parse.Exact

/-!
  Reading always comes to an end.

  No bound on nested routines is needed for this: from twice the number of tokens on, every bound gives
  the same result.  What makes it so is told apart here.  No routine moves the cursor back, every turn
  of a loop moves it forward, and a statement ends on its own last token, so that the loop around it,
  which steps over one more token, goes on behind the statement.
-/

namespace ScriptLang

/-- The kind of the token that ends a statement. -/
def Stmt.lastKind : Stmt → TokenKind
  | .var .. | .const .. | .ret .. | .expr .. | .display .. | .doLoop .. => .semicolon
  | .block .. | .branch .. | .forLoop .. | .whileLoop .. | .function .. => .rbrace

namespace Parse

/-! ## The routines and their loops -/

/-- The routines that read one form of statement. -/
inductive StatementRoutine (fuel : Nat) : Parse Stmt → Prop
  | var : StatementRoutine fuel (partsAt fuel).varStatement
  | const : StatementRoutine fuel (partsAt fuel).constStatement
  | expr : StatementRoutine fuel (partsAt fuel).exprStatement
  | branch (bound : Nat) : StatementRoutine fuel ((partsAt fuel).branchStatement bound)
  | whileLoop : StatementRoutine fuel (partsAt fuel).whileStatement
  | doLoop : StatementRoutine fuel (partsAt fuel).doStatement
  | forLoop : StatementRoutine fuel (partsAt fuel).forStatement
  | function : StatementRoutine fuel (partsAt fuel).functionStatement
  | ret : StatementRoutine fuel (partsAt fuel).returnStatement
  | display : StatementRoutine fuel (partsAt fuel).displayStatement
  | block : StatementRoutine fuel (do return .block (← block fuel))

/-- The routines that read one item of a list: a type, a parameter or an argument. -/
inductive ItemRoutine (fuel : Nat) : {α : Type} → Parse α → Prop
  | type : ItemRoutine fuel (typeName fuel)
  | parameter : ItemRoutine fuel (parameter fuel)
  | argument : ItemRoutine fuel (do advance; expression fuel Strength.lowest)

/-- The routines that step over tokens of a program or read part of it, each with any bounds. -/
inductive Routine : {α : Type} → Parse α → Prop
  | advance : Routine advance
  | expect {kind : TokenKind} : Routine (expect kind)
  | expectName : Routine expectName
  | item {fuel : Nat} {α : Type} {p : Parse α} : ItemRoutine fuel p → Routine p
  | items {fuel bound : Nat} {α : Type} {p : Parse α} :
      ItemRoutine fuel p → Routine (commaSeparated p bound)
  | parenthesised {fuel bound : Nat} {α : Type} {p : Parse α} :
      ItemRoutine fuel p → Routine (parenthesised p bound)
  | declaredType {fuel : Nat} : Routine (declaredType fuel)
  | declaredType? {fuel : Nat} : Routine (declaredType? fuel)
  | functionTail {fuel : Nat} {t : Token} : Routine (functionTail (block fuel) fuel t)
  | operand {fuel : Nat} : Routine (operand (expression fuel) (functionTail (block fuel) fuel))
  | extension {fuel bound : Nat} {left : Expr} : Routine (extension (expression fuel) bound left)
  | climb {fuel bound steps strength : Nat} {left : Expr} :
      Routine (climb (extension (expression fuel) bound) strength steps left)
  | expression {fuel strength : Nat} : Routine (expression fuel strength)
  | nextExpr {fuel : Nat} : Routine (partsAt fuel).nextExpr
  | test {fuel : Nat} : Routine (partsAt fuel).test
  | nextBlock {fuel : Nat} : Routine (partsAt fuel).nextBlock
  | reconcile {kind : DeclarationKind} {name : Name} {declared : Option TypeName} {value : Expr} :
      Routine (reconcile kind name declared value)
  | forInit {fuel : Nat} : Routine (partsAt fuel).forInit
  | forTest {fuel : Nat} : Routine (partsAt fuel).forTest
  | forUpdate {fuel : Nat} : Routine (partsAt fuel).forUpdate
  | form {fuel : Nat} {p : Parse Stmt} : StatementRoutine fuel p → Routine p
  | statement {fuel : Nat} : Routine (statement fuel)
  | kept {fuel : Nat} : Routine (keptStatement (statement fuel))
  | blockStatements {fuel bound line : Nat} : Routine (blockStatements (statement fuel) line bound)
  | block {fuel : Nat} : Routine (block fuel)
  | programStatements {fuel bound : Nat} : Routine (programStatements (statement fuel) bound)
  | program {fuel : Nat} : Routine (program fuel)

/-- The loops over statements, over the items of a list and over the operators of an expression, each
    as a function of the number of turns that it may make. -/
inductive Loop : {α : Type} → (Nat → Parse α) → Prop
  | program {fuel : Nat} : Loop (programStatements (statement fuel))
  | block {fuel line : Nat} : Loop (blockStatements (statement fuel) line)
  | items {fuel : Nat} {α : Type} {p : Parse α} : ItemRoutine fuel p → Loop (commaSeparated p)
  | operators {fuel bound strength : Nat} {left : Expr} :
      Loop (climb (extension (expression fuel) bound) strength · left)

/-- One turn: the loop that is at its head in `s` gets once through its body and is at its head again in
    `s'`.  A loop over operators has another expression to extend then. -/
inductive Turn : {α : Type} → (Nat → Parse α) → State → (Nat → Parse α) → State → Prop
  | program {fuel : Nat} {s s' : State} {kept : Option Stmt} : s.current.kind ≠ .eof →
      keptStatement (statement fuel) s = .ok kept s' →
      Turn (programStatements (statement fuel)) s (programStatements (statement fuel)) s'
  | block {fuel line : Nat} {s s' : State} {kept : Option Stmt} : s.current.kind ≠ .rbrace →
      s.current.kind ≠ .eof → keptStatement (statement fuel) s = .ok kept s' →
      Turn (blockStatements (statement fuel) line) s (blockStatements (statement fuel) line) s'
  | items {fuel : Nat} {α : Type} {p : Parse α} {s s₁ s' : State} {a : α} : ItemRoutine fuel p →
      p s = .ok a s₁ → s₁.next.kind = .comma → advance s₁ = .ok () s' →
      Turn (commaSeparated p) s (commaSeparated p) s'
  | operators {fuel bound strength : Nat} {s s₁ s' : State} {left left' : Expr} :
      strength < s.next.kind.strength → advance s = .ok () s₁ →
      extension (expression fuel) bound left s₁ = .ok left' s' →
      Turn (climb (extension (expression fuel) bound) strength · left) s
        (climb (extension (expression fuel) bound) strength · left') s'

/-! ## No routine goes back -/

theorem partsAt_approximate (fuel : Nat) : (partsAt fuel).Approximate (partsAt fuel) :=
  ⟨(routines_approximate (Nat.le_refl fuel)).1, (routines_approximate (Nat.le_refl fuel)).2.2,
    Nat.le_refl fuel⟩

theorem StatementRoutine.approximates {fuel : Nat} {p : Parse Stmt} (h : StatementRoutine fuel p) :
    Approximates p p := by
  have hparts := partsAt_approximate fuel
  cases h with
  | var => exact hparts.varStatement
  | const => exact hparts.constStatement
  | expr => exact hparts.exprStatement
  | branch bound => exact hparts.branchStatement (Nat.le_refl bound)
  | whileLoop => exact hparts.whileStatement
  | doLoop => exact hparts.doStatement
  | forLoop => exact hparts.forStatement
  | function => exact hparts.functionStatement
  | ret => exact hparts.returnStatement
  | display => exact hparts.displayStatement
  | block => exact hparts.block.bind fun _ => Approximates.pure

theorem ItemRoutine.approximates {fuel : Nat} {α : Type} {p : Parse α} (h : ItemRoutine fuel p) :
    Approximates p p := by
  cases h with
  | type => exact typeName_approximates (Nat.le_refl fuel)
  | parameter => exact parameter_approximates (Nat.le_refl fuel)
  | argument => exact Approximates.advance.bind fun _ => (partsAt_approximate fuel).expr _

theorem Routine.approximates {α : Type} {p : Parse α} (h : Routine p) : Approximates p p := by
  have hle := Nat.le_refl
  have hstatement : ∀ fuel, Approximates (Parse.statement fuel) (Parse.statement fuel) :=
    fun fuel => (routines_approximate (hle fuel)).2.1
  cases h with
  | advance => exact Approximates.advance
  | expect => exact Approximates.expect
  | expectName => exact Approximates.expectName
  | item h => exact h.approximates
  | items h => exact commaSeparated_approximates h.approximates (hle _)
  | parenthesised h => exact parenthesised_approximates h.approximates (hle _)
  | declaredType => exact declaredType_approximates (hle _)
  | declaredType? => exact declaredType?_approximates (hle _)
  | functionTail => exact functionTail_approximates (partsAt_approximate _).block (hle _) _
  | operand =>
    exact operand_approximates (partsAt_approximate _).expr
      (functionTail_approximates (partsAt_approximate _).block (hle _))
  | extension => exact extension_approximates (partsAt_approximate _).expr (hle _) _
  | climb =>
    exact climb_approximates (extension_approximates (partsAt_approximate _).expr (hle _)) _ (hle _) _
  | expression => exact (partsAt_approximate _).expr _
  | nextExpr => exact (partsAt_approximate _).nextExpr
  | test => exact (partsAt_approximate _).test
  | nextBlock => exact (partsAt_approximate _).nextBlock
  | reconcile => exact reconcile_approximates
  | forInit => exact (partsAt_approximate _).forInit
  | forTest => exact (partsAt_approximate _).forTest
  | forUpdate => exact (partsAt_approximate _).forUpdate
  | form h => exact h.approximates
  | statement => exact hstatement _
  | kept => exact keptStatement_approximates (hstatement _)
  | blockStatements => exact blockStatements_approximates (hstatement _) _ (hle _)
  | block => exact (partsAt_approximate _).block
  | programStatements => exact programStatements_approximates (hstatement _) (hle _)
  | program => exact program_approximates (hle _)

/-- The state in which a routine stops is reached from its first one by steps forward. -/
theorem Routine.path {α : Type} {p : Parse α} (h : Routine p) {s s' : State} {a : α}
    (hrun : p s = .ok a s') : ∃ us, Path s us s' := by
  have hmoves := h.approximates.moves s
  rwa [hrun] at hmoves

/-! ## Every turn goes forward -/

theorem bind_eq_ok {α β : Type} {p : Parse α} {f : α → Parse β} {s s' : State} {b : β}
    (h : (p >>= f) s = .ok b s') : ∃ a s₁, p s = .ok a s₁ ∧ f a s₁ = .ok b s' := by
  have hbind : EStateM.bind p f s = .ok b s' := h
  unfold EStateM.bind at hbind
  cases hp : p s with
  | ok a s₁ =>
    rw [hp] at hbind
    exact ⟨a, s₁, rfl, hbind⟩
  | error e s₁ =>
    rw [hp] at hbind
    contradiction

theorem ifPeekIs_eq_ok {α : Type} {k : TokenKind} {p q : Parse α} {s s' : State} {a : α}
    (h : (peekIs k >>= fun b => if b = true then p else q) s = .ok a s') :
    (s.next.kind = k ∧ p s = .ok a s') ∨ (s.next.kind ≠ k ∧ q s = .ok a s') := by
  have hif : (if decide (s.next.kind = k) = true then p else q) s = .ok a s' := h
  by_cases hk : s.next.kind = k
  · rw [if_pos (decide_eq_true hk)] at hif
    exact Or.inl ⟨hk, hif⟩
  · rw [if_neg (by simpa using hk)] at hif
    exact Or.inr ⟨hk, hif⟩

theorem length_of_advance {s s' : State} (h : advance s = .ok () s') :
    s'.rest.length = s.rest.length - 1 := by
  obtain ⟨c, rest, ds, f⟩ := s
  cases rest with
  | nil => cases h; rfl
  | cons t ts => cases h; rfl

theorem current_of_advance {s s' : State} (h : advance s = .ok () s') : s'.current = s.next := by
  obtain ⟨c, rest, ds, f⟩ := s
  cases rest with
  | nil => cases h; rfl
  | cons t ts => cases h; rfl

/-- In front of the end of the input there is something to step to. -/
theorem State.Ends.length_pos {s : State} (hs : s.Ends) (h : s.current.kind ≠ .eof ∨ s.next.kind ≠ .eof) :
    0 < s.rest.length := by
  refine List.length_pos_iff.2 fun hnil => ?_
  unfold State.Ends at hs
  unfold State.next at h
  rw [hnil] at hs h
  rcases h with h | h
  · exact h hs
  · exact h hs

/-- A statement and the step behind it: where the statement gave up does not matter. -/
theorem keptStatement_forward {fuel : Nat} {s s' : State} {kept : Option Stmt} (hs : s.Ends)
    (heof : s.current.kind ≠ .eof) (h : keptStatement (statement fuel) s = .ok kept s') :
    s'.rest.length < s.rest.length := by
  obtain ⟨st, s₁, hst, hstep⟩ := bind_eq_ok h
  obtain ⟨u, s₂, hadvance, hpure⟩ := bind_eq_ok hstep
  have hend : s₂ = s' := by
    cases hpure
    rfl
  subst hend
  have hmoves := (routines_approximate (Nat.le_refl fuel)).2.1.attempt.moves s
  rw [hst] at hmoves
  obtain ⟨us, hpath⟩ := hmoves
  have hle : s₁.rest.length + us.length ≤ s.rest.length := hpath.length_le
  have hlen := length_of_advance hadvance
  have hpos := hs.length_pos (Or.inl heof)
  omega

namespace Turn

variable {α : Type} {loop loop' : Nat → Parse α} {s s' : State}

theorem forward (h : Turn loop s loop' s') (hs : s.Ends) : s'.rest.length < s.rest.length := by
  cases h with
  | program heof hrun => exact keptStatement_forward hs heof hrun
  | block _ heof hrun => exact keptStatement_forward hs heof hrun
  | items hitem hrun hcomma hadvance =>
    obtain ⟨us, hpath⟩ := (Routine.item hitem).path hrun
    have hle := hpath.length_le
    have hlen := length_of_advance hadvance
    have hpos := (hpath.ends hs).length_pos (Or.inr (by rw [hcomma]; decide))
    omega
  | operators hstrength hadvance hrun =>
    have hnext : s.next.kind ≠ .eof := by
      intro heof
      rw [heof] at hstrength
      exact Nat.not_lt_zero _ hstrength
    obtain ⟨us, hpath⟩ := Routine.extension.path hrun
    have hle := hpath.length_le
    have hlen := length_of_advance hadvance
    have hpos := hs.length_pos (Or.inr hnext)
    omega

/-- A turn is taken off the number of turns that the loop may make, and the rest of the loop is run from
    where the turn ended. -/
theorem unrolls (h : Turn loop s loop' s') :
    ∃ g : α → α, ∀ n, loop (n + 1) s = (do return g (← loop' n)) s' := by
  cases h with
  | @program fuel _ _ kept heof hrun =>
    refine ⟨(kept.toList ++ ·), fun n => ?_⟩
    rw [programStatements, run_bind (rfl : Parse.current s = .ok s.current s), if_neg heof]
    exact run_bind hrun _
  | @block fuel line _ _ kept hbrace heof hrun =>
    refine ⟨(kept.toList ++ ·), fun n => ?_⟩
    rw [(blockStatements_loops (statement fuel) line).turn hbrace heof]
    exact run_bind hrun _
  | @items fuel _ p _ s₁ _ a hitem hrun hcomma hadvance =>
    refine ⟨(a :: ·), fun n => ?_⟩
    have hpeek : peekIs .comma s₁ = .ok true s₁ :=
      congrArg (EStateM.Result.ok · s₁) (decide_eq_true hcomma)
    rw [commaSeparated, run_bind hrun, run_bind hpeek, if_pos rfl, run_bind hadvance]
  | @operators fuel bound strength _ s₁ _ left left' hstrength hadvance hrun =>
    refine ⟨id, fun n => ?_⟩
    show climb (extension (expression fuel) bound) strength (n + 1) left s = _
    have hpeek : peek s = .ok s.next s := rfl
    rw [climb, run_bind hpeek, if_pos hstrength, run_bind hadvance, run_bind hrun]
    exact (congrFun (bind_pure _) s').symm

end Turn

theorem run_bind_error {α β : Type} {s s' : State} {p : Parse α} {e : Stop} (h : p s = .error e s')
    (f : α → Parse β) : (p >>= f) s = .error e s' := by
  show EStateM.bind p f s = _
  unfold EStateM.bind
  rw [h]

/-- Where a loop makes no turn it ends, and how often it might have gone on does not matter. -/
theorem Loop.ends {α : Type} {loop : Nat → Parse α} (h : Loop loop) {s : State}
    (hturn : ∀ loop' s', ¬ Turn loop s loop' s') (m n : Nat) : loop (m + 1) s = loop (n + 1) s := by
  cases h with
  | @program fuel =>
    have hcurrent : Parse.current s = .ok s.current s := rfl
    rw [programStatements, programStatements, run_bind hcurrent, run_bind hcurrent]
    by_cases heof : s.current.kind = .eof
    · rw [if_pos heof, if_pos heof]
    rw [if_neg heof, if_neg heof]
    cases hrun : keptStatement (statement fuel) s with
    | ok kept s' => exact absurd (Turn.program heof hrun) (hturn _ _)
    | error e s' => rw [run_bind_error hrun, run_bind_error hrun]
  | @block fuel line =>
    have hloops := blockStatements_loops (statement fuel) line
    by_cases hbrace : s.current.kind = .rbrace
    · rw [hloops.stop hbrace, hloops.stop hbrace]
    by_cases heof : s.current.kind = .eof
    · rw [blockStatements, blockStatements, run_bind (rfl : Parse.current s = .ok s.current s),
        run_bind (rfl : Parse.current s = .ok s.current s), heof]
    rw [hloops.turn hbrace heof, hloops.turn hbrace heof]
    cases hrun : keptStatement (statement fuel) s with
    | ok kept s' => exact absurd (Turn.block hbrace heof hrun) (hturn _ _)
    | error e s' => rw [run_bind_error hrun, run_bind_error hrun]
  | @items fuel _ p hitem =>
    rw [commaSeparated, commaSeparated]
    cases hrun : p s with
    | error e s' => rw [run_bind_error hrun, run_bind_error hrun]
    | ok a s₁ =>
      rw [run_bind hrun, run_bind hrun]
      have hcomma : s₁.next.kind ≠ .comma := fun hcomma =>
        hturn _ _ (Turn.items hitem hrun hcomma rfl)
      have hpeek : peekIs .comma s₁ = .ok false s₁ :=
        congrArg (EStateM.Result.ok · s₁) (decide_eq_false hcomma)
      rw [run_bind hpeek, run_bind hpeek]
      rfl
  | @operators fuel bound strength left =>
    show climb (extension (expression fuel) bound) strength (m + 1) left s =
      climb (extension (expression fuel) bound) strength (n + 1) left s
    have hpeek : peek s = .ok s.next s := rfl
    rw [climb, climb, run_bind hpeek, run_bind hpeek]
    by_cases hstrength : strength < s.next.kind.strength
    · rw [if_pos hstrength, if_pos hstrength]
      obtain ⟨s₁, hadvance⟩ : ∃ s₁, Parse.advance s = .ok () s₁ := ⟨_, rfl⟩
      rw [run_bind hadvance, run_bind hadvance]
      cases hrun : extension (expression fuel) bound left s₁ with
      | ok left' s' => exact absurd (Turn.operators hstrength hadvance hrun) (hturn _ _)
      | error e s' => rw [run_bind_error hrun, run_bind_error hrun]
    · rw [if_neg hstrength, if_neg hstrength]

/-! ## A statement ends on its last token -/

/-- Whenever the routine gives a result, the result and the state that it leaves have `Q`. -/
def Leaves {α : Type} (Q : α → State → Prop) (p : Parse α) : Prop :=
  ∀ s a s', p s = .ok a s' → Q a s'

namespace Leaves

variable {α β : Type} {P : α → State → Prop} {Q : β → State → Prop} {p : Parse α}

theorem bind {f : α → Parse β} (hf : ∀ a, Leaves Q (f a)) : Leaves Q (p >>= f) := by
  intro s b s' hrun
  obtain ⟨a, s₁, -, hrun₁⟩ := bind_eq_ok hrun
  exact hf a s₁ b s' hrun₁

/-- The last of several routines only puts the result together. -/
theorem map {g : α → β} (hp : Leaves P p) (h : ∀ a s, P a s → Q (g a) s) :
    Leaves Q (do return g (← p)) := by
  intro s b s' hrun
  obtain ⟨a, s₁, hrun₁, hpure⟩ := bind_eq_ok hrun
  cases hpure
  exact h a _ (hp s a _ hrun₁)

theorem reject {d : Diagnostic} : Leaves P (reject d) := by
  intro s a s' hrun
  cases hrun

theorem outOfFuel : Leaves P outOfFuel := by
  intro s a s' hrun
  cases hrun

theorem ite {c : Prop} [Decidable c] {q : Parse α} (hp : Leaves P p) (hq : Leaves P q) :
    Leaves P (if c then p else q) := by
  by_cases hc : c
  · rwa [if_pos hc]
  · rwa [if_neg hc]

theorem expect {k : TokenKind} : Leaves (fun _ s => s.current.kind = k) (expect k) := by
  intro s a s' hrun
  have hif : (if s.next.kind = k then advance else Parse.reject (.expected k s.next)) s = .ok a s' := hrun
  by_cases hk : s.next.kind = k
  · rw [if_pos hk] at hif
    rw [current_of_advance hif]
    exact hk
  · rw [if_neg hk] at hif
    contradiction

theorem inBody {k : TokenKind} (h : Leaves (fun _ s => s.current.kind = k) p) :
    Leaves (fun _ s => s.current.kind = k) (inBody p) := by
  intro s a s' hrun
  unfold Parse.inBody at hrun
  cases hp : p { s with inFunction := true } with
  | ok b s₁ =>
    rw [hp] at hrun
    cases hrun
    exact h _ a s₁ hp
  | error e s₁ =>
    rw [hp] at hrun
    contradiction

end Leaves

/-- A statement and a state whose current token is of the kind that ends the statement. -/
def Closed (st : Stmt) (s : State) : Prop := s.current.kind = st.lastKind

theorem blockStatements_leaves {st : Parse (Option Stmt)} {line : Nat} (bound : Nat) :
    Leaves (fun _ s => s.current.kind = .rbrace) (blockStatements st line bound) := by
  induction bound with
  | zero => exact Leaves.outOfFuel
  | succ bound ih =>
    have hloops := blockStatements_loops st line
    intro s ss s' hrun
    by_cases hbrace : s.current.kind = .rbrace
    · rw [hloops.stop hbrace] at hrun
      cases hrun
      exact hbrace
    by_cases heof : s.current.kind = .eof
    · rw [blockStatements, run_bind (rfl : Parse.current s = .ok s.current s), heof] at hrun
      contradiction
    rw [hloops.turn hbrace heof] at hrun
    have hleaves : Leaves (fun _ s => s.current.kind = .rbrace)
        (keptStatement st >>= fun o => blockStatements st line bound >>= fun ss =>
          pure (o.toList ++ ss)) := Leaves.bind fun _ => ih.map fun _ _ h => h
    exact hleaves s ss s' hrun

theorem block_leaves (fuel : Nat) : Leaves (fun _ s => s.current.kind = .rbrace) (block fuel) := by
  cases fuel with
  | zero => exact Leaves.outOfFuel
  | succ fuel =>
    exact Leaves.bind fun _ => Leaves.bind fun _ => (blockStatements_leaves fuel).map fun _ _ h => h

section Forms

variable {fuel : Nat}

theorem nextBlock_leaves : Leaves (fun _ s => s.current.kind = .rbrace) (partsAt fuel).nextBlock :=
  Leaves.bind fun _ => block_leaves fuel

/-- The semicolon of a statement is the last thing that is read of it. -/
theorem semicolon_leaves {st : Stmt} (h : st.lastKind = .semicolon) :
    Leaves Closed (do expect .semicolon; return st) :=
  Leaves.expect.map fun _ _ hk => hk.trans h.symm

theorem branchStatement_leaves (bound : Nat) :
    Leaves (fun st s => s.current.kind = .rbrace ∧ st.lastKind = .rbrace)
      ((partsAt fuel).branchStatement bound) := by
  induction bound with
  | zero => exact Leaves.outOfFuel
  | succ bound ih =>
    refine Leaves.bind fun _ => Leaves.bind fun _ => ?_
    intro s st s' hrun
    obtain ⟨b, s₁, hblock, hrun₁⟩ := bind_eq_ok hrun
    rcases ifPeekIs_eq_ok hrun₁ with ⟨-, helse⟩ | ⟨-, honly⟩
    · refine Leaves.bind (Q := fun st s => s.current.kind = .rbrace ∧ st.lastKind = .rbrace)
        (fun _ => Leaves.bind fun t => ?_) s₁ st s' helse
      split
      · exact Leaves.bind fun _ => ih.map fun _ _ h => ⟨h.1, rfl⟩
      · exact Leaves.bind fun _ => (block_leaves fuel).map fun _ _ h => ⟨h, rfl⟩
      · exact Leaves.reject
    · -- without an alternative the last token is that of the block
      cases honly
      exact ⟨nextBlock_leaves _ _ _ hblock, rfl⟩

theorem StatementRoutine.closed {p : Parse Stmt} (h : StatementRoutine fuel p) : Leaves Closed p := by
  cases h with
  | var =>
    refine Leaves.bind fun _ => Leaves.bind fun _ => Leaves.bind fun _ => Leaves.bind fun _ => ?_
    refine Leaves.ite ?_ (Leaves.ite Leaves.reject (semicolon_leaves rfl))
    exact Leaves.bind fun _ => Leaves.bind fun _ => Leaves.bind fun _ => semicolon_leaves rfl
  | const =>
    refine Leaves.bind fun _ => Leaves.bind fun _ => Leaves.bind fun _ => Leaves.bind fun _ => ?_
    refine Leaves.ite ?_ Leaves.reject
    exact Leaves.bind fun _ => Leaves.bind fun _ => Leaves.bind fun _ => semicolon_leaves rfl
  | expr => exact Leaves.bind fun _ => Leaves.bind fun _ => semicolon_leaves rfl
  | branch bound =>
    intro s st s' hrun
    obtain ⟨hkind, hlast⟩ := branchStatement_leaves bound s st s' hrun
    exact hkind.trans hlast.symm
  | whileLoop =>
    exact Leaves.bind fun _ => Leaves.bind fun _ => nextBlock_leaves.map fun _ _ h => h
  | doLoop =>
    refine Leaves.bind fun _ => Leaves.bind fun _ => Leaves.bind fun _ => Leaves.bind fun _ => ?_
    exact semicolon_leaves rfl
  | forLoop =>
    refine Leaves.bind fun _ => Leaves.bind fun _ => Leaves.bind fun _ => Leaves.bind fun _ => ?_
    refine Leaves.bind fun _ => Leaves.bind fun _ => Leaves.bind fun _ => ?_
    exact nextBlock_leaves.map fun _ _ h => h
  | function =>
    refine Leaves.bind fun _ => Leaves.bind fun _ => Leaves.bind fun _ => ?_
    have htail : ∀ t, Leaves (fun _ s => s.current.kind = .rbrace)
        (functionTail (Parse.block fuel) fuel t) := by
      intro t
      refine Leaves.bind fun _ => Leaves.bind fun _ => Leaves.bind fun _ => Leaves.bind fun _ => ?_
      exact (block_leaves fuel).inBody.map fun _ _ h => h
    exact (htail _).map fun _ _ h => h
  | ret =>
    refine Leaves.bind fun _ => Leaves.bind fun _ => Leaves.ite Leaves.reject ?_
    intro s st s' hrun
    rcases ifPeekIs_eq_ok hrun with ⟨hsemicolon, hnothing⟩ | ⟨-, hvalue⟩
    · obtain ⟨u, s₁, hadvance, hpure⟩ := bind_eq_ok hnothing
      cases hpure
      show s'.current.kind = .semicolon
      rw [current_of_advance hadvance, hsemicolon]
    · exact Leaves.bind (fun _ => semicolon_leaves rfl) s st s' hvalue
  | display => exact Leaves.bind fun _ => Leaves.bind fun _ => Leaves.bind fun _ => semicolon_leaves rfl
  | block => exact (block_leaves fuel).map fun _ _ h => h

/-- A statement that is not empty ends on its own last token, whatever form it has. -/
theorem statement_leaves : Leaves (fun kept s => ∀ st, kept = some st → Closed st s) (statement fuel) := by
  cases fuel with
  | zero => exact Leaves.outOfFuel
  | succ fuel =>
    have hkeep : ∀ {p : Parse Stmt}, StatementRoutine fuel p →
        Leaves (fun kept s => ∀ st, kept = some st → Closed st s) (do return some (← p)) := by
      intro p hp
      refine hp.closed.map fun st s hclosed st' heq => ?_
      cases heq
      exact hclosed
    refine Leaves.bind fun t => ?_
    split
    · intro s kept s' hrun st heq
      cases hrun
      cases heq
    · exact hkeep .var
    · exact hkeep .const
    · exact hkeep (.branch fuel)
    · exact hkeep .forLoop
    · exact hkeep .whileLoop
    · exact hkeep .doLoop
    · exact hkeep .ret
    · exact hkeep .display
    · refine (block_leaves fuel).map fun b s hbrace st heq => ?_
      cases heq
      exact hbrace
    · exact Leaves.bind fun _ => Leaves.ite (hkeep .function) (hkeep .expr)
    · exact hkeep .expr

end Forms

/-! ## Reading comes to an end -/

/-- The routine never gives up: what gives up inside it is caught. -/
def Recovers {α : Type} (p : Parse α) : Prop := ∀ s s', p s ≠ .error .rejected s'

namespace Recovers

variable {α β : Type} {p : Parse α}

theorem pure {a : α} : Recovers (pure a) := by
  intro s s' hrun
  cases hrun

theorem current : Recovers current := by
  intro s s' hrun
  cases hrun

theorem advance : Recovers advance := by
  intro s s' hrun
  cases hrun

theorem bind {f : α → Parse β} (hp : Recovers p) (hf : ∀ a, Recovers (f a)) : Recovers (p >>= f) := by
  intro s s' hrun
  cases hr : p s with
  | ok a s₁ =>
    rw [run_bind hr] at hrun
    exact hf a s₁ s' hrun
  | error e s₁ =>
    rw [run_bind_error hr] at hrun
    cases hrun
    exact hp s _ hr

theorem attempt : Recovers (attempt p) := by
  intro s s' hrun
  unfold Parse.attempt at hrun
  cases hr : p s with
  | ok a s₁ => rw [hr] at hrun; cases hrun
  | error e s₁ =>
    rw [hr] at hrun
    cases e with
    | rejected => cases hrun
    | halt h => cases hrun

/-- A statement that had to be given up is dropped, and the loop over statements goes on. -/
theorem programStatements {st : Parse (Option Stmt)} (bound : Nat) :
    Recovers (programStatements st bound) := by
  induction bound with
  | zero =>
    intro s s' hrun
    cases hrun
  | succ bound ih =>
    refine bind current fun t => ?_
    split
    · exact pure
    · have hkept : Recovers (keptStatement st) :=
        bind attempt fun _ => bind advance fun _ => pure
      exact bind hkept fun _ => bind ih fun _ => pure

theorem program (fuel : Nat) : Recovers (program fuel) :=
  bind current fun _ => bind (programStatements fuel) fun _ => pure

end Recovers

/-- From twice the number of tokens on every bound gives the same result, a program or the fault of a
    number that cannot be read. -/
theorem program_converges {s : State} (hs : s.Ends) :
    ∃ r, (∀ fuel, 2 * s.rest.length + 4 ≤ fuel → program fuel s = r) ∧
      ((∃ p s', r = .ok p s') ∨
        ∃ t ∈ s.current :: s.rest, ∃ f s', BadLiteral t f ∧ r = .error (.halt (.fault f)) s') := by
  have hmeets : Meets Span s _ (program (2 * s.rest.length + 4) s) := program_reads (Nat.le_refl _) hs
  refine ⟨program (2 * s.rest.length + 4) s, fun fuel hfuel => ?_, ?_⟩
  · rcases (program_approximates hfuel).agrees s with heq | ⟨s', hcut⟩
    · exact heq
    · rw [hcut] at hmeets
      obtain ⟨t, -, f, -, hhalt⟩ := hmeets
      cases hhalt
  · cases hrun : program (2 * s.rest.length + 4) s with
    | ok p s' => exact Or.inl ⟨p, s', rfl⟩
    | error e s' =>
      rw [hrun] at hmeets
      cases e with
      | halt h =>
        obtain ⟨t, ht, f, hbad, rfl⟩ := hmeets
        exact Or.inr ⟨t, ht, f, s', hbad, rfl⟩
      | rejected => exact absurd hrun (Recovers.program _ s s')

end Parse

open Parse

/-- Reading any tokens whose last is an `eof` ends, with a program or at a number that cannot be read, and
    with the same result under every bound from twice the number of tokens on.  However a routine ends,
    the cursor is where it was or after it, and inside a function only if it was before.  Every turn of
    a loop moves the cursor forward; the turns are all that a loop does.  A statement that is read ends
    on the semicolon or the closing brace that belongs to its form. -/
theorem parsing_terminates {t : Token} {ts : List Token} (hends : (ts.getLastD t).kind = .eof) :
    (∃ r, (∀ fuel, 2 * ts.length + 4 ≤ fuel → program fuel ⟨t, ts, [], false⟩ = r) ∧
      ((∃ p s, r = .ok p s ∧ parseTokens (t :: ts) = .ok ⟨p, s.diagnostics⟩) ∨
        ∃ u ∈ t :: ts, ∃ f s, BadLiteral u f ∧ r = .error (.halt (.fault f)) s ∧
          parseTokens (t :: ts) = .error (.fault f))) ∧
    (∀ {α : Type} {p : Parse α}, Routine p → ∀ s, ∃ us, s.rest = us ++ (stateOf (p s)).rest ∧
      (stateOf (p s)).current = us.getLastD s.current ∧ (stateOf (p s)).inFunction = s.inFunction) ∧
    (∀ {α : Type} {loop loop' : Nat → Parse α} {s s' : State}, Turn loop s loop' s' →
      (s.Ends → s'.rest.length < s.rest.length) ∧
      ∃ g : α → α, ∀ n, loop (n + 1) s = (do return g (← loop' n)) s') ∧
    (∀ {α : Type} {loop : Nat → Parse α} {s : State}, Loop loop →
      (∀ loop' s', ¬ Turn loop s loop' s') → ∀ m n, loop (m + 1) s = loop (n + 1) s) ∧
    (∀ {fuel : Nat} {p : Parse Stmt}, StatementRoutine fuel p →
      ∀ s st s', p s = .ok st s' → s'.current.kind = st.lastKind) ∧
    ∀ fuel s st s', statement fuel s = .ok (some st) s' → s'.current.kind = st.lastKind := by
  refine ⟨?_, ?_, ?_, ?_, ?_, ?_⟩
  · obtain ⟨r, hfuel, hr⟩ := program_converges (s := ⟨t, ts, [], false⟩) hends
    have hrun := hfuel (4 * ((t :: ts).length + 1)) (by simp only [List.length_cons]; omega)
    refine ⟨r, hfuel, ?_⟩
    unfold parseTokens
    dsimp only
    rw [hrun]
    rcases hr with ⟨p, s', rfl⟩ | ⟨u, hu, f, s', hbad, rfl⟩
    · exact Or.inl ⟨p, s', rfl, rfl⟩
    · exact Or.inr ⟨u, hu, f, s', hbad, rfl, rfl⟩
  · intro α p hp s
    obtain ⟨vs, us, ds, hrest, hcurrent, -, hflag, -⟩ := hp.approximates.moves s
    exact ⟨us, hrest, hcurrent, hflag⟩
  · intro α loop loop' s s' hturn
    exact ⟨hturn.forward, hturn.unrolls⟩
  · intro α loop s hloop hturn m n
    exact hloop.ends hturn m n
  · intro fuel p hp s st s' hrun
    exact hp.closed s st s' hrun
  · intro fuel s st s' hrun
    exact statement_leaves s (some st) s' hrun st rfl

/-- Tokens that break off in several places, `fn ( { return a = ; eof } "12x"`, where the last but one is
    a number that cannot be read and an `eof` stands inside: reading them ends all the same. -/
theorem parsing_terminates_broken :
    let t : Token := ⟨.fnWord, "fn", 1, 1⟩
    let ts : List Token := [⟨.lparen, "(", 1, 4⟩, ⟨.lbrace, "\x7b", 1, 6⟩, ⟨.returnWord, "return", 1, 8⟩,
      ⟨.ident, "a", 1, 15⟩, ⟨.assign, "=", 1, 17⟩, ⟨.semicolon, ";", 1, 19⟩, ⟨.eof, "", 2, 1⟩,
      ⟨.rbrace, "\x7d", 2, 3⟩, ⟨.int, "12x", 2, 5⟩, ⟨.eof, "", 2, 8⟩]
    (ts.getLastD t).kind = .eof ∧
    ∃ r, (∀ fuel, 2 * ts.length + 4 ≤ fuel → program fuel ⟨t, ts, [], false⟩ = r) ∧
      ((∃ p s, r = .ok p s ∧ parseTokens (t :: ts) = .ok ⟨p, s.diagnostics⟩) ∨
        ∃ u ∈ t :: ts, ∃ f s, BadLiteral u f ∧ r = .error (.halt (.fault f)) s ∧
          parseTokens (t :: ts) = .error (.fault f)) := by
  intro t ts
  exact ⟨rfl, (parsing_terminates rfl).1⟩

end ScriptLang
