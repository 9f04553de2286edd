import ScriptLang.Proofs.Eval.ForLoop
import ScriptLang.Proofs.Parse.WellFormed

/-!
  Programs as rows of statements.

  A program runs its statements in order and then finishes with the value of the last one that was run.  A
  statement of a source has no `return` outside a function, so it ends the row early with an error only, if no
  name holds a `return`.  What the statements do does not depend on the trace, in which a program writes when it
  starts and when it finishes.
-/

namespace ScriptLang

open Correspondence

/-! ## Statements without a `return` -/

mutual

theorem Block.WellFormed.returnFree : {b : Block} → b.WellFormed false → b.ReturnFree
  | .mk _ _, h => stmtsReturnFree_of_wellFormed h

/-- Outside functions the statements of a source have no `return`. -/
theorem Stmt.WellFormed.returnFree : {s : Stmt} → s.WellFormed false → s.ReturnFree
  | .var .., _ | .const .., _ | .expr .., _ | .function .., _ | .display .., _ => trivial
  | .ret .., h => absurd h.1 Bool.false_ne_true
  | .block _, h => Block.WellFormed.returnFree h
  | .branch .., h => ⟨h.2.1.returnFree, stmtReturnFree?_of_wellFormed h.2.2.2⟩
  | .whileLoop .., h => h.2.returnFree
  | .doLoop .., h => h.2.returnFree
  | .forLoop .., h => ⟨stmtReturnFree?_of_wellFormed h.2.1, h.2.2.2.2.returnFree⟩

theorem stmtsReturnFree_of_wellFormed : {ss : List Stmt} → stmtsWellFormed false ss → stmtsReturnFree ss
  | [], _ => trivial
  | _ :: _, h => ⟨h.1.returnFree, stmtsReturnFree_of_wellFormed h.2⟩

theorem stmtReturnFree?_of_wellFormed : {s : Option Stmt} → stmtWellFormed? false s → stmtReturnFree? s
  | none, _ => trivial
  | some _, h => h.returnFree

end

/-- The statements of a source do not end with a `return` where no name holds one. -/
theorem inOrder_ne_returned {m : Machine} {P : ScopeId → Prop} {scope : ScopeId} {ss : List Stmt}
    (hsound : m.heap.Sound P) (hscope : P scope) (hfree : m.heap.ReturnFree P) (hss : stmtsWellFormed false ss)
    (settings : Settings) (n : Nat) (u : Value) :
    (m.step (Rule.inOrder (evalStmt settings n 0 scope) .null ss)).1 ≠ .ok (.returned u) := by
  -- the run beside itself, where what is stored is no `return`
  have howns : (Matching.shared P m.heap.functions m.heap.functions).owns scope scope := ⟨rfl, hscope⟩
  have hruns : padding.Runs .neither settings n n := runs_all padding settings rfl
  have hends := hruns.returnFree_inOrder (stmtsReturnFree_of_wellFormed hss) howns 0 _ (Matching.le_refl _) m m
    (padding_start hsound hfree)
  unfold Machine.step
  generalize Rule.inOrder (evalStmt settings n 0 scope) .null ss m = r at hends ⊢
  cases hends with
  | value _ _ hv =>
    rintro ⟨⟩
    rcases hv.2 with hstored | herror
    · exact hstored u rfl
    · cases herror
  | halt _ _ => exact nofun
  | firstCut hs | secondCut hs => cases hs

/-! ## Machines with different traces -/

/-- Machines that differ at most in their traces. -/
structure Machine.SameState (m m' : Machine) : Prop where
  heap : m.heap = m'.heap
  output : m.output = m'.output

namespace Machine.SameState

variable {m m' m'' : Machine}

theorem symm (h : m.SameState m') : m'.SameState m := ⟨h.heap.symm, h.output.symm⟩

theorem trans (h : m.SameState m') (h' : m'.SameState m'') : m.SameState m'' :=
  ⟨h.heap.trans h'.heap, h.output.trans h'.output⟩

end Machine.SameState

/-- Two runs on one heap, with any traces. -/
def untraced : Correspondence :=
  { Invariant.always.correspondence with
    Traces := fun _ _ => True
    push := fun _ _ => trivial }

/-- A run that does not look at its trace. -/
theorem step_sameState {x : Eval Value} (hx : untraced.Yields .neither (.diagonal fun _ => True) x x)
    {m m' : Machine} (hm : m.SameState m') :
    (m.step x).1 = (m'.step x).1 ∧ (m.step x).2.SameState (m'.step x).2 := by
  have hends := hx _ (Matching.le_refl _) m m' ⟨⟨rfl, hm.heap, trivial⟩, hm.output, trivial⟩
  unfold Machine.step
  generalize x m = r at hends ⊢
  generalize x m' = r' at hends ⊢
  cases hends with
  | value _ hm₁ hv =>
    obtain ⟨rfl, hheap, -⟩ := hm₁.heaps
    exact ⟨congrArg Except.ok (Matching.alike_diagonal_iff.1 hv.1), hheap, hm₁.output⟩
  | halt _ hm₁ => exact ⟨rfl, hm₁.heaps.2.1, hm₁.output⟩
  | firstCut hs | secondCut hs => cases hs

/-- The run of statements of a program. -/
abbrev statements (settings : Settings) (n : Nat) (scope : ScopeId) (last : Value) (ss : List Stmt) : Eval Value :=
  Rule.inOrder (evalStmt settings n 0 scope) last ss

section Programs

variable {settings : Settings} {n : Nat} {scope : ScopeId} {m m' : Machine}

theorem statements_sameState (hm : m.SameState m') (last : Value) (ss : List Stmt) :
    (m.step (statements settings n scope last ss)).1 = (m'.step (statements settings n scope last ss)).1 ∧
      (m.step (statements settings n scope last ss)).2.SameState
        (m'.step (statements settings n scope last ss)).2 := by
  have hruns : untraced.Runs .neither settings n n := runs_all untraced settings rfl
  have howns : (Matching.diagonal fun _ => True).owns scope scope := ⟨rfl, trivial⟩
  have hlast : untraced.Yield (.diagonal fun _ => True) last last :=
    ⟨Matching.alike_diagonal_iff.2 rfl, fun _ _ => trivial⟩
  exact step_sameState (hruns.inOrder howns hlast 0 ss) hm

/-! ## A program in two parts -/

theorem step_bind {α β : Type} {x : Eval α} {a : α} (h : m.step x = (.ok a, m')) (k : α → Eval β) :
    m.step (x >>= k) = m'.step (k a) := by
  have hbind : (x >>= k) m = EStateM.bind x k m := rfl
  unfold Machine.step at h ⊢
  rw [hbind]
  unfold EStateM.bind
  generalize x m = r at h ⊢
  cases r with
  | ok b m₁ =>
    cases h
    rfl
  | error e m₁ => cases h

theorem step_bind_error {α β : Type} {x : Eval α} {e : Halt} (h : m.step x = (.error e, m')) (k : α → Eval β) :
    m.step (x >>= k) = (.error e, m') := by
  have hbind : (x >>= k) m = EStateM.bind x k m := rfl
  unfold Machine.step at h ⊢
  rw [hbind]
  unfold EStateM.bind
  generalize x m = r at h ⊢
  cases r with
  | ok b m₁ => cases h
  | error e₁ m₁ =>
    cases h
    rfl

/-- What goes on came from a value. -/
theorem exists_of_step_bind {α β : Type} {x : Eval α} {k : α → Eval β} {b : β}
    (h : m.step (x >>= k) = (.ok b, m')) : ∃ a m₁, m.step x = (.ok a, m₁) ∧ m₁.step (k a) = (.ok b, m') := by
  cases hx : m.step x with
  | mk r m₁ =>
    cases r with
    | ok a => exact ⟨a, m₁, rfl, (step_bind hx k).symm.trans h⟩
    | error e =>
      rw [step_bind_error hx] at h
      cases h

/-- What is recorded without fail changes nothing but the trace. -/
theorem step_note_bind (settings : Settings) (level : Nat) {event : Unit → Except Fault TraceEvent}
    {e : TraceEvent} (hevent : event () = .ok e) (m : Machine) :
    ∃ m', m.SameState m' ∧ ∀ {α : Type} (k : Unit → Eval α),
      m.step (Eval.note settings level event >>= k) = m'.step (k ()) := by
  unfold Eval.note
  by_cases hlevel : (level : Int) ≤ settings.traceLevel
  · rw [if_pos hlevel, hevent]
    exact ⟨⟨m.heap, m.output, m.trace.push e⟩, ⟨rfl, rfl⟩, fun _ => rfl⟩
  · rw [if_neg hlevel]
    exact ⟨m, ⟨rfl, rfl⟩, fun _ => rfl⟩

/-- What a program does with the value of its statements. -/
def finish (settings : Settings) (v : Value) : Eval Value := do
  Eval.note settings 1 fun _ => return .finished (← v.unwrap.text)
  return v.unwrap

/-- A program finishes unless the text of its value is to be recorded and there is none. -/
theorem step_finish (settings : Settings) (text : Except Fault String) :
    (∀ (v : Value) (m : Machine), v.unwrap.text = text →
      ∃ m', m.SameState m' ∧ m.step (finish settings v) = (.ok v.unwrap, m')) ∨
    ∃ f, text = .error f ∧ ∀ (v : Value) (m : Machine), v.unwrap.text = text →
      m.step (finish settings v) = (.error (.fault f), m) := by
  unfold finish Eval.note
  by_cases hlevel : ((1 : Nat) : Int) ≤ settings.traceLevel
  · cases text with
    | ok text =>
      left
      intro v m htext
      rw [if_pos hlevel, htext]
      exact ⟨⟨m.heap, m.output, m.trace.push (.finished text)⟩, ⟨rfl, rfl⟩, rfl⟩
    | error f =>
      right
      refine ⟨f, rfl, ?_⟩
      intro v m htext
      rw [if_pos hlevel, htext]
      rfl
  · left
    intro v m _
    rw [if_neg hlevel]
    exact ⟨m, ⟨rfl, rfl⟩, rfl⟩

/-- A program runs its statements and finishes. -/
theorem step_runProgram (settings : Settings) (n : Nat) (scope : ScopeId) (p : Program) (m : Machine) :
    ∃ m', m.SameState m' ∧ m.step (runProgram settings n scope p) =
      m'.step (statements settings n scope .null p.statements >>= finish settings) := by
  -- the length of a program can always be written, so only the note at the end can fail
  let event : Unit → Except Fault TraceEvent := fun _ => return .started p.statements.length
  have hprogram : runProgram settings n scope p = Eval.note settings 1 event >>= fun _ =>
      statements settings n scope .null p.statements >>= finish settings := by
    unfold runProgram evalProgram finish
    simp only [bind_assoc, pure_bind]
    rfl
  obtain ⟨m', hm, hstep⟩ := step_note_bind settings 1 (rfl : event () = .ok _) m
  exact ⟨m', hm, by rw [hprogram, hstep]⟩

/-- Statements in two rows: the second is run unless the first ends with a signal. -/
theorem inOrder_append (run : Stmt → Eval Value) {last : Value} (hlast : last.isSignal = false)
    (ss ss' : List Stmt) :
    Rule.inOrder run last (ss ++ ss') =
      Rule.inOrder run last ss >>= fun v => if v.isSignal then pure v else Rule.inOrder run v ss' := by
  induction ss generalizing last with
  | nil =>
    show _ = if last.isSignal then pure last else Rule.inOrder run last ss'
    rw [hlast, if_neg Bool.false_ne_true]
    rfl
  | cons s ss ih =>
    rw [inOrder_cons_bind]
    show (run s >>= fun v => if v.isSignal then pure v else Rule.inOrder run v (ss ++ ss')) = _
    congr 1
    funext v
    cases hv : v.isSignal with
    | true => rfl
    | false => exact ih hv

end Programs

end ScriptLang
