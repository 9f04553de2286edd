import ScriptLang.Proofs.Eval.ForLoop

/-!
  A loop with its test behind is its body and then a loop with its test in front.

  Both make the same steps in the same order, body and test by turns, and a signal of the body, an error of
  the test or a test that does not hold ends both in the same place.  They differ in where a round begins:
  with the body or with the test.  So within one bound on the number of rounds the second can go on for
  one step where the first is cut off, and each does what the other does if its bound is the larger one.
-/

namespace ScriptLang

open Correspondence

/-- The bounds on rounds of a loop with its test behind and of one with its test in front that comes after
    a run of the body. -/
def Slack.AllowsBehind : Slack → Nat → Nat → Prop
  | .neither, _, _ => False
  | .first, n, n' => n ≤ n'
  | .second, n, n' => n' < n

theorem Slack.AllowsBehind.allows {slack : Slack} {n n' : Nat} (h : slack.AllowsBehind n n') :
    slack.Allows n n' := by
  cases slack with
  | neither => exact h.elim
  | first => exact h
  | second => exact Nat.le_of_lt h

theorem Slack.AllowsBehind.pred {slack : Slack} {n n' : Nat} (h : slack.AllowsBehind (n + 1) (n' + 1)) :
    slack.AllowsBehind n n' := by
  cases slack with
  | neither => exact h
  | first => exact Nat.le_of_succ_le_succ h
  | second => exact Nat.lt_of_succ_lt_succ h

/-- The body of a loop with its test behind, and then the loop with the test in front. -/
def doAsRow (t : Token) (body : Block) (test : Expr) : List Stmt := [.block body, .whileLoop t test body]

section Rounds

variable {C : Correspondence} {slack : Slack} {w : Matching}
  {test test' : Eval Rule.Verdict} {body body' : Nat → Eval Value}

/-- The induction is on the bound of the first loop.  The body that begins the second run is that of the
    round before. -/
theorem loopAfter_yields {n n' : Nat}
    (hbody : ∀ k k', C.Yields slack w (body k) (body' k')) (htest : C.Decides slack w test test')
    (hn : slack.AllowsBehind n n') (count count' : Nat) :
    C.Yields slack w (Rule.loopAfter body test n count)
      (body' count' >>= fun v => if v.isSignal then pure v else
        Rule.loop test' body' (pure .null) n' count') := by
  induction n generalizing w n' count count' with
  | zero =>
    cases slack with
    | neither => exact hn.elim
    | first => exact fun _ _ _ _ _ => .firstCut rfl
    | second => exact absurd hn (Nat.not_lt_zero n')
  | succ n ih =>
    refine Related.bind (hbody (count + 1) count') fun w₁ v v' hw₁ hv => ?_
    refine Related.ite (by rw [hv.1.isSignal]) (Related.pure fun _ hw₂ => hv.later hw₂) ?_
    cases n' with
    | zero => exact related_succ_zero hn.allows
    | succ n' =>
      have htest₁ : C.Decides slack w₁ test test' := Related.later htest hw₁
      refine htest₁.tested (fun _ => ⟨rfl, rfl⟩) fun w₂ hw₂ => ?_
      have hw₂' := w.le_trans hw₁ hw₂
      exact ih (fun k k' => (hbody k k').later hw₂') (Related.later htest hw₂') hn.pred (count + 1) (count' + 1)

end Rounds

section Rows

variable {settings : Settings} {depth : Nat} {scope : ScopeId} {m : Machine} {t t' : Token} {body : Block}
  {test : Expr}

/-- Below the third level of detail the rounds of a loop are not recorded. -/
theorem iteration_of_lt (hlevel : settings.traceLevel < 3) (kind : LoopKind) (x : Eval Value) (count : Nat) :
    Rule.iteration settings kind x count = x := by
  have hnone : ¬ ((3 : Nat) : Int) ≤ settings.traceLevel := Int.not_le.2 hlevel
  unfold Rule.iteration Eval.note
  rw [if_neg hnone]
  rfl

/-- Statements in order that are run to their end end in the same way with any larger bound. -/
theorem inOrder_endsAs {fuel : Nat} {ss : List Stmt}
    (hend : (m.step (Rule.inOrder (evalStmt settings fuel depth scope) .null ss)).1 ≠ .error .outOfFuel) :
    EndsAs (fun n => Rule.inOrder (evalStmt settings n depth scope) .null ss) m
      (m.step (Rule.inOrder (evalStmt settings fuel depth scope) .null ss)) := by
  refine ⟨hend, fuel, fun n hn => ?_⟩
  have hruns : Invariant.always.correspondence.Runs .first settings fuel n := runs_all _ settings hn
  have howns : (Matching.diagonal fun _ => True).owns scope scope := ⟨rfl, trivial⟩
  have hnull : Value.null.Plain := trivial
  exact step_eq_of_not_cut (hruns.inOrder howns (answer_plain hnull).yield depth ss) hend

/-- The loop and its row, with bounds of which one is large enough for the other. -/
theorem doLoop_yields {slack : Slack} {f g : Nat} (hlevel : settings.traceLevel < 3)
    (hfg : slack.AllowsBehind f g) :
    Invariant.always.correspondence.Yields slack (.diagonal fun _ => True)
      (evalStmt settings (f + 1) depth scope (.doLoop t body test))
      (Rule.inOrder (evalStmt settings (g + 1) depth scope) .null (doAsRow t' body test)) := by
  have hruns : Invariant.always.correspondence.Runs slack settings f g := runs_all _ settings hfg.allows
  have htest : Invariant.always.correspondence.Answers slack (.diagonal fun _ => True)
      (evalExpr settings f depth scope test) (evalExpr settings g depth scope test) := hruns.expr rfl depth test
  have hround (k k' : Nat) : Invariant.always.correspondence.Yields slack (.diagonal fun _ => True)
      (Rule.iteration settings .doLoop (evalBlock settings f depth scope body) k)
      (Rule.iteration settings .whileLoop (evalBlock settings g depth scope body) k') := by
    rw [iteration_of_lt hlevel, iteration_of_lt hlevel]
    exact hruns.block rfl depth body
  have hloops := loopAfter_yields hround htest.verdict hfg 0 0
  rw [iteration_of_lt hlevel] at hloops
  have hrow : Rule.inOrder (evalStmt settings (g + 1) depth scope) .null (doAsRow t' body test) =
      evalBlock settings g depth scope body >>= fun v => if v.isSignal then pure v else
        evalStmt settings (g + 1) depth scope (.whileLoop t' test body) := by
    show (evalBlock settings g depth scope body >>= fun v => if v.isSignal then pure v else
      Rule.inOrder _ v [.whileLoop t' test body]) = _
    simp only [inOrder_singleton]
  rw [hrow]
  exact hloops

/-- If the loop ends, its row ends in the same way. -/
theorem row_ends (hlevel : settings.traceLevel < 3) {r : Except Halt Value × Machine}
    (hr : EndsAs (fun n => evalStmt settings n depth scope (.doLoop t body test)) m r) :
    EndsAs (fun n => Rule.inOrder (evalStmt settings n depth scope) .null (doAsRow t' body test)) m r := by
  obtain ⟨hend, bound, hbound⟩ := hr
  obtain rfl := hbound (bound + 1) (Nat.le_succ bound)
  have hbounds : Slack.first.AllowsBehind bound bound := Nat.le_refl bound
  have hsame : m.step (evalStmt settings (bound + 1) depth scope (.doLoop t body test)) =
      m.step (Rule.inOrder (evalStmt settings (bound + 1) depth scope) .null (doAsRow t' body test)) :=
    step_eq_of_yields (doLoop_yields hlevel hbounds) (fun _ => hend) nofun
  dsimp only at hend ⊢
  rw [hsame] at hend ⊢
  exact inOrder_endsAs hend

/-- If the row ends, the loop ends in the same way. -/
theorem doLoop_ends (hlevel : settings.traceLevel < 3) {r : Except Halt Value × Machine}
    (hr : EndsAs (fun n => Rule.inOrder (evalStmt settings n depth scope) .null (doAsRow t' body test)) m r) :
    EndsAs (fun n => evalStmt settings n depth scope (.doLoop t body test)) m r := by
  obtain ⟨hend, bound, hbound⟩ := hr
  obtain rfl := hbound (bound + 1) (Nat.le_succ bound)
  -- the row may still find the test false where the loop has no round left
  have hbounds : Slack.second.AllowsBehind (bound + 1) bound := Nat.lt_succ_self bound
  have hsame : m.step (evalStmt settings (bound + 2) depth scope (.doLoop t body test)) =
      m.step (Rule.inOrder (evalStmt settings (bound + 1) depth scope) .null (doAsRow t' body test)) :=
    step_eq_of_yields (doLoop_yields hlevel hbounds) nofun fun _ => hend
  dsimp only at hend ⊢
  rw [← hsame] at hend ⊢
  exact stmt_endsAs hend

end Rows

/-- A loop with its test behind does what its body and then the loop with its test in front do, in every scope
    of every heap: one of them ends if and only if the other does, and then with the same value or fault, the
    same output and the same heap.  Not even the traces differ, unless they record the rounds of loops. -/
theorem doLoop_as_row {settings : Settings} (hlevel : settings.traceLevel < 3) (depth : Nat) (scope : ScopeId)
    (t t' : Token) (body : Block) (test : Expr) (m : Machine) (r : Except Halt Value × Machine) :
    EndsAs (fun n => evalStmt settings n depth scope (.doLoop t body test)) m r ↔
      EndsAs (fun n => Rule.inOrder (evalStmt settings n depth scope) .null (doAsRow t' body test)) m r :=
  ⟨row_ends hlevel, doLoop_ends hlevel⟩

/-- `do { display(i); i++; } while (i < 2);` and `{ display(i); i++; } while (i < 2) { display(i); i++; }`. -/
theorem doLoop_as_row_counting :
    let t : Token := ⟨.ident, "", 1, 1⟩
    let i : Expr := .name ⟨t, "i"⟩
    let body : Block := .mk t [.display t [i], .expr t (.after t i "++")]
    let test : Expr := .binary t i "<" (.int t 2)
    let m : Machine := ⟨(Machine.fresh.heap.define 0 "i" (.int 0) false).2, "", #[]⟩
    ({} : Settings).traceLevel < 3 ∧
    ∃ r, EndsAs (fun n => evalStmt {} n 0 0 (.doLoop t body test)) m r ∧
      EndsAs (fun n => Rule.inOrder (evalStmt {} n 0 0) .null (doAsRow t body test)) m r ∧
      r.2.output = "0\n1\n" := by
  intro t i body test m
  have hlevel : ({} : Settings).traceLevel < 3 := by decide
  have hr : EndsAs (fun n => evalStmt {} n 0 0 (.doLoop t body test)) m
      (m.step (evalStmt {} 20 0 0 (.doLoop t body test))) := stmt_endsAs_of_value (by decide +kernel)
  exact ⟨hlevel, _, hr, (doLoop_as_row hlevel 0 0 t t body test m _).1 hr, by decide +kernel⟩

end ScriptLang
