import ScriptLang.Proofs.Eval.Invariant
import ScriptLang.Proofs.Eval.Locality
import ScriptLang.Proofs.Tree.Shaped

/-!
  A `for` loop is a `while` loop.

  The loop `for (init; test; update) body` does what the block `{ init while (test) { body update; } }`
  does.  The block makes one more scope in each round, in which it runs the body and the update; since
  nothing is declared there, it pads the chains of scopes and changes no name's meaning.  What the two
  loops leave behind corresponds up to such pads, also in functions that outlive the loop.

  A name may hold a `return` only in heaps that no program makes.  There the two differ: a loop drops the
  `return` that its first part or its update reads from such a name, and a block ends with it.
-/

namespace ScriptLang

/-- The block that a `for` loop stands for. -/
def forAsBlock (t : Token) (init : Option Stmt) (test update : Option Expr) (body : Block) : Stmt :=
  .block (.mk t (init.toList ++ [.whileLoop t (test.getD (.bool t true))
    (.mk t (.block body :: (update.map (.expr t)).toList))]))

/-! ## Runs with pads -/

/-- No name holds a `return` in the scopes with a property. -/
def Heap.ReturnFree (h : Heap) (P : ScopeId → Prop) : Prop :=
  ∀ id, P id → ∀ name b, h.binding? id name = some b → ∀ u, b.value ≠ .returned u

/-- Two runs in heaps that fit, the second with pads. -/
def padding : Correspondence where
  Heaps w h h' := h.Fits w h' ∧ h.ReturnFree fun a => ∃ a', w.owns a a'
  Traces _ _ := True
  Stored v := ∀ u, v ≠ .returned u
  stored_of_not_signal := by
    rintro _ hv u rfl
    cases hv
  stored_returned h := absurd rfl (h _)
  push _ _ := trivial
  alloc := by
    rintro w h h' a a' ⟨hfits, hfree⟩ hsees
    refine ⟨_, w.le_withScope _, ⟨hfits.alloc hsees, ?_⟩, Or.inr ⟨rfl, rfl⟩⟩
    rintro id ⟨id', howns | ⟨rfl, -⟩⟩ name b hb
    · rw [Heap.binding?_alloc] at hb
      exact hfree id ⟨id', howns⟩ name b hb
    · rw [Heap.binding?_alloc_new] at hb
      contradiction
  allocFunction := by
    rintro w h h' ⟨hfits, hfree⟩
    exact ⟨_, w.le_withFunction _, ⟨hfits.allocFunction, hfree⟩, Or.inr ⟨rfl, rfl⟩⟩
  define := by
    rintro w h h' a a' v v' ⟨hfits, hfree⟩ howns hv hstored name constant
    obtain ⟨hfits', halike⟩ := hfits.define howns hv name constant
    refine ⟨⟨hfits', fun id hid n b hb => ?_⟩, halike⟩
    rcases Heap.binding?_define hb with hold | ⟨-, rfl⟩
    · exact hfree id hid n b hold
    · exact hstored
  assign := by
    rintro w h h' a a' v v' ⟨hfits, hfree⟩ hsees hv hstored name
    obtain ⟨hfits', halike⟩ := hfits.assign hsees hv name
    refine ⟨⟨hfits', fun id hid n b hb => ?_⟩, halike⟩
    rcases Heap.binding?_assign hb with hold | rfl
    · exact hfree id hid n b hold
    · exact hstored
  get? := by
    rintro w h h' a a' ⟨hfits, hfree⟩ hsees name
    unfold Heap.get?
    have hfound := hfits.resolve? hsees name
    rcases Heap.rel_cases hfound with ⟨hr, hr'⟩ | ⟨⟨owner, b⟩, r', hr, hr', howns, hbound⟩
    · rw [hr, hr']
      exact .none
    · rw [hr, hr']
      exact .some ⟨hbound.2, hfree owner ⟨_, howns⟩ name b (Heap.resolve?_some hr)⟩

section Padding

open Correspondence

variable {slack : Slack} {w : Matching} {a a' : ScopeId} {v v' : Value} {α : Type}
  {Q : Matching → α → α → Prop} {settings : Settings} {f g depth : Nat}

/-- The traces may differ. -/
theorem note_padding (settings : Settings) (level : Nat) (e e' : TraceEvent) :
    padding.Related slack w (fun _ _ _ => True) (Eval.note settings level fun _ => return e)
      (Eval.note settings level fun _ => return e') := by
  intro w₁ _ m m' hm
  unfold Eval.note
  by_cases hlevel : (level : Int) ≤ settings.traceLevel
  · rw [if_pos hlevel, if_pos hlevel]
    exact .value (Matching.le_refl w₁) ⟨hm.heaps, hm.output, trivial⟩ trivial
  · rw [if_neg hlevel, if_neg hlevel]
    exact .value (Matching.le_refl w₁) hm trivial

/-- The second run makes a pad. -/
theorem pad_related {x : Eval α} {k : ScopeId → Eval α} (hsees : w.sees a a')
    (hnext : ∀ w' p, w ≤ w' → w'.sees a p → padding.Related slack w' Q x (k p)) :
    padding.Related slack w Q x (Eval.newScope (some a') >>= k) := by
  rintro w₁ hw m ⟨heap', output', trace'⟩ ⟨⟨hfits, hfree⟩, houtput, -⟩
  have hpad : w₁ ≤ w₁.withPad a heap'.scopes.size := w₁.le_withPad _ _
  have hrun := hnext _ heap'.scopes.size (w.le_trans hw hpad) (Or.inr ⟨rfl, rfl⟩)
  have hends := hrun _ (Matching.le_refl _) m ⟨(heap'.alloc (some a')).2, output', trace'⟩
    ⟨⟨hfits.pad (hw.sees hsees), hfree⟩, houtput, trivial⟩
  exact hends.earlier hpad

/-! ## Rounds -/

theorem inOrder_cons_bind (run : Stmt → Eval Value) (last : Value) (s : Stmt) (ss : List Stmt)
    (next : Value → Eval Value) :
    Rule.inOrder run last (s :: ss) >>= next =
      run s >>= fun v => if v.isSignal then next v else Rule.inOrder run v ss >>= next := by
  show (run s >>= fun v => if v.isSignal then pure v else Rule.inOrder run v ss) >>= next = _
  rw [bind_assoc]
  congr 1
  funext v
  split
  · exact pure_bind v next
  · rfl

theorem inOrder_singleton (run : Stmt → Eval Value) (last : Value) (s : Stmt) :
    Rule.inOrder run last [s] = run s := by
  show (run s >>= fun v => if v.isSignal then pure v else pure v) = run s
  simp only [ite_self, bind_pure]

theorem iteration_bind (kind : LoopKind) (x : Eval Value) (count : Nat) (next : Value → Eval Value) :
    Rule.iteration settings kind x count >>= next =
      (Eval.note settings 3 fun _ => return .iterated kind count) >>= fun _ => x >>= next :=
  bind_assoc _ _ _

/-- No value of an expression is a `return`. -/
theorem padding_isSignal (hv : padding.Answer w v v') : v.isSignal = v.isError := by
  cases v with
  | returned u =>
    rcases hv.2 with hstored | herror
    · exact absurd rfl (hstored u)
    · cases herror
  | int n | float x | bool b | str s | null | function f | error e => rfl

/-- One round: the body, then the update unless the body ended with a signal.  The second run has both in
    a block of its own.  `next` and `next'` are what the two loops do after the body, and `rest` and `rest'`
    the rounds to come. -/
theorem round_related {t : Token} {body : Block} {update : Option Expr} {rest rest' : Eval Value}
    {next next' afterUpdate : Value → Eval Value} (hruns : padding.Runs slack settings f g)
    (hsees : w.sees a a') (hstop : ∀ v, v.isSignal = true → next v = pure v)
    (hgo : ∀ v, v.isSignal = false →
      next v = update.elim (pure .null) (evalExpr settings f depth a) >>= afterUpdate)
    (herror : ∀ e, afterUpdate (.error e) = pure (.error e))
    (hupdated : ∀ v, v.isError = false → afterUpdate v = rest)
    (hstop' : ∀ v, v.isSignal = true → next' v = pure v) (hgo' : ∀ v, v.isSignal = false → next' v = rest')
    (hrest : ∀ w', w ≤ w' → padding.Yields slack w' rest rest') :
    padding.Yields slack w (evalBlock settings f depth a body >>= next)
      (evalBlock settings (g + 2) depth a' (.mk t (.block body :: (update.map (.expr t)).toList)) >>= next') := by
  have hblock : evalBlock settings (g + 2) depth a' (.mk t (.block body :: (update.map (.expr t)).toList)) >>= next' =
      Eval.newScope (some a') >>= fun p => Rule.inOrder (evalStmt settings (g + 1) depth p) .null
        (.block body :: (update.map (.expr t)).toList) >>= next' := bind_assoc _ _ _
  rw [hblock]
  -- the body and the update of the second run see what the first run sees, through the pad `p`
  refine pad_related hsees fun w₁ p hw₁ hpad => ?_
  rw [inOrder_cons_bind]
  refine Related.bind (hruns.block hpad depth body) fun w₂ v v' hw₂ hv => ?_
  rw [← hv.1.isSignal]
  cases hsignal : v.isSignal with
  | true =>
    rw [hstop v hsignal, if_pos rfl, hstop' v' (hv.1.isSignal ▸ hsignal)]
    exact Related.pure fun _ hw => hv.later hw
  | false =>
    rw [hgo v hsignal, if_neg Bool.false_ne_true]
    have hw₂' := w.le_trans hw₁ hw₂
    cases update with
    | none =>
      have hdone : Rule.inOrder (evalStmt settings (g + 1) depth p) v'
          ((none : Option Expr).map (Stmt.expr t)).toList >>= next' = next' v' := pure_bind v' next'
      rw [hdone, hgo' v' (hv.1.isSignal ▸ hsignal), Option.elim_none, pure_bind, hupdated .null rfl]
      exact hrest w₂ hw₂'
    | some e =>
      have hexpr : Rule.inOrder (evalStmt settings (g + 1) depth p) v' ((some e).map (Stmt.expr t)).toList >>= next' =
          evalExpr settings g depth p e >>= next' := by
        rw [show ((some e).map (Stmt.expr t)).toList = [Stmt.expr t e] from rfl, inOrder_singleton]
        rfl
      rw [hexpr]
      refine Related.bind (hruns.expr (hw₂.sees hpad) depth e) fun w₃ u u' hw₃ hu => ?_
      -- a loop goes on after a `return` of its update where a block stops, but there is none
      have hnext (herr : u.isError = false) : padding.Yields slack w₃ (afterUpdate u) (next' u') := by
        have hu' : u'.isSignal = false := by rw [← hu.1.isSignal, padding_isSignal hu, herr]
        rw [hupdated u herr, hgo' u' hu']
        exact hrest w₃ (w.le_trans hw₂' hw₃)
      cases u with
      | error err =>
        obtain rfl := hu.1.eq_of_error
        rw [herror, hstop' _ rfl]
        exact yields_plain trivial
      | int n | float x | bool b | str s | null | function c | returned r => exact hnext rfl

/-! ## Loops -/

/-- The induction is on the bound of the first loop. -/
theorem loops_related {t : Token} {body : Block} {update : Option Expr} {test test' : Eval Rule.Verdict}
    {n n' : Nat} (hruns : padding.Runs slack settings f g) (hn : slack.Allows n n') (hsees : w.sees a a')
    (htest : padding.Decides slack w test test') (count : Nat) :
    padding.Yields slack w
      (Rule.loop test (Rule.iteration settings .forLoop (evalBlock settings f depth a body))
        (update.elim (pure .null) (evalExpr settings f depth a)) n count)
      (Rule.loop test' (Rule.iteration settings .whileLoop
        (evalBlock settings (g + 2) depth a' (.mk t (.block body :: (update.map (.expr t)).toList))))
        (pure .null) n' count) := by
  induction n generalizing w n' count with
  | zero => exact related_zero hn fun h => by rw [h]; rfl
  | succ n ih =>
    cases n' with
    | zero => exact related_succ_zero hn
    | succ n' =>
      refine Decides.tested htest (fun _ => ⟨rfl, rfl⟩) fun w₁ hw₁ => ?_
      dsimp only
      rw [iteration_bind, iteration_bind]
      -- the two loops leave different lines in the trace
      refine (note_padding settings 3 _ _).bind fun w₂ _ _ hw₂ _ => ?_
      have hw₂' := w.le_trans hw₁ hw₂
      have hrest (w₃ : Matching) (hw₃ : w₂ ≤ w₃) :=
        have hw₃' := w.le_trans hw₂' hw₃
        ih hn.pred (hw₃'.sees hsees) (htest.later hw₃') (count + 1)
      refine round_related hruns (hw₂'.sees hsees) (fun v hv => if_pos hv)
        (fun v hv => if_neg (Bool.eq_false_iff.1 hv)) (fun _ => rfl) (fun v hv => ?_) (fun v hv => if_pos hv)
        (fun v hv => if_neg (Bool.eq_false_iff.1 hv)) hrest
      cases v with
      | error e => cases hv
      | int n | float x | bool b | str s | null | function c | returned r => rfl

/-- What may initialise a loop has no `return`. -/
theorem returnFree_of_opensLoop {s : Stmt} (hs : s.opensLoop = true) : s.ReturnFree := by
  cases s with
  | var t name d value | expr t value => trivial
  | const | function | ret | display | block | branch | whileLoop | doLoop | forLoop => cases hs

/-- A loop with the parts that it leaves out filled in. -/
theorem evalStmt_forLoop (settings : Settings) (f depth : Nat) (a : ScopeId) (t : Token) (init : Option Stmt)
    (test update : Option Expr) (body : Block) :
    evalStmt settings (f + 1) depth a (.forLoop t init test update body) =
      Eval.newScope (some a) >>= fun b =>
        Rule.unlessError (init.elim (pure .null) (evalStmt settings f depth b)) fun _ =>
          Rule.loop (test.elim (pure .goOn) fun e => Rule.verdict (evalExpr settings f depth b e))
            (Rule.iteration settings .forLoop (evalBlock settings f depth b body))
            (update.elim (pure .null) (evalExpr settings f depth b)) f 0 := by
  cases init <;> cases test <;> cases update <;> rfl

/-- The loop without its first part, and the last statement of the block. -/
theorem while_related {t : Token} {test update : Option Expr} {body : Block} (hloop : slack.Allows f (g + 2))
    (hround : slack.Allows f g) (hsees : w.sees a a') (last : Value) :
    padding.Yields slack w
      (Rule.loop (test.elim (pure .goOn) fun e => Rule.verdict (evalExpr settings f depth a e))
        (Rule.iteration settings .forLoop (evalBlock settings f depth a body))
        (update.elim (pure .null) (evalExpr settings f depth a)) f 0)
      (Rule.inOrder (evalStmt settings (g + 3) depth a') last [.whileLoop t (test.getD (.bool t true))
        (.mk t (.block body :: (update.map (.expr t)).toList))]) := by
  rw [inOrder_singleton]
  refine loops_related (runs_all padding settings hround) hloop hsees ?_ 0
  cases test with
  | none => exact decides_goOn
  | some e => exact Answers.verdict ((runs_all padding settings hloop).expr hsees depth e)

/-- The loop and its block, with bounds that allow for the levels that the block has more. -/
theorem forLoop_related {t : Token} {init : Option Stmt} {test update : Option Expr} {body : Block}
    (hinit : ∀ s ∈ init, s.opensLoop = true) (hfirst : slack.Allows f (g + 3)) (hloop : slack.Allows f (g + 2))
    (hround : slack.Allows f g) (hsees : w.sees a a') :
    padding.Yields slack w (evalStmt settings (f + 1) depth a (.forLoop t init test update body))
      (evalStmt settings (g + 5) depth a' (forAsBlock t init test update body)) := by
  rw [evalStmt_forLoop]
  refine (newScope_related hsees).bind fun w₁ b b' _ howns => ?_
  cases init with
  | none => exact while_related hloop hround (w₁.owns_sees howns) .null
  | some s =>
    have hopens := (runs_all padding settings hfirst).returnFree (returnFree_of_opensLoop (hinit s rfl))
      (w₁.owns_sees howns) (fun _ => howns) depth
    refine Related.bind hopens fun w₂ v v' hw₂ hv => ?_
    -- the loop looks for an error only, and the block for any signal
    have hsignal : v'.isSignal = v.isError := by rw [← hv.1.isSignal, padding_isSignal hv]
    cases v with
    | error err =>
      obtain rfl := hv.1.eq_of_error
      exact yields_plain trivial
    | int n | float x | bool b | str s | null | function c | returned r =>
      rw [if_neg (Bool.eq_false_iff.1 hsignal)]
      exact while_related hloop hround (w₂.owns_sees (hw₂.owns howns)) v'

end Padding

/-! ## The whole -/

/-- Results that belong together: values that are alike, or the same fault. -/
inductive Matching.SameResult (w : Matching) : Except Halt Value → Except Halt Value → Prop
  | value {v v' : Value} : w.Alike v v' → w.SameResult (.ok v) (.ok v')
  | halt {h : Halt} : w.SameResult (.error h) (.error h)

theorem Matching.SameResult.error_iff {w : Matching} {r r' : Except Halt Value} (h : w.SameResult r r')
    (e : Halt) : r = .error e ↔ r' = .error e := by
  cases h with
  | value _ => exact ⟨nofun, nofun⟩
  | halt => exact Iff.rfl

/-- Two ends of runs from one heap that are the same up to pads and up to the numbers of what was made.
    The scopes with a property correspond to themselves; the others are as they were. -/
structure PaddedEnd (w : Matching) (h₀ : Heap) (P : ScopeId → Prop) (r r' : Except Halt Value × Machine) :
    Prop where
  start : .shared P h₀.functions h₀.functions ≤ w
  result : w.SameResult r.1 r'.1
  output : r.2.output = r'.2.output
  fits : r.2.heap.Fits w r'.2.heap
  bindings : ∀ id, P id → ∀ name, Option.Rel w.Bound (r.2.heap.binding? id name) (r'.2.heap.binding? id name)
  untouched : ∀ id, id < h₀.scopes.size → ¬ P id →
    r.2.heap.scopes[id]? = h₀.scopes[id]? ∧ r'.2.heap.scopes[id]? = h₀.scopes[id]?

section Ends

variable {m : Machine} {P : ScopeId → Prop} {scope : ScopeId} {settings : Settings} {depth : Nat} {t : Token}
  {init : Option Stmt} {test update : Option Expr} {body : Block}

/-- At the start every scope and every function belongs to itself, and there are no pads. -/
theorem padding_start (hsound : m.heap.Sound P) (hfree : m.heap.ReturnFree P) :
    padding.Machines (.shared P m.heap.functions m.heap.functions) m m := by
  refine ⟨⟨hsound.fits hsound fun _ _ => ⟨rfl, fun _ => rfl⟩, ?_⟩, rfl, trivial⟩
  rintro id ⟨_, -, hid⟩
  exact hfree id hid

theorem paddedEnd_of_machines {w : Matching} {h₀ : Heap} {m₁ m₁' : Machine} {r r' : Except Halt Value}
    (hm : padding.Machines w m₁ m₁') (hstart : .shared P h₀.functions h₀.functions ≤ w) (hr : w.SameResult r r')
    (huntouched : ∀ id, id < h₀.scopes.size → ¬ P id →
      m₁.heap.scopes[id]? = h₀.scopes[id]? ∧ m₁'.heap.scopes[id]? = h₀.scopes[id]?) :
    PaddedEnd w h₀ P (r, m₁) (r', m₁') := by
  obtain ⟨hfits, -⟩ := hm.heaps
  exact ⟨hstart, hr, hm.output, hfits, fun _ hid => hfits.bindings (hstart.owns ⟨rfl, hid⟩), huntouched⟩

/-- Runs that correspond end so, unless the run that may be cut off alone is. -/
theorem step_paddedEnd {slack : Slack} {x y : Eval Value} {w : Matching}
    (hxy : padding.Yields slack w x y) (hm : padding.Machines w m m)
    (hstart : .shared P m.heap.functions m.heap.functions ≤ w)
    (hfirst : slack = .first → (m.step x).1 ≠ .error .outOfFuel)
    (hsecond : slack = .second → (m.step y).1 ≠ .error .outOfFuel)
    (huntouched : ∀ id, id < m.heap.scopes.size → ¬ P id →
      (m.step x).2.heap.scopes[id]? = m.heap.scopes[id]? ∧ (m.step y).2.heap.scopes[id]? = m.heap.scopes[id]?) :
    ∃ w', PaddedEnd w' m.heap P (m.step x) (m.step y) := by
  have hends := hxy w (Matching.le_refl w) m m hm
  unfold Machine.step at hfirst hsecond huntouched ⊢
  generalize x m = r at hends hfirst huntouched ⊢
  generalize y m = r' at hends hsecond huntouched ⊢
  cases hends with
  | value hw hm₁ hv =>
    exact ⟨_, paddedEnd_of_machines hm₁ (Matching.le_trans hstart hw) (.value hv.1) huntouched⟩
  | halt hw hm₁ => exact ⟨_, paddedEnd_of_machines hm₁ (Matching.le_trans hstart hw) .halt huntouched⟩
  | firstCut hs => exact absurd rfl (hfirst hs)
  | secondCut hs => exact absurd rfl (hsecond hs)

/-- A statement leaves the scopes outside a sound set alone, if it is run in one inside. -/
theorem stmt_untouched (hsound : m.heap.Sound P) (hscope : P scope) (fuel : Nat) (s : Stmt) {id : ScopeId}
    (hlt : id < m.heap.scopes.size) (hid : ¬ P id) :
    (m.step (evalStmt settings fuel depth scope s)).2.heap.scopes[id]? = m.heap.scopes[id]? := by
  have hruns := Discipline.runs_all (confinement m.heap (m.heap.Reaches (· = scope))) settings fuel
  refine step_untouched (hruns.stmt (Or.inl (.root rfl)) depth s) hlt fun hreach => hid ?_
  refine hsound.reached ?_ hreach
  rintro _ rfl
  exact hscope

/-- The loop and its block with bounds of which one is large enough for the other. -/
theorem forLoop_paddedEnd {slack : Slack} {f g : Nat} (hsound : m.heap.Sound P) (hscope : P scope)
    (hfree : m.heap.ReturnFree P) (hinit : ∀ s ∈ init, s.opensLoop = true) (hfirst : slack.Allows f (g + 3))
    (hloop : slack.Allows f (g + 2)) (hround : slack.Allows f g)
    (hcut : slack = .first →
      (m.step (evalStmt settings (f + 1) depth scope (.forLoop t init test update body))).1 ≠ .error .outOfFuel)
    (hcut' : slack = .second →
      (m.step (evalStmt settings (g + 5) depth scope (forAsBlock t init test update body))).1 ≠ .error .outOfFuel) :
    ∃ w, PaddedEnd w m.heap P (m.step (evalStmt settings (f + 1) depth scope (.forLoop t init test update body)))
      (m.step (evalStmt settings (g + 5) depth scope (forAsBlock t init test update body))) := by
  have hsees : (Matching.shared P m.heap.functions m.heap.functions).sees scope scope := ⟨rfl, hscope⟩
  refine step_paddedEnd (forLoop_related hinit hfirst hloop hround hsees) (padding_start hsound hfree)
    (Matching.le_refl _) hcut hcut' fun id hlt hid => ⟨?_, ?_⟩
  · exact stmt_untouched hsound hscope _ _ hlt hid
  · exact stmt_untouched hsound hscope _ _ hlt hid

/-- If the loop ends, so does the block. -/
theorem block_ends (hsound : m.heap.Sound P) (hscope : P scope) (hfree : m.heap.ReturnFree P)
    (hinit : ∀ s ∈ init, s.opensLoop = true) {r : Except Halt Value × Machine}
    (hr : EndsAs (fun n => evalStmt settings n depth scope (.forLoop t init test update body)) m r) :
    ∃ r', EndsAs (fun n => evalStmt settings n depth scope (forAsBlock t init test update body)) m r' ∧
      ∃ w, PaddedEnd w m.heap P r r' := by
  obtain ⟨hne, bound, hbound⟩ := hr
  obtain rfl := hbound (bound + 1) (Nat.le_succ bound)
  have hle (k : Nat) : Slack.first.Allows bound (bound + k) := Nat.le_add_right bound k
  obtain ⟨w, hend⟩ := forLoop_paddedEnd hsound hscope hfree hinit (hle 3) (hle 2) (hle 0) (fun _ => hne) nofun
  exact ⟨_, stmt_endsAs (mt (hend.result.error_iff _).2 hne), w, hend⟩

/-- If the block ends, so does the loop. -/
theorem forLoop_ends (hsound : m.heap.Sound P) (hscope : P scope) (hfree : m.heap.ReturnFree P)
    (hinit : ∀ s ∈ init, s.opensLoop = true) {r' : Except Halt Value × Machine}
    (hr' : EndsAs (fun n => evalStmt settings n depth scope (forAsBlock t init test update body)) m r') :
    ∃ r, EndsAs (fun n => evalStmt settings n depth scope (.forLoop t init test update body)) m r := by
  obtain ⟨hne, bound, hbound⟩ := hr'
  -- the block runs its loop three levels deeper, and a bound that is enough for it is enough here
  obtain rfl := hbound (bound + 5) (Nat.le_add_right bound 5)
  have hle (k : Nat) (hk : k ≤ 3) : Slack.second.Allows (bound + 3) (bound + k) := Nat.add_le_add_left hk bound
  obtain ⟨w, hend⟩ := forLoop_paddedEnd hsound hscope hfree hinit (hle 3 (by decide)) (hle 2 (by decide))
    (hle 0 (by decide)) nofun fun _ => hne
  exact ⟨_, stmt_endsAs (mt (hend.result.error_iff _).1 hne)⟩

end Ends

/-- A `for` loop is the block that it stands for, in every heap in which no name holds a `return`: if one of
    the two ends, so does the other, with the same output, with values that are alike, and with bindings that
    are alike in every scope there was before. -/
theorem forLoop_as_block {m : Machine} {P : ScopeId → Prop} {scope : ScopeId} (hsound : m.heap.Sound P)
    (hscope : P scope) (hfree : m.heap.ReturnFree P) {init : Option Stmt}
    (hinit : ∀ s ∈ init, s.opensLoop = true) (settings : Settings) (depth : Nat) (t : Token)
    (test update : Option Expr) (body : Block) :
    ((∃ r, EndsAs (fun n => evalStmt settings n depth scope (.forLoop t init test update body)) m r) ↔
      ∃ r', EndsAs (fun n => evalStmt settings n depth scope (forAsBlock t init test update body)) m r') ∧
    ∀ r r', EndsAs (fun n => evalStmt settings n depth scope (.forLoop t init test update body)) m r →
      EndsAs (fun n => evalStmt settings n depth scope (forAsBlock t init test update body)) m r' →
      ∃ w, PaddedEnd w m.heap P r r' := by
  refine ⟨⟨?_, ?_⟩, fun r r' hr hr' => ?_⟩
  · rintro ⟨r, hr⟩
    obtain ⟨r', hr', -⟩ := block_ends hsound hscope hfree hinit hr
    exact ⟨r', hr'⟩
  · rintro ⟨r', hr'⟩
    exact forLoop_ends hsound hscope hfree hinit hr'
  · obtain ⟨r'', hr'', hend⟩ := block_ends hsound hscope hfree hinit hr
    rw [hr'.unique hr'']
    exact hend

theorem stmt_endsAs_of_value {m : Machine} {settings : Settings} {fuel depth : Nat} {scope : ScopeId} {s : Stmt}
    (hvalue : (m.step (evalStmt settings fuel depth scope s)).1.toOption.isSome = true) :
    EndsAs (fun n => evalStmt settings n depth scope s) m (m.step (evalStmt settings fuel depth scope s)) := by
  refine stmt_endsAs fun hcut => ?_
  rw [hcut] at hvalue
  cases hvalue

/-- A root scope with one variable that holds no function. -/
theorem sound_variable (name : String) {v : Value} (hv : v.closure? = none) :
    (Machine.fresh.heap.define 0 name v false).2.Sound (· = 0) := by
  refine Heap.sound_lone ?_ ?_ fun n b hb => ?_
  · rw [Heap.size_define]
    exact Nat.zero_lt_one
  · rw [Heap.outer?_define]
    rfl
  · rcases Heap.binding?_define hb with hold | ⟨-, rfl⟩
    · cases hold
    · exact hv

/-- `for (var i = 0; i < 2; i++) { k = fn(): int { return i; }; }`: the function that is left in `k` was made
    in scopes of different numbers. -/
theorem forLoop_as_block_escaping :
    let t : Token := ⟨.ident, "", 1, 1⟩
    let i : Name := ⟨t, "i"⟩
    let inner : Block := .mk t [.ret t (some (.name i))]
    let init : Stmt := .var t i none (some (.int t 0))
    let test : Expr := .binary t (.name i) "<" (.int t 2)
    let update : Expr := .after t (.name i) "++"
    let body : Block := .mk t [.expr t (.assign t ⟨t, "k"⟩ (.function t [] ⟨t, "int"⟩ inner))]
    let loop : Stmt := .forLoop t (some init) (some test) (some update) body
    let block : Stmt := forAsBlock t (some init) (some test) (some update) body
    let m : Machine := ⟨(Machine.fresh.heap.define 0 "k" .null false).2, "", #[]⟩
    m.heap.Sound (· = 0) ∧ m.heap.ReturnFree (· = 0) ∧ (∀ s ∈ some init, s.opensLoop = true) ∧
    ∃ r r', EndsAs (fun n => evalStmt {} n 0 0 loop) m r ∧ EndsAs (fun n => evalStmt {} n 0 0 block) m r' ∧
      (∃ w, PaddedEnd w m.heap (· = 0) r r') ∧
      ((r.2.heap.get? 0 "k").bind Value.closure?).map Closure.scope = some 3 ∧
      ((r'.2.heap.get? 0 "k").bind Value.closure?).map Closure.scope = some 5 := by
  intro t i inner init test update body loop block m
  have hsound : m.heap.Sound (· = 0) := sound_variable "k" rfl
  have hfree : m.heap.ReturnFree (· = 0) := by
    rintro _ rfl name b hb u
    rcases Heap.binding?_define hb with hold | ⟨-, rfl⟩
    · cases hold
    · exact nofun
  have hinit : ∀ s ∈ some init, s.opensLoop = true := by
    rintro _ ⟨⟩
    rfl
  have hr : EndsAs (fun n => evalStmt {} n 0 0 loop) m (m.step (evalStmt {} 20 0 0 loop)) :=
    stmt_endsAs_of_value (by decide +kernel)
  have hr' : EndsAs (fun n => evalStmt {} n 0 0 block) m (m.step (evalStmt {} 20 0 0 block)) :=
    stmt_endsAs_of_value (by decide +kernel)
  have hk : (((m.step (evalStmt {} 20 0 0 loop)).2.heap.get? 0 "k").bind Value.closure?).map Closure.scope =
    some 3 := by decide +kernel
  have hk' : (((m.step (evalStmt {} 20 0 0 block)).2.heap.get? 0 "k").bind Value.closure?).map Closure.scope =
    some 5 := by decide +kernel
  have hends := (forLoop_as_block hsound rfl hfree hinit {} 0 t (some test) (some update) body).2 _ _ hr hr'
  exact ⟨hsound, hfree, hinit, _, _, hr, hr', hends, hk, hk'⟩

/-- `for (x; false;) { }` where `x` holds a `return`: the loop drops it and the block ends with it. -/
theorem forLoop_drops_return :
    let t : Token := ⟨.ident, "", 1, 1⟩
    let init : Stmt := .expr t (.name ⟨t, "x"⟩)
    let loop : Stmt := .forLoop t (some init) (some (.bool t false)) none (.mk t [])
    let block : Stmt := forAsBlock t (some init) (some (.bool t false)) none (.mk t [])
    let m : Machine := ⟨(Machine.fresh.heap.define 0 "x" (.returned (.int 1)) false).2, "", #[]⟩
    m.heap.Sound (· = 0) ∧ init.opensLoop = true ∧
    ∃ r r', EndsAs (fun n => evalStmt {} n 0 0 loop) m r ∧ EndsAs (fun n => evalStmt {} n 0 0 block) m r' ∧
      r.1 = .ok .null ∧ r'.1 = .ok (.returned (.int 1)) ∧ ∀ w, ¬ PaddedEnd w m.heap (· = 0) r r' := by
  intro t init loop block m
  have hloop : (m.step (evalStmt {} 20 0 0 loop)).1 = .ok .null := rfl
  have hblock : (m.step (evalStmt {} 20 0 0 block)).1 = .ok (.returned (.int 1)) := rfl
  have hr : EndsAs (fun n => evalStmt {} n 0 0 loop) m (m.step (evalStmt {} 20 0 0 loop)) :=
    stmt_endsAs_of_value (by rw [hloop]; rfl)
  have hr' : EndsAs (fun n => evalStmt {} n 0 0 block) m (m.step (evalStmt {} 20 0 0 block)) :=
    stmt_endsAs_of_value (by rw [hblock]; rfl)
  refine ⟨sound_variable "x" rfl, rfl, _, _, hr, hr', hloop, hblock, fun w hend => ?_⟩
  have hresult := hend.result
  rw [hloop, hblock] at hresult
  cases hresult with
  | value hv => cases hv

end ScriptLang
