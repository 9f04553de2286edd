import ScriptLang.Proofs.Eval.Rule
import ScriptLang.Proofs.Eval.Watched
import ScriptLang.Proofs.Value.Family

/-!
  Several runs of one tree, step by step.

  One tree is run several times: with every level of tracing, with every limit on calls, with every watch,
  in two heaps, with two sets of tokens.  These runs make the same steps on the machine in the same order.
  A `Logic` is a property of such families of runs that the single steps have and that sequencing keeps.

  Specification: `Logic.covers`.  The runs of every expression, statement, block and call have the property, with
  values that belong together.

  Crux: every rule of the evaluator is a sequence of steps and of runs of parts, so each rule is gone through
  once, here, and the runs of all trees follow by induction on the bound.  What a logic has to bring along is
  about single steps only.  Two things are not for a logic to decide.  An error that a part comes to is passed
  on by all that is around it, without a change to the scopes or the output.  And what one run does with the
  values of its parts another run does with values that belong to them.
-/

namespace ScriptLang

variable {ι α β : Type}

/-! ## Errors in results -/

def Value.error? : Value → Option RuntimeError
  | .error e => some e
  | _ => none

theorem Value.eq_of_error? {v : Value} {e : RuntimeError} (h : v.error? = some e) : v = .error e := by
  cases v with
  | error e' =>
    cases h
    rfl
  | int n | float x | bool b | str s | null | function f | returned w => cases h

def Rule.Verdict.error? : Rule.Verdict → Option RuntimeError
  | .leave v => v.error?
  | .goOn => none

/-- The error in place of a list. -/
def listError? : Except RuntimeError (List α) → Option RuntimeError
  | .error e => some e
  | .ok _ => none

/-- The result of a step that has nothing to do with errors. -/
def noError? (_ : α) : Option RuntimeError := none

/-- The run ends with a result that has the error, and leaves scopes and output as they are. -/
def PassesOn (error? : α → Option RuntimeError) (e : RuntimeError) (x : Eval α) : Prop :=
  ∀ m, ∃ a m', x m = .ok a m' ∧ error? a = some e ∧ m'.Alike m

theorem PassesOn.pure {error? : α → Option RuntimeError} {e : RuntimeError} {a : α} (h : error? a = some e) :
    PassesOn error? e (Pure.pure a) :=
  fun m => ⟨a, m, rfl, h, rfl, rfl⟩

/-! ## Events -/

/-- Whether the event is a call or the return from one. -/
def TraceEvent.isCall : TraceEvent → Bool
  | called .. | returned .. => true
  | started .. | finished .. | declared .. | defined .. | branched .. | iterated .. => false

theorem TraceEvent.level_range (e : TraceEvent) : 1 ≤ e.level ∧ e.level ≤ 3 := by
  cases e <;> simp [level]

/-- The event belongs to a level, or there is none since some integer has too many digits. -/
def EventOf (level : Nat) (r : Except Fault TraceEvent) : Prop :=
  (∃ e, r = .ok e ∧ e.level = level) ∨ level ≤ 3 ∧ r = .error .textDigits

theorem event_of_text (v : Value) {make : String → TraceEvent} {level : Nat}
    (hmake : ∀ s, (make s).level = level) : EventOf level (do return make (← v.text)) := by
  rcases v.text_cases with ⟨s, hs⟩ | hs
  · rw [hs]
    exact Or.inl ⟨make s, rfl, hmake s⟩
  · rw [hs]
    have hlevel := (make "").level_range.2
    rw [hmake] at hlevel
    exact Or.inr ⟨hlevel, rfl⟩

theorem event_of_texts (vs : List Value) (name : String) :
    EventOf 2 (do return .called name (← Rule.texts vs)) := by
  rcases texts_cases vs with ⟨ss, hss⟩ | hss
  · rw [hss]
    exact Or.inl ⟨_, rfl, rfl⟩
  · rw [hss]
    exact Or.inr ⟨by decide, rfl⟩

/-! ## Logics -/

/-- A property of families of runs, with the facts about single steps that it rests on.  `Holds` takes
    what is known at the start, how errors are found in a result, and what is known of the results. -/
structure Steps (ι : Type) extends Frame ι where
  settings : ι → Settings
  watch : ι → Watch
  /-- By how much the bound of a run exceeds the least one. -/
  extra : ι → Nat
  /-- The events that may be recorded on their own. -/
  Records : TraceEvent → Prop
  records : ∀ {e}, e.isCall = false → 2 ≤ e.level → Records e
  Holds : {α : Type} → World → (α → Option RuntimeError) → (World → (ι → α) → Prop) → (ι → Eval α) → Prop
  later : ∀ {α : Type} {w w' : World} {error? : α → Option RuntimeError} {Q : World → (ι → α) → Prop}
    {x : ι → Eval α}, Holds w error? Q x → Later w w' → Holds w' error? Q x
  result : ∀ {α : Type} {w : World} {error? : α → Option RuntimeError} {Q : World → (ι → α) → Prop}
    {a : ι → α}, (∀ w', Later w w' → Q w' a) → Holds w error? Q fun i => pure (a i)
  /-- An error that the first part comes to is passed on by the rest. -/
  chain : ∀ {α β : Type} {w : World} {error? : α → Option RuntimeError} {error?' : β → Option RuntimeError}
    {P : World → (ι → α) → Prop} {Q : World → (ι → β) → Prop} {x : ι → Eval α} {next : ι → α → Eval β},
    Holds w error? P x → (∀ w' a, Later w w' → P w' a → Holds w' error?' Q fun i => next i (a i)) →
    (∀ i a e, error? a = some e → PassesOn error?' e (next i a)) →
    Holds w error?' Q fun i => x i >>= next i
  newScope : ∀ {w error? scope}, Sees w scope → Holds w error? Owns fun i => Eval.newScope (some (scope i))
  newFunction : ∀ {w error?}, Holds w error? Same fun _ => Eval.newFunction
  lookup? : ∀ {w error? scope}, Sees w scope → ∀ name,
    Holds w error? toFrame.Found fun i => Eval.lookup? (scope i) name
  define : ∀ {w error? scope v}, Owns w scope → toFrame.Kept w v → ∀ name constant,
    Holds w error? (toFrame.Outcome false) fun i => Eval.define (scope i) name (v i) constant
  assign : ∀ {w error? scope v}, Sees w scope → toFrame.Kept w v → ∀ name,
    Holds w error? (toFrame.Outcome false) fun i => Eval.assign (scope i) name (v i)
  print : ∀ {w error?} line, Holds w error? (fun _ _ => True) fun _ => Eval.print line
  ofExcept : ∀ {α : Type} {w : World} {error? : α → Option RuntimeError} {r : Except Fault α},
    (∀ f, r = .error f → features.Faults f) →
    Holds w error? (fun _ a => ∃ b, a = (fun _ => b) ∧ r = .ok b) fun _ => Eval.ofExcept r
  note : ∀ {w error? level event}, EventOf level event → (∀ e, event = .ok e → Records e) →
    Holds w error? (fun _ _ => True) fun i => Eval.note (settings i) level fun _ => event
  /-- A run is cut off in a loop, or where the budget does not do. -/
  cut : ∀ {α : Type} {w : World} {error? : α → Option RuntimeError} {Q : World → (ι → α) → Prop}
    {x : ι → Eval α}, (∀ i, extra i = 0 → x i = Eval.outOfFuel) →
    (features.loops = true ∨ ∃ depth height, budget.Enough 0 depth (height + 1)) → Holds w error? Q x
  seen : ∀ {returns w x}, Holds w Value.error? (toFrame.Outcome returns) x →
    Holds w Value.error? (toFrame.Outcome returns) fun i => Watched.seen (watch i) (x i)

namespace Steps

variable {S : Steps ι} {w : S.World} {returns : Bool}

/-- Runs of a statement; it may end with a `return` if `returns` allows for one. -/
abbrev Outcomes (S : Steps ι) (returns : Bool) (w : S.World) (x : ι → Eval Value) : Prop :=
  S.Holds w Value.error? (S.Outcome returns) x

/-- Runs of an expression or a call. -/
abbrev Answers (S : Steps ι) (w : S.World) (x : ι → Eval Value) : Prop := S.Outcomes false w x

/-- Runs of the test of a loop. -/
abbrev Decides (S : Steps ι) (w : S.World) (test : ι → Eval Rule.Verdict) : Prop :=
  S.Holds w Rule.Verdict.error? S.Decided test

/-- Lists of what belongs together, or the same error. -/
inductive Listed (P : (ι → α) → Prop) : (ι → Except RuntimeError (List α)) → Prop
  | error (e : RuntimeError) : Listed P fun _ => .error e
  | ok {as : ι → List α} : Aligned P as → Listed P fun i => .ok (as i)

/-- Runs of a list of expressions. -/
abbrev Collects (S : Steps ι) (P : S.World → (ι → α) → Prop) (w : S.World)
    (x : ι → Eval (Except RuntimeError (List α))) : Prop :=
  S.Holds w listError? (fun w => Listed (P w)) x

/-! ## Sequencing -/

section Sequencing

variable {error? : β → Option RuntimeError} {P : S.World → (ι → α) → Prop} {Q : S.World → (ι → β) → Prop}

/-- A step that has nothing to do with errors comes first. -/
theorem step {x : ι → Eval α} {next : ι → α → Eval β} (hx : S.Holds w noError? P x)
    (hnext : ∀ w' a, S.Later w w' → P w' a → S.Holds w' error? Q fun i => next i (a i)) :
    S.Holds w error? Q fun i => x i >>= next i := by
  refine S.chain hx hnext ?_
  intro i a e he
  cases he

theorem mono {Q' : S.World → (ι → β) → Prop} {x : ι → Eval β} (hx : S.Holds w error? Q x)
    (hQ : ∀ w' b, Q w' b → ∀ w'', S.Later w' w'' → Q' w'' b) : S.Holds w error? Q' x := by
  have hbind : S.Holds w error? Q' fun i => x i >>= pure :=
    S.chain hx (fun w' b _ hb => S.result (hQ w' b hb)) fun _ _ _ he => PassesOn.pure he
  simpa only [bind_pure] using hbind

/-- All runs of the family go the same way. -/
theorem ite {c : Prop} [Decidable c] {x y : ι → Eval β} (hx : S.Holds w error? Q x)
    (hy : S.Holds w error? Q y) : S.Holds w error? Q fun i => if c then x i else y i := by
  by_cases hc : c
  · simp only [if_pos hc]
    exact hx
  · simp only [if_neg hc]
    exact hy

/-- A part that comes to a value comes first. -/
theorem afterValue {P : S.World → (ι → Value) → Prop} {x : ι → Eval Value} {next : ι → Value → Eval β}
    (hx : S.Holds w Value.error? P x)
    (hnext : ∀ w' v, S.Later w w' → P w' v → S.Holds w' error? Q fun i => next i (v i))
    (herror : ∀ i e, PassesOn error? e (next i (.error e))) : S.Holds w error? Q fun i => x i >>= next i := by
  refine S.chain hx hnext ?_
  intro i v e he
  obtain rfl := Value.eq_of_error? he
  exact herror i e

theorem pure_outcome {v : ι → Value} (hv : S.Outcome returns w v) : S.Outcomes returns w fun i => pure (v i) :=
  S.result fun _ hw => hv.later hw

theorem pure_plain {v : Value} (hv : v.Plain) (hallowed : v.Allowed S.features) :
    S.Outcomes returns w fun _ => pure v := pure_outcome (Frame.outcome_plain hv hallowed)

theorem pure_error (e : RuntimeError) : S.Outcomes returns w fun _ => pure (.error e) :=
  pure_outcome (.error e)

theorem pure_null : S.Outcomes returns w fun _ => pure .null := pure_outcome Frame.outcome_null

theorem Outcomes.of_answers {x : ι → Eval Value} (hx : S.Answers w x) : S.Outcomes returns w x :=
  mono hx fun _ _ hv _ hw => (Frame.Outcome.of_answer hv).later hw

/-- Goes on with values, unless they are errors. -/
theorem afterOutcome {r : Bool} {x : ι → Eval Value} {next : ι → Value → Eval Value} (hx : S.Outcomes r w x)
    (hnext : ∀ w' v, S.Later w w' → S.Outcome r w' v → (v S.origin).isError = false →
      S.Outcomes returns w' fun i => next i (v i)) :
    S.Outcomes returns w fun i => Rule.unlessError (x i) (next i) := by
  refine afterValue hx (fun w' v hw hv => ?_) fun _ _ => PassesOn.pure rfl
  have hvalues := hv.values
  cases hvalues with
  | function _ | returned _ => exact hnext w' _ hw hv rfl
  | @plain u _ _ =>
    cases u with
    | error e => exact pure_error e
    | int n | float x | bool b | str s | null | function f | returned u => exact hnext w' _ hw hv rfl

theorem unlessError {x : ι → Eval Value} {next : ι → Value → Eval Value} (hx : S.Answers w x)
    (hnext : ∀ w' v, S.Later w w' → S.Kept w' v → S.Outcomes returns w' fun i => next i (v i)) :
    S.Outcomes returns w fun i => Rule.unlessError (x i) (next i) :=
  afterOutcome hx fun w' v hw hv herror => hnext w' v hw (hv.kept_of_not_error herror)

/-- A signal ends the statements around it, and any other value lets them go on. -/
theorem unlessSignal {x : ι → Eval Value} {next : ι → Value → Eval Value} (hx : S.Outcomes returns w x)
    (hnext : ∀ w' v, S.Later w w' → S.Outcome returns w' v → S.Outcomes returns w' fun i => next i (v i)) :
    S.Outcomes returns w fun i => x i >>= fun v => if v.isSignal then pure v else next i v := by
  refine afterValue hx (fun w' v hw hv => ?_) fun _ _ => PassesOn.pure rfl
  obtain ⟨c, hc⟩ : ∃ c, ∀ i, (v i).isSignal = c := ⟨_, fun i => hv.values.isSignal i S.origin⟩
  simp only [hc]
  exact ite (pure_outcome hv) (hnext w' v hw hv)

end Sequencing

/-! ## Records -/

/-- A record of what a value shows. -/
theorem noteText {v : ι → Value} {level : Nat} (hv : S.Values w v) (make : ι → String → TraceEvent)
    (hmake : ∀ i, make i = make S.origin) (hlevel : ∀ s, (make S.origin s).level = level)
    (hrecords : ∀ s, S.Records (make S.origin s)) :
    S.Holds w noError? (fun _ _ => True) fun i =>
      Eval.note (S.settings i) level fun _ => return make i (← (v i).text) := by
  simp only [hmake _, hv.text _ S.origin]
  refine S.note (event_of_text (v S.origin) hlevel) fun e he => ?_
  obtain ⟨s, -, rfl⟩ := shown_of_event he
  exact hrecords s

/-- A value that is recorded, and then passed on. -/
theorem recorded {x : ι → Eval Value} {level : Nat} (hx : S.Outcomes returns w x) (make : String → TraceEvent)
    (hlevel : ∀ s, (make s).level = level) (hrecords : ∀ s, S.Records (make s)) :
    S.Outcomes returns w fun i => x i >>= fun v =>
      Eval.note (S.settings i) level (fun _ => return make (← v.text)) >>= fun _ => pure v := by
  refine afterValue hx (fun w' v _ hv => ?_) fun i e => ?_
  · have hnote := noteText hv.values (fun _ => make) (fun _ => rfl) hlevel hrecords
    exact step hnote fun _ _ hw _ => pure_outcome (hv.later hw)
  · -- an error can always be shown
    intro m
    have hevent : (do return make (← (Value.error e).text)) =
        Except.ok (ε := Fault) (make ("ERROR: " ++ e.message)) := rfl
    obtain ⟨m', hnote, halike⟩ := note_ok hevent (S.settings i) level m
    exact ⟨.error e, m', Eval.bind_of_ok hnote _, rfl, halike⟩

/-- The value of a call is what its body returns. -/
theorem unwrapped {x : ι → Eval Value} (hx : S.Outcomes returns w x) :
    S.Answers w fun i => x i >>= fun v => pure v.unwrap :=
  afterValue hx (fun _ _ _ hv => pure_outcome hv.unwrap) fun _ _ => PassesOn.pure rfl

section Rules

variable {x y z : ι → Eval Value} {scope : ι → ScopeId} {name op : String}

/-! ## Statements -/

/-- The induction is on the statements; each starts from the value before it. -/
theorem inOrder {run : ι → Stmt → Eval Value} {last : ι → Value} {ss : List Stmt}
    (hrun : ∀ s ∈ ss, S.Outcomes returns w fun i => run i (s.retoken (S.tokens i)))
    (hlast : S.Outcome returns w last) :
    S.Outcomes returns w fun i => Rule.inOrder (run i) (last i) (retokenStmts (S.tokens i) ss) := by
  induction ss generalizing w last with
  | nil => exact pure_outcome hlast
  | cons s ss ih =>
    refine unlessSignal (hrun s List.mem_cons_self) fun w' v hw hv => ?_
    exact ih (fun s hs => S.later (hrun s (List.mem_cons_of_mem _ hs)) hw) hv

theorem declaration (kind : DeclarationKind) (hscope : S.Owns w scope) (hx : S.Answers w x) :
    S.Outcomes returns w fun i => Rule.declaration (S.settings i) kind (scope i) name (x i) := by
  refine unlessError hx fun w₁ v hw₁ hv => ?_
  refine unlessError (S.define (S.owns_later hscope hw₁) hv name _) fun w₂ _ hw₂ _ => ?_
  let make (i : ι) (text : String) : TraceEvent := .declared kind name (v i).typeName text
  have hmake (i : ι) : make i = make S.origin := by
    simp only [make, hv.values.typeName i S.origin]
  have hnote := noteText (hv.values.later hw₂) make hmake (fun _ => rfl) fun _ => S.records rfl (Nat.le_refl 2)
  exact step hnote fun _ _ _ _ => pure_null

/-- Functions made of one text in scopes that belong together. -/
theorem copies {f : Closure} {number : ι → Nat} (hnumber : S.Same w number) (hscope : S.Sees w scope)
    (hwithin : f.Within S.features) (hshort : S.budget.Short f.body.height) :
    S.Kept w fun i => .function (f.copy (S.tokens i) (number i) (scope i)) :=
  Frame.outcome_function (.copies hnumber hscope hwithin hshort)

theorem functionDeclaration {ps : List Parameter} {r : TypeName} {b : Block} (hscope : S.Owns w scope)
    (hwithin : (∀ p ∈ ps, p.Within S.features) ∧ b.Within S.features) (hshort : S.budget.Short b.height) :
    S.Outcomes returns w fun i => Rule.functionDeclaration (S.settings i) (scope i) name
      (ps.map (Parameter.retoken (S.tokens i))) (r.retoken (S.tokens i)) (b.retoken (S.tokens i)) := by
  let f : Closure := ⟨0, some name, ps, r, b, 0⟩
  refine step S.newFunction fun w₁ number hw₁ hnumber => ?_
  have hf : S.Kept w₁ fun i => .function (f.copy (S.tokens i) (number i) (scope i)) :=
    copies hnumber (S.sees_later (S.owns_sees hscope) hw₁) hwithin hshort
  refine unlessError (S.define (S.owns_later hscope hw₁) hf name true) fun w₂ _ _ _ => ?_
  have hevent : S.Holds w₂ noError? (fun _ _ => True) fun i => Eval.note (S.settings i) 2 fun _ =>
      return .defined name (f.copy (S.tokens i) (number i) (scope i)).signature := by
    simp only [f.signature_copy]
    refine S.note (Or.inl ⟨_, rfl, rfl⟩) fun e he => ?_
    cases he
    exact S.records rfl (Nat.le_refl 2)
  exact step hevent fun _ _ _ _ => pure_null

theorem returning (hx : S.Answers w x) : S.Outcomes true w fun i => Rule.returning (x i) :=
  unlessError hx fun _ _ _ hv => pure_outcome (.returned rfl hv)

theorem branch (hx : S.Answers w x) (hy : S.Outcomes returns w y) (hz : S.Outcomes returns w z) :
    S.Outcomes returns w fun i => Rule.branch (S.settings i) (x i) (y i) (z i) := by
  refine unlessError hx fun w₁ v hw₁ hv => ?_
  obtain ⟨c, hc⟩ : ∃ c, ∀ i, (v i).truthy = c := ⟨_, fun i => hv.values.truthy i S.origin⟩
  simp only [hc]
  have hnote := noteText hv.values (fun _ text => .branched text c) (fun _ => rfl) (fun _ => rfl)
    fun _ => S.records rfl (Nat.le_succ 2)
  refine step hnote fun w₂ _ hw₂ _ => ?_
  have hw := S.later_trans hw₁ hw₂
  exact ite (S.later hy hw) (S.later hz hw)

/-- What is used of a value comes in front of a list, unless there is an error. -/
theorem consing {P : S.World → (ι → α) → Prop} {r : ι → Eval (Except RuntimeError (List α))} {a : ι → α}
    {next : ι → Except RuntimeError (List α) → Eval (Except RuntimeError (List α))}
    (hP : ∀ {w w' b}, P w b → S.Later w w' → P w' b) (ha : P w a) (hr : S.Collects P w r)
    (herror : ∀ i e, next i (.error e) = pure (.error e))
    (hok : ∀ i as, next i (.ok as) = pure (.ok (a i :: as))) : S.Collects P w fun i => r i >>= next i := by
  refine S.chain hr (fun w₁ r hw₁ hr => ?_) fun i r e he => ?_
  · cases hr with
    | error e =>
      simp only [herror]
      exact S.result fun _ _ => .error e
    | ok has =>
      simp only [hok]
      refine S.result fun w₂ hw₂ => .ok (.cons (hP ha (S.later_trans hw₁ hw₂)) ?_)
      exact has.imp fun _ hb => hP hb hw₂
  · cases r with
    | error e' =>
      rw [herror]
      exact PassesOn.pure he
    | ok as => cases he

/-- The induction is on the expressions.  `use` makes something of each value as soon as it is there. -/
theorem collect {run : ι → Expr → Eval Value} {use : ι → Value → Eval α} {P : S.World → (ι → α) → Prop}
    {es : List Expr} (hP : ∀ {w w' b}, P w b → S.Later w w' → P w' b)
    (hrun : ∀ e ∈ es, S.Answers w fun i => run i (e.retoken (S.tokens i)))
    (huse : ∀ w' v, S.Later w w' → S.Kept w' v → S.Holds w' noError? P fun i => use i (v i)) :
    S.Collects P w fun i => Rule.collect (run i) (use i) (retokenExprs (S.tokens i) es) := by
  induction es generalizing w with
  | nil => exact S.result fun _ _ => .ok .nil
  | cons e es ih =>
    refine afterValue (hrun e List.mem_cons_self) (fun w₁ v hw₁ hv => ?_) fun _ _ => PassesOn.pure rfl
    have hothers := ih (fun e he => S.later (hrun e (List.mem_cons_of_mem _ he)) hw₁)
      fun w' v hw' => huse w' v (S.later_trans hw₁ hw')
    have hvalues := hv.values
    cases hvalues with
    | function _ | returned _ =>
      refine step (huse w₁ _ hw₁ (hv.kept_of_not_error rfl)) fun w₂ a hw₂ ha => ?_
      exact consing hP ha (S.later hothers hw₂) (fun _ _ => rfl) fun _ _ => rfl
    | @plain u _ _ =>
      cases u with
      | error err => exact S.result fun _ _ => .error err
      | int n | float x | bool b | str s | null | function f | returned u =>
        refine step (huse w₁ _ hw₁ (hv.kept_of_not_error rfl)) fun w₂ a hw₂ ha => ?_
        exact consing hP ha (S.later hothers hw₂) (fun _ _ => rfl) fun _ _ => rfl

/-- Goes on with a list of values, unless there is an error. -/
theorem withList {P : S.World → (ι → α) → Prop} {r : ι → Eval (Except RuntimeError (List α))}
    {next : ι → Except RuntimeError (List α) → Eval Value} (hr : S.Collects P w r)
    (herror : ∀ i e, next i (.error e) = pure (.error e))
    (hok : ∀ w' as, S.Later w w' → Aligned (P w') as → S.Outcomes returns w' fun i => next i (.ok (as i))) :
    S.Outcomes returns w fun i => r i >>= next i := by
  refine S.chain hr (fun w' r hw hr => ?_) fun i r e he => ?_
  · cases hr with
    | error e =>
      simp only [herror]
      exact pure_error e
    | ok has => exact hok w' _ hw has
  · cases r with
    | error e' =>
      cases he
      rw [herror]
      exact PassesOn.pure rfl
    | ok as => cases he

theorem text_faults (v : Value) (f : Fault) (h : v.text = .error f) : S.features.Faults f := by
  rcases v.text_cases with ⟨s, hs⟩ | hs
  · rw [hs] at h
    cases h
  · rw [hs] at h
    cases h
    exact Or.inr rfl

/-- Lists that are the same in all runs. -/
theorem aligned_const {as : ι → List α} (h : Aligned (fun a => ∃ b, a = fun _ => b) as) :
    ∃ bs, as = fun _ => bs := by
  induction h with
  | nil => exact ⟨[], rfl⟩
  | cons ha _ ih =>
    obtain ⟨b, rfl⟩ := ha
    obtain ⟨bs, rfl⟩ := ih
    exact ⟨b :: bs, rfl⟩

theorem display {run : ι → Expr → Eval Value} {es : List Expr}
    (hrun : ∀ e ∈ es, S.Answers w fun i => run i (e.retoken (S.tokens i))) :
    S.Outcomes returns w fun i => Rule.display (run i) (retokenExprs (S.tokens i) es) := by
  have huse (w' : S.World) (v : ι → Value) (_ : S.Later w w') (hv : S.Kept w' v) :
      S.Holds w' noError? (fun _ a => ∃ s, a = fun _ => s) fun i => Eval.ofExcept (v i).text := by
    simp only [hv.values.text _ S.origin]
    refine mono (S.ofExcept (text_faults (v S.origin))) fun _ a ha _ _ => ?_
    obtain ⟨s, rfl, -⟩ := ha
    exact ⟨s, rfl⟩
  refine withList (collect (fun h _ => h) hrun huse) (fun _ _ => rfl) fun w' as _ has => ?_
  obtain ⟨texts, rfl⟩ := aligned_const has
  exact step (S.print _) fun _ _ _ _ => pure_null

/-! ## Loops -/

theorem verdict (hx : S.Answers w x) : S.Decides w fun i => Rule.verdict (x i) := by
  have hdecided (w' : S.World) (b : Bool) : S.Decides w' fun _ => pure (if b then .goOn else .leave .null) := by
    refine S.result fun _ _ => ?_
    cases b with
    | true => exact .goOn
    | false => exact .leave trivial nofun
  refine afterValue hx (fun w' v _ hv => ?_) fun _ _ => PassesOn.pure rfl
  have hvalues := hv.values
  cases hvalues with
  | function _ => exact hdecided w' true
  | returned _ => exact hdecided w' false
  | @plain u _ _ =>
    cases u with
    | error e => exact S.result fun _ _ => .leave trivial nofun
    | int n | float x | bool b | str s | null | function f | returned u => exact hdecided w' _

theorem goOn : S.Decides w fun _ => pure .goOn := S.result fun _ _ => .goOn

/-- A loop is left, or goes on with what comes after its test. -/
theorem tested {test : ι → Eval Rule.Verdict} {next : ι → Rule.Verdict → Eval Value} (htest : S.Decides w test)
    (hleave : ∀ i v, next i (.leave v) = pure v)
    (hgoOn : ∀ w', S.Later w w' → S.Outcomes returns w' fun i => next i .goOn) :
    S.Outcomes returns w fun i => test i >>= next i := by
  refine S.chain htest (fun w' d hw hd => ?_) fun i d e he => ?_
  · cases hd with
    | leave hv hallowed =>
      simp only [hleave]
      exact pure_plain hv hallowed
    | goOn => exact hgoOn w' hw
  · cases d with
    | leave v =>
      rw [hleave]
      exact PassesOn.pure he
    | goOn => cases he

section Loops

variable {test : ι → Eval Rule.Verdict} {body : ι → Nat → Eval Value}

/-- The induction is on the bound, which is larger in some runs than in others. -/
theorem loop (hloops : S.features.loops = true) (htest : S.Decides w test)
    (hbody : ∀ n, S.Outcomes returns w fun i => body i n) (hx : S.Answers w x) (fuel count : Nat) :
    S.Outcomes returns w fun i => Rule.loop (test i) (body i) (x i) (S.extra i + fuel) count := by
  induction fuel generalizing w count with
  | zero =>
    refine S.cut (fun i hi => ?_) (Or.inl hloops)
    rw [hi]
    rfl
  | succ fuel ih =>
    refine tested htest (fun _ _ => rfl) fun w₁ hw₁ => ?_
    refine unlessSignal (S.later (hbody (count + 1)) hw₁) fun w₂ _ hw₂ _ => ?_
    have hw := S.later_trans hw₁ hw₂
    refine unlessError (S.later hx hw) fun w₃ _ hw₃ _ => ?_
    have hw := S.later_trans hw hw₃
    exact ih (S.later htest hw) (fun n => S.later (hbody n) hw) (S.later hx hw) (count + 1)

theorem loopAfter (hloops : S.features.loops = true) (hbody : ∀ n, S.Outcomes returns w fun i => body i n)
    (htest : S.Decides w test) (fuel count : Nat) :
    S.Outcomes returns w fun i => Rule.loopAfter (body i) (test i) (S.extra i + fuel) count := by
  induction fuel generalizing w count with
  | zero =>
    refine S.cut (fun i hi => ?_) (Or.inl hloops)
    rw [hi]
    rfl
  | succ fuel ih =>
    refine unlessSignal (hbody (count + 1)) fun w₁ _ hw₁ _ => ?_
    refine tested (S.later htest hw₁) (fun _ _ => rfl) fun w₂ hw₂ => ?_
    have hw := S.later_trans hw₁ hw₂
    exact ih (fun n => S.later (hbody n) hw) (S.later htest hw) (count + 1)

theorem iteration (kind : LoopKind) (hx : S.Outcomes returns w x) (count : Nat) :
    S.Outcomes returns w fun i => Rule.iteration (S.settings i) kind (x i) count := by
  have hevent : EventOf 3 (.ok (.iterated kind count)) := Or.inl ⟨_, rfl, rfl⟩
  refine step (S.note hevent fun e he => ?_) fun _ _ hw _ => S.later hx hw
  cases he
  exact S.records rfl (Nat.le_succ 2)

end Loops

/-! ## Expressions -/

theorem nameValue (hscope : S.Sees w scope) : S.Answers w fun i => Rule.nameValue (scope i) name := by
  refine step (S.lookup? hscope name) fun _ _ _ ho => ?_
  cases ho with
  | none => exact pure_error _
  | some hv => exact pure_outcome (.kept hv)

theorem update (hscope : S.Sees w scope) (place : Rule.UpdatePlace) (target : Expr) :
    S.Answers w fun i => Rule.update (scope i) op place (target.retoken (S.tokens i)) := by
  have hother : S.Answers w fun _ => pure (.error (.updateTarget op target.kindName)) := pure_error _
  cases target with
  | name n =>
    refine step (S.lookup? hscope n.text) fun w₁ _ hw₁ ho => ?_
    cases ho with
    | none => exact pure_error (.unknownName n.text)
    | @some old hold =>
      obtain ⟨new?, hnew?⟩ : ∃ new?, ∀ i, Rule.stepped op (old i) = new? :=
        ⟨_, fun i => hold.values.stepped op i S.origin⟩
      simp only [hnew?]
      cases new? with
      | none =>
        simp only [hold.values.typeName _ S.origin]
        exact pure_error _
      | some new =>
        have hnew := hold.stepped (hnew? S.origin)
        refine unlessError (S.assign (S.sees_later hscope hw₁) hnew n.text) fun _ _ hw₂ _ => ?_
        cases place with
        | before => exact pure_outcome (.kept (hnew.later hw₂))
        | after => exact pure_outcome (.kept (hold.later hw₂))
  | int t n | float t x | str t s | bool t b | before t o e | after t e o | binary t l o r
  | choice t e a b | assign t n e | call t e es | function t ps r b => exact hother

theorem truthOf (hx : S.Answers w x) :
    S.Answers w fun i => Rule.unlessError (x i) fun v => pure (.bool v.truthy) := by
  refine unlessError hx fun _ v _ hv => ?_
  simp only [hv.values.truthy _ S.origin]
  exact pure_outcome (Frame.outcome_bool _)

theorem binary (hx : S.Answers w x) (hy : S.Answers w y) :
    S.Answers w fun i => Rule.binary op (x i) (y i) := by
  by_cases hand : op = "&&"
  · subst hand
    refine unlessError hx fun _ v hw hv => ?_
    simp only [hv.values.truthy _ S.origin]
    exact ite (truthOf (S.later hy hw)) (pure_outcome (Frame.outcome_bool false))
  by_cases hor : op = "||"
  · subst hor
    refine unlessError hx fun _ v hw hv => ?_
    simp only [hv.values.truthy _ S.origin]
    exact ite (pure_outcome (Frame.outcome_bool true)) (truthOf (S.later hy hw))
  simp only [Rule.binary_of_ne hand hor]
  refine unlessError hx fun w₁ a hw₁ ha => unlessError (S.later hy hw₁) fun w₂ b hw₂ hb => ?_
  have ha := ha.later hw₂
  obtain ⟨hallowed, hfaults⟩ := (ha.values.allowed S.origin).binaryOp (hb.values.allowed S.origin) op
  simp only [ha.values.binaryOp hb.values op _ S.origin]
  refine mono (S.ofExcept hfaults) fun _ _ hu _ _ => ?_
  obtain ⟨u, rfl, hu⟩ := hu
  exact Frame.outcome_plain (binaryOp_plain hu) (hallowed u hu)

theorem choice (hx : S.Answers w x) (hy : S.Answers w y) (hz : S.Answers w z) :
    S.Answers w fun i => Rule.choice (x i) (y i) (z i) := by
  refine unlessError hx fun _ v hw hv => ?_
  simp only [hv.values.truthy _ S.origin]
  exact ite (S.later hy hw) (S.later hz hw)

/-! ## Calls -/

/-- A parameter takes the arguments of all runs as they are, or makes the same of all of them. -/
theorem checked {p : Parameter} {v : ι → Value} (function : String) (hp : p.Within S.features)
    (hv : S.Outcome false w v) : S.Holds w noError? (S.Outcome false) fun i =>
      Eval.ofExcept (checkArgument function p.name.text p.declared.name (v i)) := by
  rcases hv.values.checkArgument function p.name.text p.declared.name with htaken | ⟨hsame, hplain⟩
  · simp only [htaken]
    exact S.result fun _ hw => hv.later hw
  · obtain ⟨hbound, hfaults⟩ := hp.checkArgument function (v S.origin)
    simp only [hsame _ S.origin]
    refine mono (S.ofExcept hfaults) fun _ _ hu _ _ => ?_
    obtain ⟨u, rfl, hu⟩ := hu
    refine Frame.outcome_plain (hplain S.origin u hu) ?_
    rcases hbound u hu with rfl | ⟨_, hallowed⟩
    · exact hv.values.allowed S.origin
    · exact hallowed

/-- The induction is on the parameters.  All runs refuse the same argument or none. -/
theorem bindArguments {ps : List Parameter} {vs : ι → List Value} (function : String)
    (hps : ∀ p ∈ ps, p.Within S.features) (hscope : S.Owns w scope) (hvs : Aligned (S.Outcome false w) vs) :
    S.Holds w noError? (fun _ r => ∃ refusal, r = fun _ => refusal) fun i =>
      Rule.bindArguments function (scope i) (ps.map (Parameter.retoken (S.tokens i))) (vs i) := by
  induction ps generalizing w vs with
  | nil => exact S.result fun _ _ => ⟨none, rfl⟩
  | cons p ps ih =>
    cases hvs with
    | nil => exact S.result fun _ _ => ⟨none, rfl⟩
    | @cons v vs hv hvs =>
      refine step (checked function (hps p List.mem_cons_self) hv) fun w₁ u hw₁ hu => ?_
      have hothers (hkept : S.Kept w₁ u) : S.Holds w₁ noError? (fun _ r => ∃ refusal, r = fun _ => refusal) fun i =>
          Eval.define (scope i) p.name.text (u i) false >>= fun _ =>
            Rule.bindArguments function (scope i) (ps.map (Parameter.retoken (S.tokens i))) (vs i) := by
        refine step (S.define (S.owns_later hscope hw₁) hkept _ false) fun w₂ _ hw₂ _ => ?_
        have hw := S.later_trans hw₁ hw₂
        exact ih (fun p hp => hps p (List.mem_cons_of_mem _ hp)) (S.owns_later hscope hw)
          (hvs.imp fun _ hv => hv.later hw)
      have hvalues := hu.values
      cases hvalues with
      | function _ | returned _ => exact hothers (hu.kept_of_not_error rfl)
      | @plain u _ _ =>
        cases u with
        | error e => exact S.result fun _ _ => ⟨some e, rfl⟩
        | int n | float x | bool b | str s | null | function f | returned u =>
          exact hothers (hu.kept_of_not_error rfl)

theorem callExpression {run : ι → Expr → Eval Value} {apply : ι → Closure → List Value → Eval Value}
    {es : List Expr} (hx : S.Answers w x)
    (hrun : ∀ e ∈ es, S.Answers w fun i => run i (e.retoken (S.tokens i)))
    (happly : ∀ w' f vs, S.Later w w' → S.Closures w' f → Aligned (S.Outcome false w') vs →
      S.Answers w' fun i => apply i (f i) (vs i)) :
    S.Answers w fun i => Rule.call (x i) (run i) (retokenExprs (S.tokens i) es) (apply i) := by
  refine unlessError hx fun w₁ v hw₁ hv => ?_
  have hvalues := hv.values
  cases hvalues with
  | function hf =>
    have hargs : S.Collects (S.Outcome false) w₁ fun i =>
        Rule.collect (run i) pure (retokenExprs (S.tokens i) es) :=
      collect (fun hv hw => hv.later hw) (fun e he => S.later (hrun e he) hw₁)
        fun _ _ _ hv => S.result fun _ hw => .kept (hv.later hw)
    refine withList hargs (fun _ _ => rfl) fun w₂ vs hw₂ hvs => ?_
    exact happly w₂ _ vs (S.later_trans hw₁ hw₂) (hf.later hw₂) hvs
  | returned _ => exact pure_error (.notCallable (Value.returned .null).tag)
  | @plain u hu _ =>
    cases u with
    | function f => exact hu.elim
    | int n | float x | bool b | str s | null | error e | returned u => exact pure_error _

end Rules

end Steps

end ScriptLang
