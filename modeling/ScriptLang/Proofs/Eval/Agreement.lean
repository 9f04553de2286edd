import ScriptLang.Proofs.Eval.Raising
import ScriptLang.Proofs.Eval.Rule
import ScriptLang.Proofs.Value.Clean

/-!
  Signals against exceptions.

  `Agrees` relates a run that yields signals as values to one that is ended by them: from machines that
  differ at most in their traces they come to the same result, the same heap and the same output.  The
  traces need not agree, since a call that ends in an error still records that it returned.

  Each of the two evaluators has rules of its own.  So these are not several runs under one set of rules, as
  the logics of runs have them, and the rules are gone through side by side.  Each lemma says that a pair of
  rules keeps agreement, if the runs of the parts agree.

  Specification: `Evaluates`, with one lemma for each construct.  Crux: `Agrees.bind`.  Where the first part
  comes to a signal the exception has ended the one run, and the other has to pass the signal on through
  all that is left of its rule.
-/

namespace ScriptLang

/-- What a value that may be a signal stands for. -/
def Value.raised : Value → Except Signal Value
  | .error e => .error (.error e)
  | .returned v => .error (.returned v)
  | v => .ok v

/-- The signals that may end an evaluation; `returns` says whether a `return` is one of them. -/
def Signal.Allowed (strict returns : Bool) : Signal → Prop
  | .error _ => True
  | .returned v => returns = true ∧ v.Clean strict

variable {strict returns : Bool} {α β γ δ : Type}

section Raised

variable {v w : Value} {s : Signal}

theorem Value.Clean.raised (h : v.Clean strict) : v.raised = .ok v := by
  cases v with
  | returned w | error e => exact h.elim
  | int n | float x | bool b | str s | null | function f => rfl

theorem Value.raised_ok (h : v.raised = .ok w) : w = v ∧ v.isSignal = false := by
  cases v with
  | returned w | error e => contradiction
  | int n | float x | bool b | str s | null | function f => cases h; exact ⟨rfl, rfl⟩

theorem Value.raised_error (h : v.raised = .error s) : v.isSignal = true := by
  cases v with
  | returned w | error e => rfl
  | int n | float x | bool b | str s | null | function f => contradiction

/-- Where no `return` may come up, the signal is an error. -/
theorem Value.raised_error_only (h : v.raised = .error s) (hs : s.Allowed strict false) :
    ∃ e, v = .error e ∧ s = .error e := by
  cases v with
  | error e => cases h; exact ⟨e, rfl, rfl⟩
  | returned w => cases h; exact absurd hs.1 Bool.false_ne_true
  | int n | float x | bool b | str s | null | function f => contradiction

theorem Signal.Allowed.returning (h : s.Allowed strict returns) : s.Allowed strict true := by
  cases s with
  | error e => trivial
  | returned v => exact ⟨rfl, h.2⟩

end Raised

/-- A value that is no signal raises nothing. -/
theorem raise_clean {v : Value} (h : v.Clean strict) : Raising.raise v = pure v := by
  cases v with
  | returned w | error e => exact h.elim
  | int n | float x | bool b | str s | null | function f => rfl

/-- The end of a run with signals and the end of one with exceptions; `view` says what a result of the
    former stands for. -/
inductive Matches (strict returns : Bool) (view : α → Except Signal β) (Q : β → Prop) :
    EStateM.Result Halt Machine α → EStateM.Result Abort Machine β → Prop
  | value {a : α} {b : β} {m m' : Machine} : view a = .ok b → Q b → m.Alike m' → m.heap.Clean strict →
      Matches strict returns view Q (.ok a m) (.ok b m')
  | signal {a : α} {s : Signal} {m m' : Machine} : view a = .error s → s.Allowed strict returns →
      m.Alike m' → m.heap.Clean strict → Matches strict returns view Q (.ok a m) (.error (.signal s) m')
  | halt {h : Halt} {m m' : Machine} : m.Alike m' →
      Matches strict returns view Q (.error h m) (.error (.halt h) m')

/-- The two runs end alike wherever they start alike. -/
def Agrees (strict returns : Bool) (view : α → Except Signal β) (Q : β → Prop) (x : Eval α)
    (y : Raising β) : Prop :=
  ∀ m m' : Machine, m.Alike m' → m.heap.Clean strict → Matches strict returns view Q (x m) (y m')

/-- The two runs of an expression or a statement agree. -/
def Evaluates (strict returns : Bool) (x : Eval Value) (y : Raising Value) : Prop :=
  Agrees strict returns Value.raised (Value.Clean strict) x y

/-! ## Sequencing -/

section Sequencing

variable {view : α → Except Signal β} {view' : γ → Except Signal δ} {P : β → Prop} {Q : δ → Prop}
  {x : Eval α} {y : Raising β} {f : α → Eval γ} {g : β → Raising δ} {r : Bool}

/-- The second parts agree after a value, and after a signal the first evaluator passes it on. -/
theorem Matches.bind {m m' : Machine} (h : Matches strict r view P (x m) (y m'))
    (hvalue : ∀ a b, view a = .ok b → P b → Agrees strict returns view' Q (f a) (g b))
    (hsignal : ∀ a s, view a = .error s → s.Allowed strict r → s.Allowed strict returns ∧
      ∀ n, ∃ c n', f a n = .ok c n' ∧ n'.Alike n ∧ view' c = .error s) :
    Matches strict returns view' Q ((x >>= f) m) ((y >>= g) m') := by
  show Matches strict returns view' Q (EStateM.bind x f m) (EStateM.bind y g m')
  unfold EStateM.bind
  generalize x m = rx at h
  generalize y m' = ry at h
  cases h with
  | value hview hP halike hclean => exact hvalue _ _ hview hP _ _ halike hclean
  | signal hview hs halike hclean =>
    obtain ⟨hs', hrun⟩ := hsignal _ _ hview hs
    obtain ⟨c, n, hc, hn, hview'⟩ := hrun _
    dsimp only
    rw [hc]
    refine .signal hview' hs' ⟨hn.heap.trans halike.heap, hn.output.trans halike.output⟩ ?_
    rwa [hn.heap]
  | halt halike => exact .halt halike

theorem Agrees.bind (h : Agrees strict r view P x y)
    (hvalue : ∀ a b, view a = .ok b → P b → Agrees strict returns view' Q (f a) (g b))
    (hsignal : ∀ a s, view a = .error s → s.Allowed strict r → s.Allowed strict returns ∧
      ∀ n, ∃ c n', f a n = .ok c n' ∧ n'.Alike n ∧ view' c = .error s) :
    Agrees strict returns view' Q (x >>= f) (y >>= g) :=
  fun m m' halike hclean => (h m m' halike hclean).bind hvalue hsignal

/-- A step that yields no signal comes first. -/
theorem Agrees.step {P : α → Prop} {y : Raising α} {g : α → Raising δ} (h : Agrees strict false .ok P x y)
    (hnext : ∀ a, P a → Agrees strict returns view' Q (f a) (g a)) :
    Agrees strict returns view' Q (x >>= f) (y >>= g) := by
  refine h.bind (fun a b hab hP => ?_) fun a s has => nomatch has
  cases hab
  exact hnext a hP

theorem Agrees.pure {a : α} {b : β} (h : view a = .ok b) (hP : P b) :
    Agrees strict returns view P (Pure.pure a) (Pure.pure b) :=
  fun _ _ halike hclean => .value h hP halike hclean

/-- The one run has the signal as its value, and the other is ended by it. -/
theorem Agrees.raise {a : α} {s : Signal} (h : view a = .error s) (hs : s.Allowed strict returns) :
    Agrees strict returns view P (Pure.pure a) (throw (.signal s)) :=
  fun _ _ halike hclean => .signal h hs halike hclean

theorem Agrees.mono {P' : β → Prop} (h : Agrees strict returns view P x y) (himp : ∀ b, P b → P' b) :
    Agrees strict returns view P' x y := by
  intro m m' halike hclean
  have hm := h m m' halike hclean
  generalize x m = rx at hm ⊢
  generalize y m' = ry at hm ⊢
  cases hm with
  | value hview hP halike hclean => exact .value hview (himp _ hP) halike hclean
  | signal hview hs halike hclean => exact .signal hview hs halike hclean
  | halt halike => exact .halt halike

theorem Agrees.outOfFuel : Agrees strict returns view P Eval.outOfFuel Raising.outOfFuel :=
  fun _ _ halike _ => .halt halike

end Sequencing

namespace Evaluates

variable {x : Eval Value} {y : Raising Value}

theorem value {v : Value} (h : v.Clean strict) : Evaluates strict returns (pure v) (pure v) :=
  Agrees.pure h.raised h

theorem returning (h : Evaluates strict returns x y) : Evaluates strict true x y := by
  intro m m' halike hclean
  have hm := h m m' halike hclean
  generalize x m = rx at hm ⊢
  generalize y m' = ry at hm ⊢
  cases hm with
  | value hview hP halike hclean => exact .value hview hP halike hclean
  | signal hview hs halike hclean => exact .signal hview hs.returning halike hclean
  | halt halike => exact .halt halike

/-- The rule looks at the value for an error, and with exceptions there is nothing to look at. -/
theorem unlessError {next : Value → Eval Value} {g : Value → Raising Value}
    (h : Evaluates strict false x y)
    (hnext : ∀ v, v.Clean strict → Evaluates strict returns (next v) (g v)) :
    Evaluates strict returns (Rule.unlessError x next) (y >>= g) := by
  refine Agrees.bind h (fun v w hview hw => ?_) fun v s hview hs => ?_
  · obtain ⟨rfl, hsignal⟩ := Value.raised_ok hview
    cases w with
    | error e | returned u => contradiction
    | int n | float x | bool b | str s | null | function f => exact hnext _ hw
  · obtain ⟨e, rfl, rfl⟩ := Value.raised_error_only hview hs
    exact ⟨trivial, fun n => ⟨.error e, n, rfl, ⟨rfl, rfl⟩, rfl⟩⟩

end Evaluates

/-! ## Steps on the machine -/

section Steps

open Eval (newScope newFunction lookup? print note ofExcept)

theorem newScope_agrees (outer : Option ScopeId) :
    Agrees strict returns .ok (fun _ => True) (newScope outer) (Raising.step (newScope outer)) := by
  rintro ⟨heap, output, trace⟩ ⟨_, _, trace'⟩ ⟨rfl, rfl⟩ hclean
  exact .value rfl trivial ⟨rfl, rfl⟩ (hclean.alloc outer)

theorem newFunction_agrees :
    Agrees strict returns .ok (fun _ => True) newFunction (Raising.step newFunction) := by
  rintro ⟨heap, output, trace⟩ ⟨_, _, trace'⟩ ⟨rfl, rfl⟩ hclean
  exact .value rfl trivial ⟨rfl, rfl⟩ hclean

/-- A clean heap holds no signals, so what is found is no signal. -/
theorem lookup?_agrees (scope : ScopeId) (name : String) :
    Agrees strict returns .ok (fun o => ∀ v ∈ o, v.Clean strict) (lookup? scope name)
      (Raising.step (lookup? scope name)) := by
  rintro ⟨heap, output, trace⟩ ⟨_, _, trace'⟩ ⟨rfl, rfl⟩ hclean
  exact .value rfl (fun v hv => hclean.get? hv) ⟨rfl, rfl⟩ hclean

theorem print_agrees (line : String) :
    Agrees strict returns .ok (fun _ => True) (print line) (Raising.step (print line)) := by
  rintro ⟨heap, output, trace⟩ ⟨_, _, trace'⟩ ⟨rfl, rfl⟩ hclean
  exact .value rfl trivial ⟨rfl, rfl⟩ hclean

theorem ofExcept_agrees (r : Except Fault α) :
    Agrees strict returns .ok (fun a => r = .ok a) (ofExcept r) (Raising.step (ofExcept r)) := by
  intro m m' halike hclean
  cases r with
  | ok a => exact .value rfl rfl halike hclean
  | error f => exact .halt halike

/-- What is recorded does not matter, but a fault in making the event halts both. -/
theorem note_agrees (settings : Settings) (level : Nat) (event : Unit → Except Fault TraceEvent) :
    Agrees strict returns .ok (fun _ => True) (note settings level event)
      (Raising.step (note settings level event)) := by
  rintro ⟨heap, output, trace⟩ ⟨_, _, trace'⟩ ⟨rfl, rfl⟩ hclean
  unfold note
  split
  · cases event () with
    | ok e => exact .value rfl trivial ⟨rfl, rfl⟩ hclean
    | error f => exact .halt ⟨rfl, rfl⟩
  · exact .value rfl trivial ⟨rfl, rfl⟩ hclean

/-- What a declaration comes to is the value, or the error that refuses it. -/
theorem define_agrees {v : Value} (hv : v.Clean strict) (scope : ScopeId) (name : String)
    (constant : Bool) :
    Agrees strict returns .ok (Value.Answer strict) (Eval.define scope name v constant)
      (Raising.step (Eval.define scope name v constant)) := by
  rintro ⟨heap, output, trace⟩ ⟨_, _, trace'⟩ ⟨rfl, rfl⟩ hclean
  exact .value rfl (heap.define_answer hv ..) ⟨rfl, rfl⟩ (hclean.define hv constant)

theorem assign_agrees {v : Value} (hv : v.Clean strict) (scope : ScopeId) (name : String) :
    Agrees strict returns .ok (Value.Answer strict) (Eval.assign scope name v)
      (Raising.step (Eval.assign scope name v)) := by
  rintro ⟨heap, output, trace⟩ ⟨_, _, trace'⟩ ⟨rfl, rfl⟩ hclean
  exact .value rfl (heap.assign_answer hv ..) ⟨rfl, rfl⟩ (hclean.assign hv)

end Steps

theorem Raising.binary_of_ne {op : String} {a b : Raising Value} (hand : op ≠ "&&") (hor : op ≠ "||") :
    Raising.binary op a b = a >>= fun v => b >>= fun w =>
      step (Eval.ofExcept (binaryOp op v w)) >>= raise := by
  unfold Raising.binary
  congr
  funext v
  split
  · contradiction
  · contradiction
  · rfl

namespace Evaluates

variable {x : Eval Value}

/-- An answer is a value, or an error that is raised. -/
theorem answer {v : Value} (h : v.Answer strict) : Evaluates strict returns (pure v) (Raising.raise v) := by
  rcases h with h | ⟨e, rfl⟩
  · rw [raise_clean h]
    exact value h
  · exact Agrees.raise rfl trivial

/-- A step on the machine that may come to an error, which is then raised. -/
theorem raised (h : Agrees strict false .ok (Value.Answer strict) x (Raising.step x)) :
    Evaluates strict returns x (Raising.step x >>= Raising.raise) := by
  have hbind : Evaluates strict returns (x >>= pure) (Raising.step x >>= Raising.raise) :=
    h.step fun v hv => answer hv
  rwa [bind_pure] at hbind

theorem define {v : Value} (hv : v.Clean strict) (scope : ScopeId) (name : String) (constant : Bool) :
    Evaluates strict returns (Eval.define scope name v constant)
      (Raising.define scope name v constant) :=
  raised (define_agrees hv scope name constant)

theorem assign {v : Value} (hv : v.Clean strict) (scope : ScopeId) (name : String) :
    Evaluates strict returns (Eval.assign scope name v) (Raising.assign scope name v) :=
  raised (assign_agrees hv scope name)

/-! ## Names -/

theorem nameValue (scope : ScopeId) (name : String) :
    Evaluates strict returns (Rule.nameValue scope name) (Raising.nameValue scope name) := by
  refine (lookup?_agrees scope name).step fun o ho => ?_
  cases o with
  | none => exact Agrees.raise rfl trivial
  | some v => exact value (ho v rfl)

/-- The value is evaluated, then declared, then recorded; an error of either of the first two ends it. -/
theorem declaration {y : Raising Value} (settings : Settings) (kind : DeclarationKind) (scope : ScopeId)
    (name : String) (h : Evaluates strict false x y) :
    Evaluates strict returns (Rule.declaration settings kind scope name x)
      (Raising.declaration settings kind scope name y) := by
  refine h.unlessError fun v hv => ?_
  refine (define hv scope name _).unlessError fun _ _ => ?_
  exact (note_agrees settings 2 _).step fun _ _ => value trivial

theorem functionDeclaration (settings : Settings) (scope : ScopeId) (name : String)
    {parameters : List Parameter} (returns' : TypeName) {body : Block}
    (hfit : Parameter.Fit strict parameters) (hbody : body.Shaped strict) :
    Evaluates strict returns (Rule.functionDeclaration settings scope name parameters returns' body)
      (Raising.functionDeclaration settings scope name parameters returns' body) := by
  refine newFunction_agrees.step fun id _ => ?_
  refine (define (show Value.Clean strict (.function _) from ⟨hfit, hbody⟩) scope name true).unlessError
    fun _ _ => ?_
  exact (note_agrees settings 2 _).step fun _ _ => value trivial

/-- An update is refused if its target is no name, if the name is not bound or bound to a constant, and if
    its value is no number. -/
theorem update (scope : ScopeId) (op : String) (place : Rule.UpdatePlace) (target : Expr) :
    Evaluates strict returns (Rule.update scope op place target)
      (Raising.update scope op place target) := by
  cases target with
  | name n =>
    refine (lookup?_agrees scope n.text).step fun o ho => ?_
    cases o with
    | none => exact Agrees.raise rfl trivial
    | some old =>
      dsimp only
      cases hstep : Rule.stepped op old with
      | none => exact Agrees.raise rfl trivial
      | some new =>
        refine (assign (stepped_clean hstep) scope n.text).unlessError fun _ _ => ?_
        cases place with
        | before => exact value (stepped_clean hstep)
        | after => exact value (ho old rfl)
  | int t n | float t x | str t s | bool t b | before t o e | after t e o | binary t l o r
  | choice t e a b | assign t n e | call t e es | function t ps r b =>
    exact Agrees.raise rfl trivial

/-! ## Statements -/

variable {y : Raising Value}

/-- The rule looks at the value for a signal of any kind. -/
theorem unlessSignal {next : Value → Eval Value} {g : Value → Raising Value}
    (h : Evaluates strict returns x y)
    (hnext : ∀ v, v.Clean strict → Evaluates strict returns (next v) (g v)) :
    Evaluates strict returns (x >>= fun v => if v.isSignal = true then pure v else next v) (y >>= g) := by
  refine Agrees.bind h (fun v w hview hw => ?_) fun v s hview hs => ⟨hs, fun n => ?_⟩
  · obtain ⟨rfl, hsignal⟩ := Value.raised_ok hview
    rw [hsignal]
    exact hnext w hw
  · rw [Value.raised_error hview]
    exact ⟨v, n, rfl, ⟨rfl, rfl⟩, hview⟩

/-- By induction on the statements; the first signal ends the row. -/
theorem inOrder {run : Stmt → Eval Value} {run' : Stmt → Raising Value} {ss : List Stmt} {last : Value}
    (hrun : ∀ s ∈ ss, Evaluates strict returns (run s) (run' s)) (hlast : last.Clean strict) :
    Evaluates strict returns (Rule.inOrder run last ss) (Raising.inOrder run' last ss) := by
  induction ss generalizing last with
  | nil => exact value hlast
  | cons s ss ih =>
    refine (hrun s List.mem_cons_self).unlessSignal fun v hv => ?_
    exact ih (fun s hs => hrun s (List.mem_cons_of_mem _ hs)) hv

theorem branch {a b : Eval Value} {a' b' : Raising Value} (settings : Settings)
    (h : Evaluates strict false x y) (ha : Evaluates strict returns a a')
    (hb : Evaluates strict returns b b') :
    Evaluates strict returns (Rule.branch settings x a b) (Raising.branch settings y a' b') := by
  refine h.unlessError fun v _ => ?_
  refine (note_agrees settings 3 _).step fun _ _ => ?_
  split
  · exact ha
  · exact hb

/-- What a list of values or an error stands for. -/
def listed (r : Except RuntimeError (List α)) : Except Signal (List α) := r.mapError .error

/-- Puts a value in front of a list, unless it is an error. -/
theorem consing {r : Eval (Except RuntimeError (List α))} {l : Raising (List α)} {P : α → Prop} {a : α}
    {f : Except RuntimeError (List α) → Eval (Except RuntimeError (List α))}
    (h : Agrees strict returns listed (fun as => ∀ b ∈ as, P b) r l) (ha : P a)
    (herror : ∀ e, f (.error e) = pure (.error e)) (hok : ∀ as, f (.ok as) = pure (.ok (a :: as))) :
    Agrees strict returns listed (fun as => ∀ b ∈ as, P b) (r >>= f)
      (l >>= fun as => pure (a :: as)) := by
  refine Agrees.bind h (fun r as hlisted has => ?_) fun r s hlisted hs => ?_
  · cases r with
    | error err => contradiction
    | ok others =>
      cases hlisted
      rw [hok]
      exact Agrees.pure rfl (List.forall_mem_cons.2 ⟨ha, has⟩)
  · cases r with
    | error err =>
      rw [herror]
      exact ⟨hs, fun n => ⟨.error err, n, rfl, ⟨rfl, rfl⟩, hlisted⟩⟩
    | ok others => contradiction

/-- By induction on the expressions; what is made of each value is made before the next is evaluated. -/
theorem collect {run : Expr → Eval Value} {run' : Expr → Raising Value} {use : Value → Eval α}
    {P : α → Prop} {es : List Expr} (hrun : ∀ e ∈ es, Evaluates strict false (run e) (run' e))
    (huse : ∀ v, v.Clean strict → Agrees strict false .ok P (use v) (Raising.step (use v))) :
    Agrees strict returns listed (fun as => ∀ a ∈ as, P a) (Rule.collect run use es)
      (Raising.collect run' use es) := by
  induction es with
  | nil => exact Agrees.pure rfl fun a ha => nomatch ha
  | cons e es ih =>
    have he := hrun e List.mem_cons_self
    have hothers := ih fun e he => hrun e (List.mem_cons_of_mem _ he)
    refine Agrees.bind he (fun v w hview hw => ?_) fun v s hview hs => ?_
    · obtain ⟨rfl, hsignal⟩ := Value.raised_ok hview
      cases w with
      | error e | returned u => contradiction
      | int n | float x | bool b | str s | null | function f =>
        refine (huse _ hw).step fun a ha => ?_
        exact consing hothers ha (fun _ => rfl) fun _ => rfl
    · obtain ⟨err, rfl, rfl⟩ := Value.raised_error_only hview hs
      exact ⟨trivial, fun n => ⟨.error err, n, rfl, ⟨rfl, rfl⟩, rfl⟩⟩

/-- Goes on with a list of values, unless it is an error. -/
theorem withList {r : Eval (Except RuntimeError (List α))} {l : Raising (List α)} {P : List α → Prop}
    {f : Except RuntimeError (List α) → Eval Value} {g : List α → Raising Value}
    (h : Agrees strict false listed P r l) (herror : ∀ e, f (.error e) = pure (.error e))
    (hnext : ∀ as, P as → Evaluates strict returns (f (.ok as)) (g as)) :
    Evaluates strict returns (r >>= f) (l >>= g) := by
  refine Agrees.bind h (fun r as hlisted has => ?_) fun r s hlisted _ => ?_
  · cases r with
    | error err => contradiction
    | ok others =>
      cases hlisted
      exact hnext _ has
  · cases r with
    | error err =>
      cases hlisted
      rw [herror err]
      exact ⟨trivial, fun n => ⟨.error err, n, rfl, ⟨rfl, rfl⟩, rfl⟩⟩
    | ok others => contradiction

theorem display {run : Expr → Eval Value} {run' : Expr → Raising Value} {es : List Expr}
    (hrun : ∀ e ∈ es, Evaluates strict false (run e) (run' e)) :
    Evaluates strict returns (Rule.display run es) (Raising.display run' es) := by
  have huse : ∀ v : Value, v.Clean strict → Agrees strict false .ok (fun _ => True)
      (Eval.ofExcept v.text) (Raising.step (Eval.ofExcept v.text)) := fun v _ =>
    (ofExcept_agrees v.text).mono fun _ _ => trivial
  refine withList (collect hrun huse) (fun _ => rfl) fun texts _ => ?_
  exact (print_agrees _).step fun _ _ => value trivial

/-! ## Loops -/

/-- What the verdict of a test stands for.  A loop is left with `null` or with an error. -/
def verdictRaised : Rule.Verdict → Except Signal Bool
  | .goOn => .ok true
  | .leave .null => .ok false
  | .leave (.error e) => .error (.error e)
  | .leave v => .error (.returned v)

theorem verdictRaised_false {d : Rule.Verdict} (h : verdictRaised d = .ok false) : d = .leave .null := by
  cases d with
  | goOn => exact absurd (Except.ok.inj h) (by decide)
  | leave v =>
    cases v with
    | null => rfl
    | int n | float x | bool b | str s | function f | returned w | error e => contradiction

theorem verdictRaised_true {d : Rule.Verdict} (h : verdictRaised d = .ok true) : d = .goOn := by
  cases d with
  | goOn => rfl
  | leave v =>
    cases v with
    | null => exact absurd (Except.ok.inj h) (by decide)
    | int n | float x | bool b | str s | function f | returned w | error e => contradiction

theorem verdictRaised_error {d : Rule.Verdict} {s : Signal} (h : verdictRaised d = .error s)
    (hs : s.Allowed strict false) : ∃ e, d = .leave (.error e) ∧ s = .error e := by
  cases d with
  | goOn => contradiction
  | leave v =>
    cases v with
    | error e => cases h; exact ⟨e, rfl, rfl⟩
    | null => contradiction
    | int n | float x | bool b | str s | function f | returned w =>
      cases h
      exact absurd hs.1 Bool.false_ne_true

/-- The tests of loops agree. -/
def Tests (strict : Bool) (test : Eval Rule.Verdict) (test' : Raising Bool) : Prop :=
  Agrees strict false verdictRaised (fun _ => True) test test'

/-- The test of a loop that comes to an error leaves the loop with it. -/
theorem verdict (h : Evaluates strict false x y) :
    Tests strict (Rule.verdict x) (Raising.truth y) := by
  refine Agrees.bind h (fun v w hview hw => ?_) fun v s hview hs => ?_
  · obtain ⟨rfl, hsignal⟩ := Value.raised_ok hview
    have htruth : ∀ b : Bool, Agrees strict false verdictRaised (fun _ => True)
        (pure (if b then .goOn else .leave .null)) (pure b) := by
      intro b
      cases b with
      | false => exact Agrees.pure rfl trivial
      | true => exact Agrees.pure rfl trivial
    cases w with
    | error e | returned u => contradiction
    | int n | float x | bool b | str s | null | function f => exact htruth _
  · obtain ⟨e, rfl, rfl⟩ := Value.raised_error_only hview hs
    exact ⟨trivial, fun n => ⟨.leave (.error e), n, rfl, ⟨rfl, rfl⟩, rfl⟩⟩

/-- After a test that agrees the loop goes on or is left. -/
theorem tested {test : Eval Rule.Verdict} {test' : Raising Bool} {next : Eval Value}
    {next' : Raising Value} (htest : Tests strict test test')
    (hnext : Evaluates strict returns next next') :
    Evaluates strict returns
      (test >>= fun
        | .leave v => pure v
        | .goOn => next)
      (test' >>= fun b => if b = true then next' else pure .null) := by
  refine Agrees.bind htest (fun d b hd _ => ?_) fun d s hd hs => ?_
  · cases b with
    | false =>
      rw [verdictRaised_false hd]
      exact value trivial
    | true =>
      rw [verdictRaised_true hd]
      exact hnext
  · obtain ⟨e, rfl, rfl⟩ := verdictRaised_error hd hs
    exact ⟨trivial, fun n => ⟨.error e, n, rfl, ⟨rfl, rfl⟩, rfl⟩⟩

section Loops

variable {test : Eval Rule.Verdict} {test' : Raising Bool} {body : Nat → Eval Value}
  {body' : Nat → Raising Value}

/-- By induction on the bound; a round is a test, a body and an update. -/
theorem loop {update : Eval Value} {update' : Raising Value} (htest : Tests strict test test')
    (hbody : ∀ n, Evaluates strict returns (body n) (body' n))
    (hupdate : Evaluates strict false update update') (fuel count : Nat) :
    Evaluates strict returns (Rule.loop test body update fuel count)
      (Raising.loop test' body' update' fuel count) := by
  induction fuel generalizing count with
  | zero => exact Agrees.outOfFuel
  | succ fuel ih =>
    refine tested htest ((hbody (count + 1)).unlessSignal fun _ _ => ?_)
    exact hupdate.unlessError fun _ _ => ih (count + 1)

/-- By induction on the bound; the body comes before the test. -/
theorem loopAfter (hbody : ∀ n, Evaluates strict returns (body n) (body' n))
    (htest : Tests strict test test') (fuel count : Nat) :
    Evaluates strict returns (Rule.loopAfter body test fuel count)
      (Raising.loopAfter body' test' fuel count) := by
  induction fuel generalizing count with
  | zero => exact Agrees.outOfFuel
  | succ fuel ih => exact (hbody (count + 1)).unlessSignal fun _ _ => tested htest (ih (count + 1))

theorem iteration (settings : Settings) (kind : LoopKind) (h : Evaluates strict returns x y) (n : Nat) :
    Evaluates strict returns (Rule.iteration settings kind x n) (Raising.iteration settings kind y n) :=
  (note_agrees settings 3 _).step fun _ _ => h

end Loops

/-! ## Operators -/

theorem truthOf (h : Evaluates strict false x y) :
    Evaluates strict returns (Rule.unlessError x fun v => pure (.bool v.truthy))
      (y >>= fun v => pure (.bool v.truthy)) :=
  h.unlessError fun _ _ => value trivial

/-- `&&` and `||` may do without their right operand, and every other operator needs both. -/
theorem binary {a b : Eval Value} {a' b' : Raising Value} (op : String) (ha : Evaluates strict false a a')
    (hb : Evaluates strict false b b') :
    Evaluates strict returns (Rule.binary op a b) (Raising.binary op a' b') := by
  have hop : ∀ v w, Evaluates strict returns (Eval.ofExcept (binaryOp op v w))
      (Raising.step (Eval.ofExcept (binaryOp op v w)) >>= Raising.raise) := fun v w =>
    raised ((ofExcept_agrees (binaryOp op v w)).mono fun u hu => (binaryOp_plain hu).answer)
  by_cases hand : op = "&&"
  · subst hand
    refine ha.unlessError fun v _ => ?_
    show Evaluates strict returns
      (if v.truthy then Rule.unlessError b fun w => pure (.bool w.truthy) else pure (.bool false))
      (if v.truthy then b' >>= fun w => pure (.bool w.truthy) else pure (.bool false))
    split
    · exact hb.truthOf
    · exact value trivial
  by_cases hor : op = "||"
  · subst hor
    refine ha.unlessError fun v _ => ?_
    show Evaluates strict returns
      (if v.truthy then pure (.bool true) else Rule.unlessError b fun w => pure (.bool w.truthy))
      (if v.truthy then pure (.bool true) else b' >>= fun w => pure (.bool w.truthy))
    split
    · exact value trivial
    · exact hb.truthOf
  rw [Rule.binary_of_ne hand hor, Raising.binary_of_ne hand hor]
  exact ha.unlessError fun v _ => hb.unlessError fun w _ => hop v w

end Evaluates

/-! ## Calls -/

/-- What the binding of arguments stands for. -/
def refusal : Option RuntimeError → Except Signal Unit
  | none => .ok ()
  | some e => .error (.error e)

section Binding

variable {function : String} {scope : ScopeId} {p : Parameter} {ps : List Parameter} {v w : Value}
  {vs : List Value} {heap : Heap} {output : String} {trace : Array TraceEvent}

theorem bindArguments_cons
    (hcheck : checkArgument function p.name.text p.declared.name v = .ok w) (hw : w.Clean strict) :
    Rule.bindArguments function scope (p :: ps) (v :: vs) ⟨heap, output, trace⟩ =
      Rule.bindArguments function scope ps vs
        ⟨(heap.define scope p.name.text w false).2, output, trace⟩ := by
  rw [Rule.bindArguments, hcheck]
  cases w with
  | returned u | error e => exact hw.elim
  | int n | float x | bool b | str s | null | function f => rfl

theorem raising_bindArguments_bound
    (hcheck : checkArgument function p.name.text p.declared.name v = .ok w) (hw : w.Clean strict) :
    Raising.bindArguments strict function scope (p :: ps) (v :: vs) ⟨heap, output, trace⟩ =
      (Raising.defineParameter strict scope p.name.text w >>= fun _ =>
        Raising.bindArguments strict function scope ps vs) ⟨heap, output, trace⟩ := by
  rw [Raising.bindArguments, hcheck]
  show (Raising.raise w >>= _) (⟨heap, output, trace⟩ : Machine) = _
  rw [raise_clean hw, pure_bind]

/-- Without a repeated name both evaluators bind a parameter alike. -/
theorem raising_bindArguments_cons
    (hcheck : checkArgument function p.name.text p.declared.name v = .ok w) (hw : w.Clean strict)
    (hnew : strict = true → heap.binding? scope p.name.text = none) :
    Raising.bindArguments strict function scope (p :: ps) (v :: vs) ⟨heap, output, trace⟩ =
      Raising.bindArguments strict function scope ps vs
        ⟨(heap.define scope p.name.text w false).2, output, trace⟩ := by
  have hdefine : Raising.defineParameter strict scope p.name.text w ⟨heap, output, trace⟩ =
      .ok w ⟨(heap.define scope p.name.text w false).2, output, trace⟩ := by
    cases strict with
    | false => rfl
    | true =>
      rcases heap.define_cases scope p.name.text w false with ⟨hsome, -⟩ | ⟨-, hvalue, -⟩
      · rw [hnew rfl] at hsome
        contradiction
      · show Raising.raise (heap.define scope p.name.text w false).1 _ = _
        rw [hvalue, raise_clean hw]
        rfl
  rw [raising_bindArguments_bound hcheck hw]
  show EStateM.bind _ _ _ = _
  unfold EStateM.bind
  rw [hdefine]

/-- The scope being bound has none of the names of the remaining parameters, which are distinct. -/
def Bindable (scope : ScopeId) (ps : List Parameter) (heap : Heap) : Prop :=
  (∀ p ∈ ps, heap.binding? scope p.name.text = none) ∧ (ps.map (·.name.text)).Nodup

theorem Bindable.define (h : Bindable scope (p :: ps) heap) (w : Value) :
    Bindable scope ps (heap.define scope p.name.text w false).2 := by
  obtain ⟨hnew, hnodup⟩ := h
  rw [List.map_cons, List.nodup_cons] at hnodup
  refine ⟨fun q hq => ?_, hnodup.2⟩
  cases hb : (heap.define scope p.name.text w false).2.binding? scope q.name.text with
  | none => rfl
  | some b =>
    rcases Heap.binding?_define hb with hold | ⟨hname, -⟩
    · rw [hnew q (List.mem_cons_of_mem _ hq)] at hold
      contradiction
    · exact absurd (hname ▸ List.mem_map_of_mem hq) hnodup.1

/-- By induction on the parameters. With `strict` no name is bound twice, so no declaration is refused. -/
theorem bindArguments_matches (hvs : ∀ v ∈ vs, v.Clean strict) {m m' : Machine} (halike : m.Alike m')
    (hclean : m.heap.Clean strict) (hbindable : strict = true → Bindable scope ps m.heap) :
    Matches strict false refusal (fun _ => True) (Rule.bindArguments function scope ps vs m)
      (Raising.bindArguments strict function scope ps vs m') := by
  induction ps generalizing vs m m' with
  | nil => exact .value rfl trivial halike hclean
  | cons p ps ih =>
    cases vs with
    | nil => exact .value rfl trivial halike hclean
    | cons v vs =>
      obtain ⟨heap, output, trace⟩ := m
      obtain ⟨heap', output', trace'⟩ := m'
      obtain ⟨rfl, rfl⟩ := halike
      cases hcheck : checkArgument function p.name.text p.declared.name v with
      | error f =>
        rw [Rule.bindArguments, Raising.bindArguments, hcheck]
        exact .halt ⟨rfl, rfl⟩
      | ok w =>
        have hw : w.Answer strict := by
          rcases checkArgument_cases hcheck with rfl | hplain
          · exact Or.inl (hvs _ List.mem_cons_self)
          · exact hplain.answer
        rcases hw with hw | ⟨e, rfl⟩
        · rw [bindArguments_cons hcheck hw, raising_bindArguments_cons hcheck hw fun hs =>
            (hbindable hs).1 p List.mem_cons_self]
          exact ih (fun v hv => hvs v (List.mem_cons_of_mem _ hv)) ⟨rfl, rfl⟩ (hclean.define hw false)
            fun hs => (hbindable hs).define w
        · rw [Rule.bindArguments, Raising.bindArguments, hcheck]
          exact .signal rfl trivial ⟨rfl, rfl⟩ hclean

end Binding

/-- What the value of a call or a program stands for. -/
def Value.unwrapped : Value → Except Signal Value
  | .error e => .error (.error e)
  | v => .ok v.unwrap

theorem Value.unwrapped_ok {v w : Value} (h : v.unwrapped = .ok w) : w = v.unwrap := by
  cases v with
  | error e => contradiction
  | int n | float x | bool b | str s | null | function f | returned u => exact (Except.ok.inj h).symm

theorem Value.unwrapped_error {v : Value} {s : Signal} (h : v.unwrapped = .error s) :
    ∃ e, v = .error e ∧ s = .error e := by
  cases v with
  | error e => cases h; exact ⟨e, rfl, rfl⟩
  | int n | float x | bool b | str s | null | function f | returned u => contradiction

/-- A `return` ends the body with its value, and an error goes on through the call. -/
theorem Evaluates.upToReturn {x : Eval Value} {y : Raising Value} (h : Evaluates strict true x y) :
    Agrees strict false Value.unwrapped (Value.Clean strict) x (Raising.upToReturn y) := by
  intro m m' halike hclean
  have hm := h m m' halike hclean
  unfold Raising.upToReturn
  generalize x m = rx at hm ⊢
  generalize y m' = ry at hm ⊢
  cases hm with
  | @value a b n n' hview hb halike hclean =>
    obtain ⟨rfl, -⟩ := Value.raised_ok hview
    refine .value ?_ hb halike hclean
    cases b with
    | returned u | error e => exact hb.elim
    | int n | float x | bool b | str s | null | function f => rfl
  | @signal a s n n' hview hs halike hclean =>
    cases a with
    | error e => cases hview; exact .signal rfl trivial halike hclean
    | returned v => cases hview; exact .value rfl hs.2 halike hclean
    | int n | float x | bool b | str s | null | function f => contradiction
  | halt halike => exact .halt halike

namespace Evaluates

/-- The body of a call ends with its value.  After an error only the signals go on to record it. -/
theorem body {x : Eval Value} {y : Raising Value} (h : Evaluates strict true x y) (settings : Settings)
    (name : String) :
    Evaluates strict returns
      (x >>= fun v => Eval.note settings 2 (fun _ => return .returned name (← v.unwrap.text)) >>= fun _ =>
        pure v.unwrap)
      (Raising.upToReturn y >>= fun v =>
        Raising.step (Eval.note settings 2 fun _ => return .returned name (← v.text)) >>= fun _ =>
          pure v) := by
  refine Agrees.bind h.upToReturn (fun v w hview hw => ?_) fun v s hview _ => ?_
  · cases Value.unwrapped_ok hview
    exact (note_agrees settings 2 _).step fun _ _ => value hw
  · obtain ⟨e, rfl, rfl⟩ := Value.unwrapped_error hview
    refine ⟨trivial, fun n => ?_⟩
    have hevent : (do return TraceEvent.returned name (← (Value.error e).unwrap.text)) =
        Except.ok (TraceEvent.returned name ("ERROR: " ++ e.message)) := rfl
    obtain ⟨n', hnote, halike⟩ := note_ok hevent settings 2 n
    refine ⟨.error e, n', ?_, halike, rfl⟩
    show EStateM.bind _ _ _ = _
    unfold EStateM.bind
    rw [hnote]
    rfl

/-- The body is run after the arguments are bound, in a scope of its own. -/
theorem application {runBody : ScopeId → List Stmt → Eval Value}
    {runBody' : ScopeId → List Stmt → Raising Value} {f : Closure} {arguments : List Value}
    (settings : Settings) (depth : Nat)
    (hbody : ∀ scope, Evaluates strict true (runBody scope f.body.statements)
      (runBody' scope f.body.statements))
    (hfit : Parameter.Fit strict f.parameters) (harguments : ∀ v ∈ arguments, v.Clean strict) :
    Evaluates strict returns (Rule.application settings depth runBody f arguments)
      (Raising.application strict settings depth runBody' f arguments) := by
  unfold Rule.application Raising.application
  rw [Rule.enter_bind]
  split
  · exact Agrees.raise rfl trivial
  · rintro ⟨heap, output, trace⟩ ⟨_, _, trace'⟩ ⟨rfl, rfl⟩ hclean
    -- The new scope binds nothing yet, so only the parameters among themselves can clash.
    have hbindable : strict = true →
        Bindable heap.scopes.size f.parameters (heap.alloc (some f.scope)).2 := by
      refine fun hs => ⟨fun p _ => ?_, hfit hs⟩
      rw [Heap.binding?_alloc, Heap.binding?, Array.getElem?_size]
      rfl
    have halike : Machine.Alike ⟨(heap.alloc (some f.scope)).2, output, trace⟩
        ⟨(heap.alloc (some f.scope)).2, output, trace'⟩ := ⟨rfl, rfl⟩
    refine (bindArguments_matches harguments halike (hclean.alloc _) hbindable).bind
      (fun o _ ho _ => ?_) fun o s ho _ => ?_
    · cases o with
      | some e => contradiction
      | none =>
        rw [Rule.record_bind]
        refine (note_agrees settings 2 _).step fun _ _ => ?_
        unfold Rule.proceed
        dsimp only
        split
        · exact Agrees.raise rfl trivial
        · exact (hbody _).body settings f.displayName
    · cases o with
      | none => contradiction
      | some e =>
        cases ho
        exact ⟨trivial, fun n => ⟨.error e, n, rfl, ⟨rfl, rfl⟩, rfl⟩⟩

/-- The callee comes first, then the arguments, then the call. -/
theorem call {callee : Eval Value} {callee' : Raising Value} {run : Expr → Eval Value}
    {run' : Expr → Raising Value} {apply : Closure → List Value → Eval Value}
    {apply' : Closure → List Value → Raising Value} {es : List Expr}
    (hcallee : Evaluates strict false callee callee')
    (hrun : ∀ e ∈ es, Evaluates strict false (run e) (run' e))
    (happly : ∀ f vs, Value.Clean strict (.function f) → (∀ v ∈ vs, v.Clean strict) →
      Evaluates strict returns (apply f vs) (apply' f vs)) :
    Evaluates strict returns (Rule.call callee run es apply) (Raising.call callee' run' es apply') := by
  refine hcallee.unlessError fun v hv => ?_
  cases v with
  | function f =>
    have huse : ∀ v : Value, v.Clean strict → Agrees strict false .ok (Value.Clean strict) (pure v)
        (Raising.step (pure v)) := fun v hv => Agrees.pure rfl hv
    exact withList (collect hrun huse) (fun _ => rfl) fun vs hvs => happly f vs hv hvs
  | int n | float x | bool b | str s | null | returned u | error e => exact Agrees.raise rfl trivial

end Evaluates

end ScriptLang
