import Mathlib.Data.List.Forall2
import ScriptLang.Proofs.Eval.Trees
import ScriptLang.Proofs.Value.Alike

/-!
  Two runs that correspond, step by step.

  The same tree is run twice, in two heaps that correspond under some matching.  A `Correspondence`
  bundles what this means for heaps, and that the operations on scopes keep to it.

  A run reads and assigns through a scope that sees what its counterpart sees, but it declares only in
  a scope that owns what its counterpart owns.  Only the statements with a `declared?` name need the
  latter for the scope they are run in, since every block and every call makes a scope of its own.

  What may be stored in a scope can be narrowed to the values with a property.  The bounds of the two
  runs need not be equal; the run with the smaller one may then be cut off alone.

  Specification: `runs_all`.  The two runs of every node end alike, with values that are alike under a larger
  matching, with the same output and with heaps that correspond again.

  Crux: `values_iff`.  That two values are alike is that they belong together as the values of a family of two
  runs, where what is known in the course of the runs is the matching; so the walk through the rules is that
  of any family.
-/

namespace ScriptLang

/-- What makes two runs correspond, with the facts about single operations that it rests on. -/
structure Correspondence where
  /-- The heaps that belong together under a matching. -/
  Heaps : Matching → Heap → Heap → Prop
  /-- The traces that belong together. -/
  Traces : Array TraceEvent → Array TraceEvent → Prop
  /-- The values that scopes may hold. -/
  Stored : Value → Prop
  stored_of_not_signal : ∀ {v}, v.isSignal = false → Stored v
  stored_returned : ∀ {v}, Stored (.returned v) → Stored v
  push : ∀ {t t'}, Traces t t' → ∀ e, Traces (t.push e) (t'.push e)
  alloc : ∀ {w h h' a a'}, Heaps w h h' → w.sees a a' →
    ∃ w', w ≤ w' ∧ Heaps w' (h.alloc (some a)).2 (h'.alloc (some a')).2 ∧
      w'.owns h.scopes.size h'.scopes.size
  allocFunction : ∀ {w h h'}, Heaps w h h' →
    ∃ w', w ≤ w' ∧ Heaps w' h.allocFunction.2 h'.allocFunction.2 ∧ w'.same h.functions h'.functions
  define : ∀ {w h h' a a' v v'}, Heaps w h h' → w.owns a a' → w.Alike v v' → Stored v →
    ∀ name constant, Heaps w (h.define a name v constant).2 (h'.define a' name v' constant).2 ∧
      w.Alike (h.define a name v constant).1 (h'.define a' name v' constant).1
  assign : ∀ {w h h' a a' v v'}, Heaps w h h' → w.sees a a' → w.Alike v v' → Stored v →
    ∀ name, Heaps w (h.assign a name v).2 (h'.assign a' name v').2 ∧
      w.Alike (h.assign a name v).1 (h'.assign a' name v').1
  get? : ∀ {w h h' a a'}, Heaps w h h' → w.sees a a' →
    ∀ name, Option.Rel (fun v v' => w.Alike v v' ∧ Stored v) (h.get? a name) (h'.get? a' name)

/-- Which of two runs may have the smaller bound. -/
inductive Slack
  | neither
  | first
  | second

/-- The bounds that two runs may have. -/
def Slack.Allows : Slack → Nat → Nat → Prop
  | .neither, n, n' => n = n'
  | .first, n, n' => n ≤ n'
  | .second, n, n' => n' ≤ n

theorem Slack.Allows.pred {slack : Slack} {n n' : Nat} (h : slack.Allows (n + 1) (n' + 1)) :
    slack.Allows n n' := by
  cases slack with
  | neither => exact Nat.succ.inj h
  | first | second => exact Nat.le_of_succ_le_succ h

/-- The bounds of two runs of which one may have a bound that is larger by `surplus`, beyond what both
    have. -/
def Slack.extra (slack : Slack) (surplus : Nat) (i : Bool) : Nat :=
  match slack with
  | .neither => 0
  | .first => bif i then surplus else 0
  | .second => bif i then 0 else surplus

theorem Slack.Allows.exists_surplus {slack : Slack} {n n' : Nat} (h : slack.Allows n n') :
    ∃ surplus fuel, n = slack.extra surplus false + fuel ∧ n' = slack.extra surplus true + fuel := by
  cases slack with
  | neither => exact ⟨0, n, (Nat.zero_add n).symm, (Eq.symm h).trans (Nat.zero_add n).symm⟩
  | first => exact ⟨n' - n, n, (Nat.zero_add n).symm, (Nat.sub_add_cancel h).symm⟩
  | second => exact ⟨n - n', n', (Nat.sub_add_cancel h).symm, (Nat.zero_add n').symm⟩

namespace Correspondence

theorem push_eq {t t' : Array TraceEvent} (h : t = t') (e : TraceEvent) : t.push e = t'.push e := by rw [h]

variable {C : Correspondence} {slack : Slack} {w w' : Matching} {α β : Type} {a a' : ScopeId}
  {v v' : Value}

/-- Machines that belong together. -/
structure Machines (C : Correspondence) (w : Matching) (m m' : Machine) : Prop where
  heaps : C.Heaps w m.heap m'.heap
  output : m.output = m'.output
  trace : C.Traces m.trace m'.trace

/-- Ends of two runs that belong together. -/
inductive Ends (C : Correspondence) (slack : Slack) (w : Matching) (Q : Matching → α → α → Prop) :
    EStateM.Result Halt Machine α → EStateM.Result Halt Machine α → Prop
  | value {w' : Matching} {a a' : α} {m m' : Machine} : w ≤ w' → C.Machines w' m m' → Q w' a a' →
      C.Ends slack w Q (.ok a m) (.ok a' m')
  | halt {w' : Matching} {h : Halt} {m m' : Machine} : w ≤ w' → C.Machines w' m m' →
      C.Ends slack w Q (.error h m) (.error h m')
  | firstCut {m : Machine} {r : EStateM.Result Halt Machine α} : slack = .first →
      C.Ends slack w Q (.error .outOfFuel m) r
  | secondCut {m : Machine} {r : EStateM.Result Halt Machine α} : slack = .second →
      C.Ends slack w Q r (.error .outOfFuel m)

/-- Wherever the two runs start from corresponding machines, they end so. -/
def Related (C : Correspondence) (slack : Slack) (w : Matching) (Q : Matching → α → α → Prop)
    (x y : Eval α) : Prop :=
  ∀ w', w ≤ w' → ∀ m m', C.Machines w' m m' → C.Ends slack w' Q (x m) (y m')

/-- Values that may be stored. -/
def Kept (C : Correspondence) (w : Matching) (v v' : Value) : Prop := w.Alike v v' ∧ C.Stored v

/-- Values of an expression: they may be stored or are errors. -/
def Answer (C : Correspondence) (w : Matching) (v v' : Value) : Prop :=
  w.Alike v v' ∧ (C.Stored v ∨ v.isError = true)

/-- Values of a statement: what a `return` carries may be stored. -/
def Yield (C : Correspondence) (w : Matching) (v v' : Value) : Prop :=
  w.Alike v v' ∧ ∀ u, v = .returned u → C.Stored u

/-- Runs of an expression or a call. -/
abbrev Answers (C : Correspondence) (slack : Slack) (w : Matching) (x x' : Eval Value) : Prop :=
  C.Related slack w C.Answer x x'

/-- Runs of a statement. -/
abbrev Yields (C : Correspondence) (slack : Slack) (w : Matching) (x x' : Eval Value) : Prop :=
  C.Related slack w C.Yield x x'

/-! ## Values -/

theorem Kept.later (h : C.Kept w v v') (hw : w ≤ w') : C.Kept w' v v' := ⟨h.1.later hw, h.2⟩

theorem Kept.answer (h : C.Kept w v v') : C.Answer w v v' := ⟨h.1, Or.inl h.2⟩

theorem Answer.yield (h : C.Answer w v v') : C.Yield w v v' := by
  refine ⟨h.1, ?_⟩
  rintro u rfl
  rcases h.2 with hstored | herror
  · exact C.stored_returned hstored
  · exact absurd herror Bool.false_ne_true

theorem Answer.kept (h : C.Answer w v v') (hv : v.isError = false) : C.Kept w v v' := by
  rcases h.2 with hstored | herror
  · exact ⟨h.1, hstored⟩
  · rw [hv] at herror
    contradiction

theorem answer_error (w : Matching) (e : RuntimeError) : C.Answer w (.error e) (.error e) :=
  ⟨.error e, Or.inr rfl⟩

/-- Numbers, strings, booleans, `null` and errors. -/
theorem answer_plain (hv : v.Plain) : C.Answer w v v := by
  refine ⟨.plain hv.closure?_eq, ?_⟩
  cases v with
  | function f | returned u => exact hv.elim
  | error e => exact Or.inr rfl
  | int n | float x | bool b | str s | null => exact Or.inl (C.stored_of_not_signal rfl)

theorem Yield.later (h : C.Yield w v v') (hw : w ≤ w') : C.Yield w' v v' := ⟨h.1.later hw, h.2⟩

/-! ## Sequencing -/

section Sequencing

variable {P : Matching → α → α → Prop} {Q : Matching → β → β → Prop} {x y : Eval α} {f g : α → Eval β}

theorem Ends.earlier {r r' : EStateM.Result Halt Machine α} (h : C.Ends slack w' P r r') (hw : w ≤ w') :
    C.Ends slack w P r r' := by
  cases h with
  | value hw' hm hP => exact .value (w.le_trans hw hw') hm hP
  | halt hw' hm => exact .halt (w.le_trans hw hw') hm
  | firstCut hs => exact .firstCut hs
  | secondCut hs => exact .secondCut hs

theorem Related.later (h : C.Related slack w P x y) (hw : w ≤ w') : C.Related slack w' P x y :=
  fun w'' hw' m m' hm => h w'' (w.le_trans hw hw') m m' hm

theorem Related.mono {P' : Matching → α → α → Prop} (h : C.Related slack w P x y)
    (hP : ∀ w a a', P w a a' → P' w a a') : C.Related slack w P' x y := by
  intro w' hw m m' hm
  have hend := h w' hw m m' hm
  generalize x m = r at hend ⊢
  generalize y m' = r' at hend ⊢
  cases hend with
  | value hw' hm' hQ => exact .value hw' hm' (hP _ _ _ hQ)
  | halt hw' hm' => exact .halt hw' hm'
  | firstCut hs => exact .firstCut hs
  | secondCut hs => exact .secondCut hs

theorem Related.bind (h : C.Related slack w P x y)
    (hnext : ∀ w' a a', w ≤ w' → P w' a a' → C.Related slack w' Q (f a) (g a')) :
    C.Related slack w Q (x >>= f) (y >>= g) := by
  intro w' hw m m' hm
  have hend := h w' hw m m' hm
  show C.Ends slack w' Q (EStateM.bind x f m) (EStateM.bind y g m')
  unfold EStateM.bind
  generalize x m = r at hend ⊢
  generalize y m' = r' at hend ⊢
  cases hend with
  | value hw' hm' hP =>
    -- what comes next may use all that has been matched meanwhile
    have hnext' := hnext _ _ _ (w.le_trans hw hw') hP
    exact (hnext' _ (Matching.le_refl _) _ _ hm').earlier hw'
  | halt hw' hm' => exact .halt hw' hm'
  | firstCut hs => exact .firstCut hs
  | secondCut hs => exact .secondCut hs

theorem Related.pure {a a' : α} (h : ∀ w', w ≤ w' → P w' a a') :
    C.Related slack w P (Pure.pure a) (Pure.pure a') :=
  fun w' hw _ _ hm => .value (Matching.le_refl w') hm (h w' hw)

/-- A bound of zero cuts a run off, together with the other or alone. -/
theorem related_zero {n : Nat} (h : slack.Allows 0 n) (hzero : n = 0 → y = Eval.outOfFuel) :
    C.Related slack w P Eval.outOfFuel y := by
  intro w' _ m m' hm
  cases slack with
  | neither =>
    rw [hzero (Eq.symm h)]
    exact .halt (Matching.le_refl w') hm
  | first => exact .firstCut rfl
  | second =>
    rw [hzero (Nat.le_zero.1 h)]
    exact .secondCut rfl

theorem related_succ_zero {n : Nat} (h : slack.Allows (n + 1) 0) :
    C.Related slack w P x Eval.outOfFuel := by
  intro w' _ m m' _
  cases slack with
  | neither => exact absurd h (Nat.succ_ne_zero n)
  | first => exact absurd h (Nat.not_succ_le_zero n)
  | second => exact .secondCut rfl

/-- A run that has nothing to spare is cut off, together with the other or alone. -/
theorem related_cut {surplus : Nat} {x : Bool → Eval α}
    (hx : ∀ i, slack.extra surplus i = 0 → x i = Eval.outOfFuel) : C.Related slack w P (x false) (x true) := by
  intro w' _ m m' hm
  cases slack with
  | neither =>
    rw [hx false rfl, hx true rfl]
    exact .halt (Matching.le_refl w') hm
  | first =>
    rw [hx false rfl]
    exact .firstCut rfl
  | second =>
    rw [hx true rfl]
    exact .secondCut rfl

/-- A choice that both runs make alike. -/
theorem Related.ite {p p' q q' : Eval α} {c c' : Prop} [Decidable c] [Decidable c'] (hc : c ↔ c')
    (htrue : C.Related slack w P p p') (hfalse : C.Related slack w P q q') :
    C.Related slack w P (if c then p else q) (if c' then p' else q') := by
  by_cases h : c
  · rw [if_pos h, if_pos (hc.1 h)]
    exact htrue
  · rw [if_neg h, if_neg fun h' => h (hc.2 h')]
    exact hfalse

end Sequencing

/-! ## Steps on the machine -/

section Steps

open Eval

theorem newScope_related (hsees : w.sees a a') :
    C.Related slack w (fun w b b' => w.owns b b') (newScope (some a)) (newScope (some a')) := by
  rintro w₁ hw ⟨heap, output, trace⟩ ⟨heap', output', trace'⟩ ⟨hheaps, houtput, htrace⟩
  obtain ⟨w₂, hw₂, hheaps₂, howns⟩ := C.alloc hheaps (hw.sees hsees)
  exact .value hw₂ ⟨hheaps₂, houtput, htrace⟩ howns

theorem newFunction_related :
    C.Related slack w (fun w i i' => w.same i i') newFunction newFunction := by
  rintro w₁ hw ⟨heap, output, trace⟩ ⟨heap', output', trace'⟩ ⟨hheaps, houtput, htrace⟩
  obtain ⟨w₂, hw₂, hheaps₂, hsame⟩ := C.allocFunction hheaps
  exact .value hw₂ ⟨hheaps₂, houtput, htrace⟩ hsame

theorem lookup?_related (hsees : w.sees a a') (name : String) :
    C.Related slack w (fun w o o' => Option.Rel (C.Kept w) o o') (lookup? a name) (lookup? a' name) := by
  intro w₁ hw m m' hm
  exact .value (Matching.le_refl w₁) hm (C.get? hm.heaps (hw.sees hsees) name)

theorem print_related (line : String) :
    C.Related slack w (fun _ _ _ => True) (print line) (print line) := by
  rintro w₁ hw ⟨heap, output, trace⟩ ⟨heap', output', trace'⟩ ⟨hheaps, houtput, htrace⟩
  refine .value (Matching.le_refl w₁) ⟨hheaps, ?_, htrace⟩ trivial
  show output ++ line ++ "\n" = output' ++ line ++ "\n"
  rw [show output = output' from houtput]

theorem ofExcept_related (r : Except Fault α) :
    C.Related slack w (fun _ b b' => b = b' ∧ r = .ok b) (ofExcept r) (ofExcept r) := by
  intro w₁ hw m m' hm
  cases r with
  | ok b => exact .value (Matching.le_refl w₁) hm ⟨rfl, rfl⟩
  | error f => exact .halt (Matching.le_refl w₁) hm

theorem note_related (settings : Settings) (level : Nat) {event event' : Unit → Except Fault TraceEvent}
    (hevent : event () = event' ()) :
    C.Related slack w (fun _ _ _ => True) (note settings level event) (note settings level event') := by
  intro w₁ hw m m' hm
  unfold note
  rw [hevent]
  split
  · cases event' () with
    | ok e => exact .value (Matching.le_refl w₁) ⟨hm.heaps, hm.output, C.push hm.trace e⟩ trivial
    | error f => exact .halt (Matching.le_refl w₁) hm
  · exact .value (Matching.le_refl w₁) hm trivial

theorem define_related (howns : w.owns a a') (hv : C.Kept w v v') (name : String) (constant : Bool) :
    C.Answers slack w (Eval.define a name v constant) (Eval.define a' name v' constant) := by
  rintro w₁ hw ⟨heap, output, trace⟩ ⟨heap', output', trace'⟩ ⟨hheaps, houtput, htrace⟩
  have hv₁ := hv.later hw
  obtain ⟨hheaps₁, halike⟩ := C.define hheaps (hw.owns howns) hv₁.1 hv₁.2 name constant
  have hstored : C.Stored (heap.define a name v constant).1 ∨
      (heap.define a name v constant).1.isError = true := by
    rcases heap.define_cases a name v constant with ⟨-, heq⟩ | ⟨-, heq, -⟩
    · rw [heq]
      exact Or.inr rfl
    · rw [heq]
      exact Or.inl hv₁.2
  exact .value (Matching.le_refl w₁) ⟨hheaps₁, houtput, htrace⟩ ⟨halike, hstored⟩

theorem assign_related (hsees : w.sees a a') (hv : C.Kept w v v') (name : String) :
    C.Answers slack w (Eval.assign a name v) (Eval.assign a' name v') := by
  rintro w₁ hw ⟨heap, output, trace⟩ ⟨heap', output', trace'⟩ ⟨hheaps, houtput, htrace⟩
  have hv₁ := hv.later hw
  obtain ⟨hheaps₁, halike⟩ := C.assign hheaps (hw.sees hsees) hv₁.1 hv₁.2 name
  have hstored : C.Stored (heap.assign a name v).1 ∨ (heap.assign a name v).1.isError = true := by
    rcases heap.assign_cases a name v with ⟨e, heq⟩ | ⟨owner, b, -, -, heq, -⟩
    · rw [heq]
      exact Or.inr rfl
    · rw [heq]
      exact Or.inl hv₁.2
  exact .value (Matching.le_refl w₁) ⟨hheaps₁, houtput, htrace⟩ ⟨halike, hstored⟩

end Steps

/-! ## The two runs as a family -/

/-- What the first run has and what the second. -/
def pair (b b' : α) : Bool → α
  | false => b
  | true => b'

theorem pair_eta (b : Bool → α) : pair (b false) (b true) = b := by
  funext i
  cases i <;> rfl

theorem pair_map (g : α → β) (b b' : α) : pair (g b) (g b') = fun i => g (pair b b' i) := by
  funext i
  cases i <;> rfl

theorem pair_self (b : α) : pair b b = fun _ => b := pair_eta fun _ => b

theorem not_signal_of_plain (hv : v.Plain) (herror : v.isError = false) : v.isSignal = false := by
  cases v with
  | function f | returned u => exact hv.elim
  | error e => cases herror
  | int n | float x | bool b | str s | null => rfl

/-- Scopes and functions belong together as the matching says. -/
def frame (C : Correspondence) : Frame Bool where
  origin := false
  World := Matching
  Later w w' := w ≤ w'
  later_trans := Matching.le_trans
  Sees w scope := w.sees (scope false) (scope true)
  Owns w scope := w.owns (scope false) (scope true)
  Same w number := w.same (number false) (number true)
  owns_sees {w _} h := w.owns_sees h
  sees_later h hw := hw.sees h
  owns_later h hw := hw.owns h
  same_later h hw := hw.same h
  same_iff {w _ _} h h' i j := by
    have hiff := w.same_iff h h'
    cases i <;> cases j
    · exact Iff.rfl
    · exact hiff
    · exact hiff.symm
    · exact Iff.rfl
  tokens _ := id
  features := .all
  budget := .unlimited
  Stored v := C.Stored (v false)
  stored_plain hv herror := C.stored_of_not_signal (not_signal_of_plain hv herror)
  stored_function _ := C.stored_of_not_signal rfl
  stored_returned h := C.stored_returned h

theorem closures_of_alike {f f' : Closure} (h : w.Alike (.function f) (.function f')) :
    C.frame.Closures w (pair f f') := by
  cases h with
  | plain hv => cases hv
  | @function _ number scope hsame hsees =>
    have hcopy : C.frame.Closures w fun i => f.copy id (pair f.id number i) (pair f.scope scope i) :=
      .copies hsame hsees ⟨Parameter.within_all _, f.body.within_all⟩ trivial
    have hcopies : (fun i => f.copy id (pair f.id number i) (pair f.scope scope i)) =
        pair f { f with id := number, scope := scope } := by
      funext i
      cases i
      · exact f.copy_id f.id f.scope
      · exact f.copy_id number scope
    rwa [hcopies] at hcopy

theorem values_of_none (hv : v.closure? = none) : C.frame.Values w fun _ => v := by
  induction v with
  | function f => cases hv
  | returned u ih => exact .returned (ih hv)
  | int n | float x | bool b | str s | null | error e => exact .plain trivial fun _ => rfl

/-- Two values are alike if and only if they belong together. -/
theorem values_iff {v : Bool → Value} : C.frame.Values w v ↔ w.Alike (v false) (v true) := by
  constructor
  · intro h
    induction h with
    | plain hv _ => exact .plain hv.closure?_eq
    | returned _ ih => exact .returned ih
    | function hf =>
      obtain @⟨f, number, scope, hsame, hsees⟩ := hf
      have hcopy (i : Bool) : f.copy id (number i) (scope i) = { f with id := number i, scope := scope i } :=
        f.copy_id (number i) (scope i)
      show w.Alike (.function (f.copy id (number false) (scope false)))
        (.function (f.copy id (number true) (scope true)))
      rw [hcopy, hcopy]
      exact .function (f := { f with id := number false, scope := scope false }) hsame hsees
  · intro h
    rw [← pair_eta v]
    generalize v false = u at h
    generalize v true = u' at h
    induction h with
    | plain hv =>
      rw [pair_self]
      exact values_of_none hv
    | function hsame hsees =>
      rw [pair_map Value.function]
      exact .function (closures_of_alike (.function hsame hsees))
    | returned _ ih =>
      rw [pair_map Value.returned]
      exact .returned ih

theorem kept_iff {v : Bool → Value} : C.frame.Kept w v ↔ C.Kept w (v false) (v true) :=
  ⟨fun h => ⟨values_iff.1 h.values, h.stored⟩, fun h => ⟨values_iff.2 h.1, h.2⟩⟩

theorem answer_iff {v : Bool → Value} : C.frame.Outcome false w v ↔ C.Answer w (v false) (v true) := by
  constructor
  · intro h
    cases h with
    | kept hv => exact (kept_iff.1 hv).answer
    | error e => exact answer_error w e
    | returned hr _ => cases hr
  · intro h
    have hvalues : C.frame.Values w v := values_iff.2 h.1
    cases herror : (v false).isError with
    | false => exact .kept ⟨hvalues, (h.kept herror).2⟩
    | true =>
      cases hvalues with
      | plain hv hallowed => exact Frame.outcome_plain hv hallowed
      | function _ | returned _ => cases herror

theorem yield_iff {v : Bool → Value} : C.frame.Outcome true w v ↔ C.Yield w (v false) (v true) := by
  constructor
  · intro h
    cases h with
    | kept hv => exact (kept_iff.1 hv).answer.yield
    | error e => exact (answer_error w e).yield
    | returned _ hv =>
      refine ⟨.returned (kept_iff.1 hv).1, ?_⟩
      rintro _ ⟨⟩
      exact hv.stored
  · intro h
    have hvalues : C.frame.Values w v := values_iff.2 h.1
    cases hvalues with
    | plain hv hallowed => exact Frame.outcome_plain hv hallowed
    | function hf => exact .kept (Frame.outcome_function hf)
    | returned hv => exact .returned rfl ⟨hv, h.2 _ rfl⟩

/-- The steps of the two runs, of which one may have a bound that is larger by `surplus`. -/
def steps (C : Correspondence) (slack : Slack) (surplus : Nat) (settings : Settings) : Steps Bool where
  toFrame := C.frame
  settings _ := settings
  watch _ := .silent
  extra := slack.extra surplus
  Records _ := True
  records _ _ := trivial
  Holds w _ Q x := C.Related slack w (fun w b b' => Q w (pair b b')) (x false) (x true)
  later h hw := h.later hw
  result {_ _ _ _ b} h := Related.pure fun w' hw => by
    rw [pair_eta b]
    exact h w' hw
  chain hx hnext _ := hx.bind fun w' b b' hw hb => hnext w' (pair b b') hw hb
  newScope h := newScope_related h
  newFunction := newFunction_related
  lookup? h name := (lookup?_related h name).mono fun _ o o' ho => by
    cases ho with
    | none =>
      rw [pair_self]
      exact .none
    | some hv =>
      rw [pair_map some]
      exact .some (kept_iff.2 hv)
  define h hv name constant := (define_related h (kept_iff.1 hv) name constant).mono fun _ _ _ hu => answer_iff.2 hu
  assign h hv name := (assign_related h (kept_iff.1 hv) name).mono fun _ _ _ hu => answer_iff.2 hu
  print line := print_related line
  ofExcept {_ _ _ r} _ := (ofExcept_related r).mono fun _ b b' hb => by
    obtain ⟨rfl, hr⟩ := hb
    exact ⟨b, pair_self b, hr⟩
  note {_ _ level event} _ _ := note_related settings level rfl
  cut hx _ := related_cut hx
  seen hx := by
    simp only [Watched.seen_silent]
    exact hx

def logic (C : Correspondence) (slack : Slack) (surplus : Nat) (settings : Settings) : Logic Bool where
  toSteps := C.steps slack surplus settings
  call hf hvs _ hbody := Steps.call_of_limit (fun _ _ => trivial) hf hvs (fun _ _ hw hx =>
    Steps.silent_limit (fun _ => rfl) trivial (fun _ => rfl) (hf.later hw) hx) hbody

section Families

variable {x x' : Eval Value}

theorem answers_iff {surplus : Nat} {settings : Settings} {x : Bool → Eval Value} :
    (C.steps slack surplus settings).Answers w x ↔ C.Answers slack w (x false) (x true) :=
  ⟨fun h => Related.mono h fun _ _ _ hv => answer_iff.1 hv, fun h => h.mono fun _ _ _ hv => answer_iff.2 hv⟩

theorem yields_iff {surplus : Nat} {settings : Settings} {x : Bool → Eval Value} :
    (C.steps slack surplus settings).Outcomes true w x ↔ C.Yields slack w (x false) (x true) :=
  ⟨fun h => Related.mono h fun _ _ _ hv => yield_iff.1 hv, fun h => h.mono fun _ _ _ hv => yield_iff.2 hv⟩

theorem Answers.yields (h : C.Answers slack w x x') : C.Yields slack w x x' := h.mono fun _ _ _ hv => hv.yield

theorem yields_plain (hv : v.Plain) : C.Yields slack w (pure v) (pure v) :=
  Related.pure fun _ _ => (answer_plain hv).yield

end Families

/-! ## Loops -/

section Loops

variable {test test' : Eval Rule.Verdict}

/-- Tests that decide alike; a loop is left with `null` or an error. -/
abbrev Decides (C : Correspondence) (slack : Slack) (w : Matching) (test test' : Eval Rule.Verdict) : Prop :=
  (C.steps slack 0 {}).Decides w (pair test test')

theorem decides_goOn : C.Decides slack w (pure .goOn) (pure .goOn) := by
  have hdecides : (C.steps slack 0 {}).Decides w fun _ => pure .goOn := Steps.goOn
  exact hdecides

theorem Answers.verdict {x x' : Eval Value} (hx : C.Answers slack w x x') :
    C.Decides slack w (Rule.verdict x) (Rule.verdict x') := by
  have hanswers : (C.steps slack 0 {}).Answers w (pair x x') := answers_iff.2 hx
  exact Steps.verdict hanswers

/-- A loop is left, or goes on with what comes after its test. -/
theorem Decides.tested {next next' : Rule.Verdict → Eval Value} (htest : C.Decides slack w test test')
    (hleave : ∀ v, next (.leave v) = pure v ∧ next' (.leave v) = pure v)
    (hgoOn : ∀ w', w ≤ w' → C.Yields slack w' (next .goOn) (next' .goOn)) :
    C.Yields slack w (test >>= next) (test' >>= next') := by
  have hruns : (C.steps slack 0 {}).Outcomes true w fun i => pair test test' i >>= pair next next' i := by
    refine Steps.tested htest (fun i v => ?_) fun w' hw => yields_iff.2 (hgoOn w' hw)
    cases i
    · exact (hleave v).1
    · exact (hleave v).2
  exact yields_iff.1 hruns

end Loops

/-! ## All runs -/

/-- Arguments of a call. -/
abbrev Arguments (C : Correspondence) (w : Matching) (vs vs' : List Value) : Prop :=
  List.Forall₂ (C.Answer w) vs vs'

theorem aligned_of_arguments {vs vs' : List Value} (h : C.Arguments w vs vs') :
    Aligned (C.frame.Outcome false w) (pair vs vs') := by
  induction h with
  | nil =>
    rw [pair_self]
    exact .nil
  | @cons v v' vs vs' hv _ ih =>
    have hcons : pair (v :: vs) (v' :: vs') = fun i => pair v v' i :: pair vs vs' i := by
      funext i
      cases i <;> rfl
    rw [hcons]
    exact .cons (answer_iff.2 hv) ih

/-- Runs with the two bounds correspond. -/
structure Runs (C : Correspondence) (slack : Slack) (settings : Settings) (n n' : Nat) : Prop where
  expr : ∀ {w a a'}, w.sees a a' → ∀ depth e,
    C.Answers slack w (evalExpr settings n depth a e) (evalExpr settings n' depth a' e)
  stmt : ∀ {w a a'} s, w.sees a a' → (s.declared? ≠ none → w.owns a a') → ∀ depth,
    C.Yields slack w (evalStmt settings n depth a s) (evalStmt settings n' depth a' s)
  /-- Without a `return` a statement ends as an expression does. -/
  returnFree : ∀ {w a a'} {s : Stmt}, s.ReturnFree → w.sees a a' → (s.declared? ≠ none → w.owns a a') → ∀ depth,
    C.Answers slack w (evalStmt settings n depth a s) (evalStmt settings n' depth a' s)
  block : ∀ {w a a'}, w.sees a a' → ∀ depth b,
    C.Yields slack w (evalBlock settings n depth a b) (evalBlock settings n' depth a' b)
  inOrder : ∀ {w a a' v v'}, w.owns a a' → C.Yield w v v' → ∀ depth ss,
    C.Yields slack w (Rule.inOrder (evalStmt settings n depth a) v ss)
      (Rule.inOrder (evalStmt settings n' depth a') v' ss)
  returnFree_inOrder : ∀ {w a a'} {ss : List Stmt}, stmtsReturnFree ss → w.owns a a' → ∀ depth,
    C.Answers slack w (Rule.inOrder (evalStmt settings n depth a) .null ss)
      (Rule.inOrder (evalStmt settings n' depth a') .null ss)
  apply : ∀ {w f f' vs vs'}, w.Alike (.function f) (.function f') → C.Arguments w vs vs' → ∀ depth,
    C.Answers slack w (applyFunction settings n depth f vs) (applyFunction settings n' depth f' vs')

section Runs

variable {settings : Settings} {n n' : Nat}

theorem runs_all (C : Correspondence) (settings : Settings) (hn : slack.Allows n n') :
    C.Runs slack settings n n' := by
  obtain ⟨surplus, fuel, hfirst, hsecond⟩ := hn.exists_surplus
  let L := C.logic slack surplus settings
  have hcovers := L.covers fuel
  have hsame (k : Nat) := Watched.same settings k
  -- no token is changed, and nothing watches
  constructor
  · intro w a a' hsees depth e
    have hruns : L.Answers w (L.exprRuns fuel depth (pair a a') e) := hcovers.expr hsees e.within_all trivial
    have hanswers : C.Answers slack w (Watched.expr .silent settings n depth a (e.retoken id))
        (Watched.expr .silent settings n' depth a' (e.retoken id)) := by
      rw [hfirst, hsecond]
      exact answers_iff.1 hruns
    rwa [e.retoken_id, (hsame n).expr, (hsame n').expr] at hanswers
  · intro w a a' s hsees howns depth
    have hruns : L.Outcomes true w (L.stmtRuns fuel depth (pair a a') s) :=
      hcovers.stmt hsees howns nofun s.within_all trivial
    have hyields : C.Yields slack w (Watched.stmt .silent settings n depth a (s.retoken id))
        (Watched.stmt .silent settings n' depth a' (s.retoken id)) := by
      rw [hfirst, hsecond]
      exact yields_iff.1 hruns
    rwa [s.retoken_id, (hsame n).stmt, (hsame n').stmt] at hyields
  · intro w a a' s hs hsees howns depth
    have hruns : L.Answers w (L.stmtRuns fuel depth (pair a a') s) :=
      hcovers.stmt hsees howns (fun _ => hs) s.within_all trivial
    have hanswers : C.Answers slack w (Watched.stmt .silent settings n depth a (s.retoken id))
        (Watched.stmt .silent settings n' depth a' (s.retoken id)) := by
      rw [hfirst, hsecond]
      exact answers_iff.1 hruns
    rwa [s.retoken_id, (hsame n).stmt, (hsame n').stmt] at hanswers
  · intro w a a' hsees depth b
    have hruns : L.Outcomes true w (L.blockRuns fuel depth (pair a a') b) :=
      hcovers.block hsees nofun b.within_all trivial
    have hyields : C.Yields slack w (Watched.block .silent settings n depth a (b.retoken id))
        (Watched.block .silent settings n' depth a' (b.retoken id)) := by
      rw [hfirst, hsecond]
      exact yields_iff.1 hruns
    rwa [b.retoken_id, (hsame n).block, (hsame n').block] at hyields
  · intro w a a' v v' howns hlast depth ss
    have hruns : L.Outcomes true w (L.bodyRuns fuel depth (pair a a') (pair v v') ss) :=
      hcovers.inOrder howns (yield_iff.2 hlast) nofun (fun s _ => s.within_all) fun _ _ => trivial
    have hyields : C.Yields slack w (Rule.inOrder (Watched.stmt .silent settings n depth a) v (retokenStmts id ss))
        (Rule.inOrder (Watched.stmt .silent settings n' depth a') v' (retokenStmts id ss)) := by
      rw [hfirst, hsecond]
      exact yields_iff.1 hruns
    rwa [retokenStmts_id, (hsame n).stmt, (hsame n').stmt] at hyields
  · intro w a a' ss hss howns depth
    have hruns : L.Answers w (L.bodyRuns fuel depth (pair a a') (fun _ => .null) ss) :=
      hcovers.inOrder howns Frame.outcome_null (fun _ => hss) (fun s _ => s.within_all) fun _ _ => trivial
    have hanswers : C.Answers slack w
        (Rule.inOrder (Watched.stmt .silent settings n depth a) .null (retokenStmts id ss))
        (Rule.inOrder (Watched.stmt .silent settings n' depth a') .null (retokenStmts id ss)) := by
      rw [hfirst, hsecond]
      exact answers_iff.1 hruns
    rwa [retokenStmts_id, (hsame n).stmt, (hsame n').stmt] at hanswers
  · intro w f f' vs vs' hf hvs depth
    have hruns : L.Answers w (L.applyRuns fuel depth (pair f f') (pair vs vs')) :=
      hcovers.apply (closures_of_alike hf) (aligned_of_arguments hvs) trivial
    have hanswers : C.Answers slack w (Watched.apply .silent settings n depth f vs)
        (Watched.apply .silent settings n' depth f' vs') := by
      rw [hfirst, hsecond]
      exact answers_iff.1 hruns
    rwa [(hsame n).apply, (hsame n').apply] at hanswers

theorem program_answers (hn : slack.Allows n n') (howns : w.owns a a') (p : Program) :
    C.Answers slack w (evalProgram settings n a p) (evalProgram settings n' a' p) := by
  obtain ⟨surplus, fuel, hfirst, hsecond⟩ := hn.exists_surplus
  let L := C.logic slack surplus settings
  have hruns : L.Answers w fun i => Watched.program .silent settings (slack.extra surplus i + fuel) (pair a a' i)
      (p.retoken id) := L.program howns p.within_all fun _ _ => trivial
  have hanswers : C.Answers slack w (Watched.program .silent settings n a (p.retoken id))
      (Watched.program .silent settings n' a' (p.retoken id)) := by
    rw [hfirst, hsecond]
    exact answers_iff.1 hruns
  rwa [p.retoken_id, Watched.program_silent, Watched.program_silent] at hanswers

theorem node_yields (hn : slack.Allows n n') (howns : w.owns a a') (node : Option Node) :
    C.Yields slack w (evalNode settings n a node) (evalNode settings n' a' node) := by
  have hruns := runs_all C settings hn
  have hsees := w.owns_sees howns
  rcases node with _ | node
  · exact yields_plain trivial
  cases node with
  | program p => exact (program_answers hn howns p).yields
  | stmt s => exact hruns.stmt s hsees (fun _ => howns) 0
  | expr e => exact (hruns.expr hsees 0 e).yields
  | _ => exact yields_plain trivial

theorem runProgram_answers (hn : slack.Allows n n') (howns : w.owns a a') (p : Program) :
    C.Answers slack w (runProgram settings n a p) (runProgram settings n' a' p) := by
  obtain ⟨surplus, fuel, hfirst, hsecond⟩ := hn.exists_surplus
  let L := C.logic slack surplus settings
  have hruns : L.Answers w fun i => Watched.runProgram .silent settings (slack.extra surplus i + fuel) (pair a a' i)
      (p.retoken id) := L.runProgram (fun _ _ => trivial) howns p.within_all fun _ _ => trivial
  have hanswers : C.Answers slack w (Watched.runProgram .silent settings n a (p.retoken id))
      (Watched.runProgram .silent settings n' a' (p.retoken id)) := by
    rw [hfirst, hsecond]
    exact answers_iff.1 hruns
  rwa [p.retoken_id, Watched.runProgram_silent, Watched.runProgram_silent] at hanswers

end Runs

end Correspondence

end ScriptLang
