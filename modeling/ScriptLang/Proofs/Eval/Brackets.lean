import ScriptLang.Proofs.Eval.CallLimit
import ScriptLang.Proofs.Eval.Entry

/-!
  Calls and returns in the trace.

  A call leaves a record when its arguments are bound and another one when its body has come to a value,
  be it by a `return`, by its last statement or by an error.  All that is recorded in between comes from
  the body.  So the records of calls and returns nest like brackets, each return under the name of its
  call.  A run that is halted leaves the brackets open that it is in.

  A call that comes to the limit is on record and never returns.  Therefore runs are looked at that a watch
  ends at such a call.

  Specification: `bracketing`, a logic of single runs.  Crux: its calls.  The record of a call and that of its
  return are no steps on their own; only together, with the body between them, are they well bracketed.
-/

namespace ScriptLang

/-! ## Brackets -/

/-- The calls and returns among events. -/
def callsOf (events : List TraceEvent) : List TraceEvent := events.filter TraceEvent.isCall

theorem callsOf_append (xs ys : List TraceEvent) : callsOf (xs ++ ys) = callsOf xs ++ callsOf ys :=
  List.filter_append ..

/-- Every call is followed by the return from it, and what is in between is of this kind again. -/
inductive WellBracketed : List TraceEvent → Prop
  | nil : WellBracketed []
  | call {f value : String} {arguments : List String} {inner rest : List TraceEvent} :
      WellBracketed inner → WellBracketed rest →
      WellBracketed (.called f arguments :: (inner ++ .returned f value :: rest))

/-- The same with some calls still open at the end. -/
inductive Underway : List TraceEvent → Prop
  | closed {events : List TraceEvent} : WellBracketed events → Underway events
  | inside {f : String} {arguments : List String} {before rest : List TraceEvent} : WellBracketed before →
      Underway rest → Underway (before ++ .called f arguments :: rest)

theorem WellBracketed.append {xs ys : List TraceEvent} (hx : WellBracketed xs) (hy : WellBracketed ys) :
    WellBracketed (xs ++ ys) := by
  induction hx with
  | nil => exact hy
  | @call f value arguments inner rest hinner _ _ ih =>
    rw [List.cons_append, List.append_assoc, List.cons_append]
    exact .call hinner ih

theorem WellBracketed.underway {xs ys : List TraceEvent} (hx : WellBracketed xs) (hy : Underway ys) :
    Underway (xs ++ ys) := by
  cases hy with
  | closed hy => exact .closed (hx.append hy)
  | @inside f arguments before rest hbefore hrest =>
    rw [← List.append_assoc]
    exact .inside (hx.append hbefore) hrest

/-- What a run adds to the trace has calls and returns of the given kind. -/
def Machine.Adds (P : List TraceEvent → Prop) (m m' : Machine) : Prop :=
  ∃ events, m'.trace.toList = m.trace.toList ++ events ∧ P (callsOf events)

namespace Machine.Adds

variable {P : List TraceEvent → Prop} {m m' m'' : Machine}

theorem of_trace_eq (h : m'.trace = m.trace) (hnil : P []) : Adds P m m' :=
  ⟨[], by rw [h, List.append_nil], hnil⟩

theorem append {Q : List TraceEvent → Prop} (h : Adds WellBracketed m m') (h' : Adds Q m' m'')
    (happend : ∀ {xs ys}, WellBracketed xs → Q ys → Q (xs ++ ys)) : Adds Q m m'' := by
  obtain ⟨xs, hxs, hx⟩ := h
  obtain ⟨ys, hys, hy⟩ := h'
  refine ⟨xs ++ ys, by rw [hys, hxs, List.append_assoc], ?_⟩
  rw [callsOf_append]
  exact happend hx hy

/-- A call or a return comes in front. -/
theorem push {Q : List TraceEvent → Prop} {e : TraceEvent} (he : e.isCall = true)
    (h : m'.trace = m.trace.push e) (h' : Adds P m' m'') (hcons : ∀ {xs}, P xs → Q (e :: xs)) : Adds Q m m'' := by
  obtain ⟨xs, hxs, hx⟩ := h'
  refine ⟨e :: xs, ?_, ?_⟩
  · rw [hxs, h, Array.toList_push, List.append_assoc]
    rfl
  · rw [callsOf, List.filter_cons_of_pos he]
    exact hcons hx

/-- A call or a return comes last. -/
theorem snoc {Q : List TraceEvent → Prop} {e : TraceEvent} (he : e.isCall = true) (h : Adds P m m')
    (h' : m''.trace = m'.trace.push e) (hsnoc : ∀ {xs}, P xs → Q (xs ++ [e])) : Adds Q m m'' := by
  obtain ⟨xs, hxs, hx⟩ := h
  refine ⟨xs ++ [e], ?_, ?_⟩
  · rw [h', Array.toList_push, hxs, List.append_assoc]
  · rw [callsOf_append, callsOf, callsOf, List.filter_cons_of_pos he]
    exact hsnoc hx

theorem imp {Q : List TraceEvent → Prop} (h : Adds P m m') (hPQ : ∀ {xs}, P xs → Q xs) : Adds Q m m' := by
  obtain ⟨xs, hxs, hx⟩ := h
  exact ⟨xs, hxs, hPQ hx⟩

end Machine.Adds

/-! ## Runs -/

/-- Calls and returns are bracketed in whatever the run adds to the trace, and its value has the property. -/
structure Bracketed {α : Type} (R : α → Prop) (x : Eval α) : Prop where
  value : ∀ {m a m'}, x m = .ok a m' → R a ∧ m.Adds WellBracketed m'
  halt : ∀ {m h m'}, x m = .error h m' → m.Adds Underway m'

namespace Bracketed

variable {α β : Type} {R : α → Prop}

/-- A run that adds nothing to the trace. -/
theorem of_quiet {x : Eval α} (hvalue : ∀ {m a m'}, x m = .ok a m' → R a ∧ m'.trace = m.trace)
    (hhalt : ∀ {m h m'}, x m = .error h m' → m'.trace = m.trace) : Bracketed R x where
  value h := ⟨(hvalue h).1, .of_trace_eq (hvalue h).2 .nil⟩
  halt h := .of_trace_eq (hhalt h) (.closed .nil)

theorem result {a : α} (ha : R a) : Bracketed R (pure a) := by
  refine of_quiet (fun h => ?_) nofun
  cases h
  exact ⟨ha, rfl⟩

theorem bind {Q : β → Prop} {x : Eval α} {next : α → Eval β} (hx : Bracketed R x)
    (hnext : ∀ a, R a → Bracketed Q (next a)) : Bracketed Q (x >>= next) := by
  constructor
  · intro m b m'' h
    cases hrun : x m with
    | error e m' =>
      rw [Eval.bind_of_error hrun] at h
      cases h
    | ok a m' =>
      obtain ⟨ha, hfirst⟩ := hx.value hrun
      rw [Eval.bind_of_ok hrun] at h
      obtain ⟨hb, hsecond⟩ := (hnext a ha).value h
      exact ⟨hb, hfirst.append hsecond WellBracketed.append⟩
  · intro m e m'' h
    cases hrun : x m with
    | error e' m' =>
      rw [Eval.bind_of_error hrun] at h
      cases h
      exact hx.halt hrun
    | ok a m' =>
      obtain ⟨ha, hfirst⟩ := hx.value hrun
      rw [Eval.bind_of_ok hrun] at h
      exact hfirst.append ((hnext a ha).halt h) WellBracketed.underway

theorem forget {x : Eval α} (h : Bracketed R x) : Bracketed (fun _ => True) x :=
  ⟨fun hrun => ⟨trivial, (h.value hrun).2⟩, h.halt⟩

/-- A step that changes the scopes or the output only. -/
theorem modifyGet {f : Machine → α × Machine} (hvalue : ∀ a, R a) (h : ∀ m, (f m).2.trace = m.trace) :
    Bracketed R (MonadStateOf.modifyGet f : Eval α) := by
  refine of_quiet (fun {m _ _} hrun => ?_) nofun
  cases hrun
  exact ⟨hvalue _, h m⟩

theorem lookup? {R : Option Value → Prop} (hvalue : ∀ o, R o) (scope : ScopeId) (name : String) :
    Bracketed R (Eval.lookup? scope name) := by
  refine of_quiet (fun h => ?_) nofun
  cases h
  exact ⟨hvalue _, rfl⟩

theorem outOfFuel : Bracketed R (Eval.outOfFuel : Eval α) := by
  refine of_quiet nofun fun h => ?_
  cases h
  rfl

theorem ofExcept {r : Except Fault α} (hvalue : ∀ a, r = .ok a → R a) : Bracketed R (Eval.ofExcept r) := by
  cases r with
  | ok a => exact result (hvalue a rfl)
  | error f =>
    refine of_quiet nofun fun h => ?_
    cases h
    rfl

/-- A record that is no call or return. -/
theorem note (settings : Settings) (level : Nat) {event : Except Fault TraceEvent}
    (hevent : ∀ e, event = .ok e → e.isCall = false) :
    Bracketed (fun _ => True) (Eval.note settings level fun _ => event) := by
  constructor
  · intro m a m' h
    rcases note_cases settings level (fun _ => event) m with ⟨_, hnote⟩ | ⟨e, _, he, hnote⟩ | ⟨flt, _, hnote⟩
    · rw [hnote] at h
      cases h
      exact ⟨trivial, .of_trace_eq rfl .nil⟩
    · rw [hnote] at h
      cases h
      refine ⟨trivial, [e], Array.toList_push, ?_⟩
      rw [callsOf, List.filter_cons_of_neg (Bool.eq_false_iff.1 (hevent e he))]
      exact .nil
    · rw [hnote] at h
      cases h
  · intro m halt m' h
    rcases note_cases settings level (fun _ => event) m with ⟨_, hnote⟩ | ⟨e, _, he, hnote⟩ | ⟨flt, _, hnote⟩
    · rw [hnote] at h
      cases h
    · rw [hnote] at h
      cases h
    · rw [hnote] at h
      cases h
      exact .of_trace_eq rfl (.closed .nil)

/-! ## Calls -/

section Calls

variable {settings : Settings} {stop : Closure → Halt} {depth : Nat} {R Q : Value → Prop}
  {runBody : ScopeId → List Stmt → Eval Value} {f : Closure} {vs : List Value} {scope : ScopeId}

/-- Below the limit a call runs its body. -/
theorem proceed_of_lt (h : depth < settings.callLimit) :
    Watched.proceed (.atLimit settings.callLimit stop) settings depth runBody f (.ok scope) = (do
      let v ← runBody scope f.body.statements
      Eval.note settings 2 fun _ => return .returned f.displayName (← v.unwrap.text)
      return v.unwrap) := by
  show (Watch.atLimit settings.callLimit stop (.call depth f scope) >>= fun _ => _) = _
  rw [Watch.atLimit_of_lt h, pure_bind]
  exact if_neg (Nat.not_le_of_lt h)

theorem proceed_of_le (h : settings.callLimit ≤ depth) (m : Machine) :
    Watched.proceed (.atLimit settings.callLimit stop) settings depth runBody f (.ok scope) m =
      .error (stop f) m := by
  show (Watch.atLimit settings.callLimit stop (.call depth f scope) >>= fun _ => _) m = _
  rw [Watch.atLimit_of_le h]
  rfl

/-- What comes after the record of a call: the body, and the record of the return. -/
theorem proceed_records (hlevel : 2 ≤ settings.traceLevel)
    (hbody : Bracketed R (runBody scope f.body.statements)) (m m' : Machine) :
    (∀ {v}, Watched.proceed (.atLimit settings.callLimit stop) settings depth runBody f (.ok scope) m = .ok v m' →
      ∃ text, v.text = .ok text ∧
        m.Adds (fun w => ∃ inner, WellBracketed inner ∧ w = inner ++ [.returned f.displayName text]) m') ∧
    ∀ {halt}, Watched.proceed (.atLimit settings.callLimit stop) settings depth runBody f (.ok scope) m =
      .error halt m' → m.Adds Underway m' := by
  by_cases hlimit : settings.callLimit ≤ depth
  · rw [proceed_of_le hlimit]
    refine ⟨nofun, fun h => ?_⟩
    cases h
    exact .of_trace_eq rfl (.closed .nil)
  rw [proceed_of_lt (Nat.lt_of_not_le hlimit)]
  cases hrun : runBody scope f.body.statements m with
  | error halt m₁ =>
    rw [Eval.bind_of_error hrun]
    refine ⟨nofun, fun h => ?_⟩
    cases h
    exact hbody.halt hrun
  | ok v m₁ =>
    have hinner := (hbody.value hrun).2
    rw [Eval.bind_of_ok hrun]
    rcases note_cases settings 2 (fun _ => return .returned f.displayName (← v.unwrap.text)) m₁ with
      ⟨habove, _⟩ | ⟨e, _, hevent, hnote⟩ | ⟨flt, _, hnote⟩
    · omega
    · obtain ⟨text, htext, rfl⟩ := shown_of_event hevent
      rw [Eval.bind_of_ok hnote]
      refine ⟨fun h => ?_, nofun⟩
      cases h
      exact ⟨text, htext, hinner.snoc rfl rfl fun hxs => ⟨_, hxs, rfl⟩⟩
    · rw [Eval.bind_of_error hnote]
      refine ⟨nofun, fun h => ?_⟩
      cases h
      exact hinner.imp .closed

/-- A call that has bound its arguments leaves its record in front of those of the body, and the record of
    its return behind them. -/
theorem call_records (hlevel : 2 ≤ settings.traceLevel)
    (hbody : Bracketed R (runBody scope f.body.statements)) (m m' : Machine) :
    (∀ {v}, (Rule.record settings f vs scope none >>=
        Watched.proceed (.atLimit settings.callLimit stop) settings depth runBody f) m = .ok v m' →
      ∃ texts text, Rule.texts vs = .ok texts ∧ v.text = .ok text ∧
        m.Adds (fun w => ∃ inner, WellBracketed inner ∧
          w = .called f.displayName texts :: (inner ++ [.returned f.displayName text])) m') ∧
    ∀ {halt}, (Rule.record settings f vs scope none >>=
        Watched.proceed (.atLimit settings.callLimit stop) settings depth runBody f) m = .error halt m' →
      m.Adds Underway m' := by
  rcases record_cases settings f vs scope m with
    ⟨habove, _⟩ | ⟨texts, _, htexts, hrecord⟩ | ⟨flt, hrecord⟩
  · omega
  · rw [Eval.bind_of_ok hrecord]
    constructor
    · intro v h
      obtain ⟨text, htext, hadds⟩ := (proceed_records hlevel hbody _ m').1 h
      refine ⟨texts, text, htexts, htext, hadds.push rfl rfl ?_⟩
      rintro _ ⟨inner, hinner, rfl⟩
      exact ⟨inner, hinner, rfl⟩
    · intro halt h
      exact ((proceed_records hlevel hbody _ m').2 h).push rfl rfl fun hxs => .inside .nil hxs
  · rw [Eval.bind_of_error hrecord]
    refine ⟨nofun, fun h => ?_⟩
    cases h
    exact .of_trace_eq rfl (.closed .nil)

/-- Without records of calls there is nothing to nest. -/
theorem call_unrecorded (hlevel : settings.traceLevel < 2) (hvalue : ∀ v, Q v)
    (hbody : Bracketed R (runBody scope f.body.statements)) :
    Bracketed Q (Rule.record settings f vs scope none >>=
      Watched.proceed (.atLimit settings.callLimit stop) settings depth runBody f) := by
  rw [Rule.record_bind, note_above hlevel, pure_bind]
  by_cases hlimit : settings.callLimit ≤ depth
  · refine of_quiet (fun h => ?_) fun h => ?_
    · rw [proceed_of_le hlimit] at h
      cases h
    · rw [proceed_of_le hlimit] at h
      cases h
      rfl
  · rw [proceed_of_lt (Nat.lt_of_not_le hlimit)]
    refine hbody.bind fun v _ => ?_
    rw [note_above hlevel, pure_bind]
    exact result (hvalue _)

theorem call (hvalue : ∀ v, Q v) (hbody : Bracketed R (runBody scope f.body.statements)) :
    Bracketed Q (Rule.record settings f vs scope none >>=
      Watched.proceed (.atLimit settings.callLimit stop) settings depth runBody f) := by
  by_cases hlevel : 2 ≤ settings.traceLevel
  · refine ⟨fun {m v m'} h => ⟨hvalue v, ?_⟩, fun {m _ m'} h => (call_records hlevel hbody m m').2 h⟩
    obtain ⟨texts, text, -, -, hadds⟩ := (call_records hlevel hbody m m').1 h
    refine hadds.imp ?_
    rintro _ ⟨inner, hinner, rfl⟩
    exact .call hinner .nil
  · exact call_unrecorded (Int.not_le.1 hlevel) hvalue hbody

end Calls

end Bracketed

/-! ## Trees -/

theorem outcome_whole {returns : Bool} (v : Value) :
    (Domain.whole.frame ()).Outcome returns () fun _ => v :=
  Domain.outcome_iff.2 ⟨v, rfl, Domain.admits_whole () v⟩

/-- Single runs that are ended at the limit. -/
def bracketing (settings : Settings) (stop : Closure → Halt) : Logic Unit where
  toFrame := Domain.whole.frame ()
  settings _ := settings
  watch _ := .atLimit settings.callLimit stop
  extra _ := 0
  Records e := e.isCall = false
  records h _ := h
  Holds _ _ Q x := Bracketed (fun a => Q () fun _ => a) (x ())
  later h _ := h
  result ha := .result (ha () trivial)
  chain hx hnext _ := hx.bind fun a ha => hnext () (fun _ => a) trivial ha
  newScope _ := .modifyGet (fun id => ⟨id, rfl, trivial⟩) fun _ => rfl
  newFunction := .modifyGet (fun n => ⟨n, rfl, trivial⟩) fun _ => rfl
  lookup? _ name := .lookup? (fun o => Domain.found_of_constant ⟨o, rfl, fun v _ => Domain.admits_whole () v⟩) _ name
  define _ _ _ _ := .modifyGet outcome_whole fun _ => rfl
  assign _ _ _ := .modifyGet outcome_whole fun _ => rfl
  print _ := .modifyGet (fun _ => trivial) fun _ => rfl
  ofExcept _ := .ofExcept fun a h => ⟨a, rfl, h⟩
  note _ hevent := .note _ _ hevent
  cut hx _ := by
    rw [hx () rfl]
    exact .outOfFuel
  seen hx := by
    have hsilent (v : Value) : Watch.atLimit settings.callLimit stop (.value v) = pure () := rfl
    simp only [Watched.seen_eq hsilent]
    exact hx
  call _ _ _ hbody := Bracketed.call outcome_whole (hbody trivial)

theorem statements_bracketed (settings : Settings) (stop : Closure → Halt) (fuel depth : Nat) (scope : ScopeId)
    (ss : List Stmt) : Bracketed (fun _ => True) (Rule.inOrder
      (Watched.stmt (.atLimit settings.callLimit stop) settings fuel depth scope) .null ss) := by
  have hruns : (bracketing settings stop).Outcomes true ()
      ((bracketing settings stop).bodyRuns fuel depth (fun _ => scope) (fun _ => .null) ss) :=
    ((bracketing settings stop).covers fuel).inOrder ⟨scope, rfl, trivial⟩ Frame.outcome_null nofun
      (fun s _ => s.within_all) fun _ _ => trivial
  have hbracketed : Bracketed (fun _ => True) (Rule.inOrder
      (Watched.stmt (.atLimit settings.callLimit stop) settings (0 + fuel) depth scope) .null
      (retokenStmts id ss)) := hruns.forget
  rwa [Nat.zero_add, retokenStmts_id] at hbracketed

theorem runProgram_bracketed (settings : Settings) (stop : Closure → Halt) (fuel : Nat) (scope : ScopeId)
    (p : Program) : Bracketed (fun _ => True)
      (Watched.runProgram (.atLimit settings.callLimit stop) settings fuel scope p) := by
  have hrecords (e : TraceEvent) (he : e.level = 1) : e.isCall = false := by
    cases e with
    | called | returned => cases he
    | started | finished | declared | defined | branched | iterated => rfl
  have hruns : (bracketing settings stop).Answers () fun _ =>
      Watched.runProgram (.atLimit settings.callLimit stop) settings (0 + fuel) scope (p.retoken id) :=
    Logic.runProgram hrecords ⟨scope, rfl, trivial⟩ p.within_all fun _ _ => trivial
  rw [Nat.zero_add, Program.retoken_id] at hruns
  exact hruns.forget

/-! ## The whole -/

theorem value_of_step {α : Type} {x : Eval α} {m : Machine} (h : (m.step x).1.toOption.isSome = true) :
    ∃ a, x m = .ok a (m.step x).2 := by
  unfold Machine.step at h ⊢
  cases hrun : x m with
  | ok a m' => exact ⟨a, rfl⟩
  | error halt m' =>
    rw [hrun] at h
    cases h

/-- A call whose arguments do not conform leaves no record. -/
theorem enter_unrecorded {settings : Settings} {f : Closure} {vs : List Value} (hf : ¬ f.Accepts vs)
    (m : Machine) :
    (∃ e m₁, Rule.enter settings f vs m = .ok (.error e) m₁ ∧ m₁.trace = m.trace) ∨
    ∃ halt m₁, Rule.enter settings f vs m = .error halt m₁ ∧ m₁.trace = m.trace := by
  have hentry := enter_entry settings m f vs
  generalize Rule.enter settings f vs m = r at hentry
  cases hentry with
  | arity _ | refused s _ _ _ => exact Or.inl ⟨_, _, rfl, rfl⟩
  | fault s _ _ _ => exact Or.inr ⟨_, _, rfl, rfl⟩
  | bound hws => exact absurd hws.conforms hf

/-- A call whose arguments pass goes on with its record. -/
theorem application_of_passes {watch : Watch} {settings : Settings} {depth : Nat}
    {runBody : ScopeId → List Stmt → Eval Value} {f : Closure} {vs ws : List Value} {m : Machine}
    (h : Passes f.displayName f.parameters vs ws) :
    Watched.application watch settings depth runBody f vs m =
      (Rule.record settings f vs m.heap.scopes.size none >>=
        Watched.proceed watch settings depth runBody f) (m.withScope (f.callScope ws)) := by
  show EStateM.bind (Rule.enter settings f vs) _ m = _
  unfold EStateM.bind
  rw [enter_of_passes settings m h]
  rfl

/-- A program in which no call comes to the limit records calls and returns that are well bracketed; if it is
    halted, some may be open.  A call whose arguments do not conform leaves no record.  With records of calls
    asked for, a call with arguments that conform and that comes to a value leaves its record, then those of its
    body, then that of its return. -/
theorem calls_well_bracketed (settings : Settings) :
    (∀ (fuel : Nat) (scope : ScopeId) (p : Program) (m : Machine),
      (∀ f m₁, ¬ HitsLimit settings fuel scope p m f m₁) →
      (∀ v m', runProgram settings fuel scope p m = .ok v m' → m.Adds WellBracketed m') ∧
      ∀ halt m', runProgram settings fuel scope p m = .error halt m' → m.Adds Underway m') ∧
    (∀ (fuel depth : Nat) (f : Closure) (vs : List Value) (m : Machine), ¬ f.Accepts vs →
      (m.step (applyFunction settings fuel depth f vs)).2.trace = m.trace) ∧
    ∀ (fuel depth : Nat) (f : Closure) (vs : List Value) (m : Machine) (v : Value) (m' : Machine),
      2 ≤ settings.traceLevel → f.Accepts vs → (∀ v ∈ vs, v.isError = false) →
      (∀ stop, Watched.apply (.atLimit settings.callLimit stop) settings fuel depth f vs m =
        applyFunction settings fuel depth f vs m) →
      applyFunction settings fuel depth f vs m = .ok v m' →
      ∃ texts text, Rule.texts vs = .ok texts ∧ v.text = .ok text ∧
        m.Adds (fun w => ∃ inner, WellBracketed inner ∧
          w = .called f.displayName texts :: (inner ++ [.returned f.displayName text])) m' := by
  refine ⟨fun fuel scope p m hnone => ?_, fun fuel depth f vs m hf => ?_, ?_⟩
  · rcases runProgram_limited settings fuel scope p m with ⟨r, hr⟩ | ⟨f, m₁, hhit, -⟩
    · -- the run that the watch would end at the limit is the run itself
      have hwatched := hr (.stopping fun _ => .outOfFuel)
      have hrun : runProgram settings fuel scope p m = r := by
        rw [← Watched.runProgram_silent]
        exact hr (.upTo settings.callLimit (Nat.le_refl _))
      rw [hrun, ← hwatched]
      have hbrackets := runProgram_bracketed settings (fun _ => .outOfFuel) fuel scope p
      exact ⟨fun _ _ h => (hbrackets.value h).2, fun _ _ h => hbrackets.halt h⟩
    · exact absurd hhit (hnone f m₁)
  · cases fuel with
    | zero => rfl
    | succ fuel =>
      unfold Machine.step
      rw [applyFunction_eq]
      rcases enter_unrecorded hf m with ⟨e, m₁, henter, htrace⟩ | ⟨halt, m₁, henter, htrace⟩
      · rw [Eval.bind_of_ok henter]
        exact htrace
      · rw [Eval.bind_of_error henter]
        exact htrace
  · intro fuel depth f vs m v m' hlevel hf hvs hbelow hrun
    cases fuel with
    | zero => cases hrun
    | succ fuel =>
      rw [← hbelow fun _ => .outOfFuel, Watched.apply, Watched.seen_eq fun _ => rfl] at hrun
      obtain ⟨ws, hws⟩ := exists_passes f.displayName hf hvs
      rw [application_of_passes hws] at hrun
      have hbody := statements_bracketed settings (fun _ => .outOfFuel) fuel (depth + 1) m.heap.scopes.size
        f.body.statements
      exact (Bracketed.call_records hlevel hbody (m.withScope (f.callScope ws)) m').1 hrun

/-- `fn g(x: int): int { return x + 1; }`, `fn f(x: int): int { if (x > 0) { return g(g(x)); } return x / 0; }`
    and then `f(1); f(0);`: calls as arguments, a `return` out of a branch, and an error.  The function `g` alone
    is not called with a string, and called with `1` it is on record twice. -/
theorem calls_well_bracketed_nested :
    let t : Token := ⟨.ident, "", 1, 1⟩
    let name (x : String) : Expr := .name ⟨t, x⟩
    let call (f : String) (e : Expr) : Expr := .call t (name f) [e]
    let x : Parameter := ⟨t, ⟨t, "x"⟩, ⟨t, "int"⟩⟩
    let function (f : String) (ss : List Stmt) : Stmt := .function t ⟨t, f⟩ [x] ⟨t, "int"⟩ (.mk t ss)
    let next : Stmt := .ret t (some (.binary t (name "x") "+" (.int t 1)))
    let p : Program := ⟨t, [function "g" [next],
      function "f" [.branch t (.binary t (name "x") ">" (.int t 0))
        (.mk t [.ret t (some (call "g" (call "g" (name "x"))))]) none,
        .ret t (some (.binary t (name "x") "/" (.int t 0)))],
      .expr t (call "f" (.int t 1)), .expr t (call "f" (.int t 0))]⟩
    let m' := (Machine.fresh.step (runProgram { traceLevel := 2 } 20 0 p)).2
    let g : Closure := ⟨0, some "g", [x], ⟨t, "int"⟩, .mk t [next], 0⟩
    let m'' := (Machine.fresh.step (applyFunction { traceLevel := 2 } 20 0 g [.int 1])).2
    (∀ f m₁, ¬ HitsLimit { traceLevel := 2 } 20 0 p .fresh f m₁) ∧ Machine.fresh.Adds WellBracketed m' ∧
    callsOf m'.trace.toList =
      [.called "f" ["1"], .called "g" ["1"], .returned "g" "2", .called "g" ["2"], .returned "g" "3",
        .returned "f" "3", .called "f" ["0"], .returned "f" "ERROR: Division by zero."] ∧
    (¬ g.Accepts [.str "1"] ∧
      (Machine.fresh.step (applyFunction { traceLevel := 2 } 20 0 g [.str "1"])).2.trace = #[]) ∧
    g.Accepts [.int 1] ∧ ∃ texts text, Rule.texts [.int 1] = .ok texts ∧
      Machine.fresh.Adds (fun w => ∃ inner, WellBracketed inner ∧
        w = .called "g" texts :: (inner ++ [.returned "g" text])) m'' := by
  intro t name call x function next p m' g m''
  obtain ⟨v, hrun⟩ := value_of_step (x := runProgram { traceLevel := 2 } 20 0 p) (m := .fresh) (by decide +kernel)
  have hnone (f : Closure) (m₁ : Machine) : ¬ HitsLimit { traceLevel := 2 } 20 0 p .fresh f m₁ := by
    intro h
    obtain ⟨v, hwatched⟩ := value_of_step (m := .fresh)
      (x := Watched.runProgram (.atLimit ({} : Settings).callLimit fun _ => .outOfFuel) { traceLevel := 2 } 20 0 p)
      (by decide +kernel)
    cases (h fun _ => .outOfFuel).symm.trans hwatched
  obtain ⟨hprograms, hrefused, hcalls⟩ := calls_well_bracketed { traceLevel := 2 }
  have hstring : ¬ g.Accepts [.str "1"] := by
    intro hg
    have hx : (Value.str "1").Conforms "int" := (List.forall₂_cons.1 hg).1
    exact absurd (Value.conforms_str.1 hx) (by decide)
  have hint : g.Accepts [.int 1] := .cons (.named (.int 1)) .nil
  obtain ⟨w, hcall⟩ := value_of_step (x := applyFunction { traceLevel := 2 } 20 0 g [.int 1]) (m := .fresh)
    (by decide +kernel)
  have hplain : ∀ v ∈ [Value.int 1], v.isError = false := List.all_iff_forall_prop.1 rfl
  obtain ⟨texts, text, htexts, -, hadds⟩ :=
    hcalls 20 0 g [.int 1] .fresh w m'' (by decide) hint hplain (fun _ => rfl) hcall
  exact ⟨hnone, (hprograms 20 0 p .fresh hnone).1 v m' hrun, by decide +kernel,
    ⟨hstring, hrefused 20 0 g _ _ hstring⟩, hint, texts, text, htexts, hadds⟩

end ScriptLang
