import ScriptLang.Session
import ScriptLang.Proofs.Eval.Uniform

/-!
  Tracing changes nothing but the trace.

  The runs of one program at all levels of detail are taken together.  They make the same steps, and
  where one of them records an event the others record it or leave it out, by its level.  So there is one
  sequence of events for all of them, and the trace at a level is what the level lets through.

  A trace shows values, and that can fail.  Then a run with more detail ends where one with less goes on.
  The level 3 shows everything there is to show; if nothing fails there, nothing fails at any level.
-/

namespace ScriptLang

/-- The events that a trace of the given detail has. -/
def traceUpTo (detail : Int) (events : Array TraceEvent) : Array TraceEvent :=
  events.filter fun e => (e.level : Int) ≤ detail

section UpTo

variable {detail : Int} {events : Array TraceEvent}

theorem traceUpTo_append (events events' : Array TraceEvent) :
    traceUpTo detail (events ++ events') = traceUpTo detail events ++ traceUpTo detail events' := by
  simp [traceUpTo]

theorem traceUpTo_singleton (e : TraceEvent) :
    traceUpTo detail #[e] = if (e.level : Int) ≤ detail then #[e] else #[] := by
  by_cases h : (e.level : Int) ≤ detail
  · simp [traceUpTo, h]
  · simp [traceUpTo, h]

theorem traceUpTo_eq_empty (h : ∀ e ∈ events, detail < e.level) : traceUpTo detail events = #[] := by
  unfold traceUpTo
  rw [Array.filter_eq_empty_iff]
  intro e he
  have := h e he
  simp only [decide_eq_true_eq]
  omega

/-- Every event has a level of at least one. -/
theorem traceUpTo_nonpos (h : detail ≤ 0) : traceUpTo detail events = #[] := by
  refine traceUpTo_eq_empty fun e _ => ?_
  have := e.level_range
  omega

/-- No event has a level above three. -/
theorem traceUpTo_of_three_le (h : 3 ≤ detail) : traceUpTo detail events = events := by
  unfold traceUpTo
  rw [Array.filter_eq_self]
  intro e _
  have := e.level_range
  simp only [decide_eq_true_eq]
  omega

end UpTo

/-- How the runs of a part of a program at all levels of detail end, from one heap and output: with a
    fault at level 3, or all of them in the same way, with traces of the same events. -/
inductive TracedEnd {α : Type} (Q : (Int → α) → Prop) (x : Int → Eval α) (heap : Heap) (output : String) : Prop
  | fault : (∀ trace, ∃ f m, x 3 ⟨heap, output, trace⟩ = .error (.fault f) m) → TracedEnd Q x heap output
  | value (a : Int → α) (heap' : Heap) (output' : String) (events : Array TraceEvent) : Q a →
      (∀ e ∈ events, 2 ≤ e.level) →
      (∀ detail trace, x detail ⟨heap, output, trace⟩ =
        .ok (a detail) ⟨heap', output', trace ++ traceUpTo detail events⟩) → TracedEnd Q x heap output
  | halt (h : Halt) (heap' : Heap) (output' : String) (events : Array TraceEvent) :
      (∀ e ∈ events, 2 ≤ e.level) →
      (∀ detail trace, x detail ⟨heap, output, trace⟩ =
        .error h ⟨heap', output', trace ++ traceUpTo detail events⟩) → TracedEnd Q x heap output

/-- An event that is recorded at its level. -/
theorem note_upTo {settings : Settings} {event : Except Fault TraceEvent} {e : TraceEvent}
    (he : event = .ok e) (heap : Heap) (output : String) (trace : Array TraceEvent) (detail : Int) :
    Eval.note { settings with traceLevel := detail } e.level (fun _ => event) ⟨heap, output, trace⟩ =
      .ok () ⟨heap, output, trace ++ traceUpTo detail #[e]⟩ := by
  unfold Eval.note
  rw [traceUpTo_singleton]
  split
  · rw [he]
    rfl
  · rfl

/-- An event that cannot be shown. -/
theorem note_fault {settings : Settings} {level : Nat} {event : Except Fault TraceEvent} {f : Fault}
    (hf : event = .error f) (hlevel : level ≤ 3) (m : Machine) :
    Eval.note { settings with traceLevel := 3 } level (fun _ => event) m = .error (.fault f) m := by
  have hle : (level : Int) ≤ 3 := by omega
  unfold Eval.note
  rw [if_pos hle, hf]
  rfl

namespace TracedEnd

variable {α β : Type} {P : (Int → α) → Prop} {Q : (Int → β) → Prop} {x : Int → Eval α} {heap : Heap} {output : String}

/-- A step that records nothing. -/
theorem quiet {a : Int → α} {heap' : Heap} {output' : String} (ha : P a)
    (h : ∀ detail trace, x detail ⟨heap, output, trace⟩ = .ok (a detail) ⟨heap', output', trace⟩) :
    TracedEnd P x heap output := by
  refine .value a heap' output' #[] ha nofun fun detail trace => ?_
  rw [h]
  simp [traceUpTo]

theorem cut {h : Halt} : TracedEnd P (fun _ => throw h) heap output := by
  refine .halt h heap output #[] nofun fun detail trace => ?_
  have hempty : trace ++ traceUpTo detail #[] = trace := by simp [traceUpTo]
  rw [hempty]
  rfl

theorem bind {next : Int → α → Eval β} (hx : TracedEnd P x heap output)
    (hnext : ∀ a, P a → ∀ heap output, TracedEnd Q (fun d => next d (a d)) heap output) :
    TracedEnd Q (fun d => x d >>= next d) heap output := by
  cases hx with
  | fault h =>
    refine .fault fun trace => ?_
    obtain ⟨f, m, hrun⟩ := h trace
    exact ⟨f, m, Eval.bind_of_error hrun _⟩
  | halt h heap' output' events hlevel hrun =>
    exact .halt h heap' output' events hlevel fun detail trace => Eval.bind_of_error (hrun detail trace) _
  | value a heap' output' events ha hlevel hrun =>
    -- what is recorded later comes behind
    have happend (detail : Int) (trace later : Array TraceEvent) :
        trace ++ traceUpTo detail events ++ traceUpTo detail later =
          trace ++ traceUpTo detail (events ++ later) := by
      rw [traceUpTo_append, Array.append_assoc]
    have hlevels {later : Array TraceEvent} (h : ∀ e ∈ later, 2 ≤ e.level) :
        ∀ e ∈ events ++ later, 2 ≤ e.level := by
      intro e he
      rcases Array.mem_append.1 he with he | he
      · exact hlevel e he
      · exact h e he
    cases hnext a ha heap' output' with
    | fault h =>
      refine .fault fun trace => ?_
      obtain ⟨f, m, hfault⟩ := h (trace ++ traceUpTo 3 events)
      exact ⟨f, m, (Eval.bind_of_ok (hrun 3 trace) _).trans hfault⟩
    | value b heap₂ output₂ later hb hlevel₂ hlater =>
      refine .value b heap₂ output₂ (events ++ later) hb (hlevels hlevel₂) fun detail trace => ?_
      rw [Eval.bind_of_ok (hrun detail trace), hlater, happend]
    | halt h heap₂ output₂ later hlevel₂ hlater =>
      refine .halt h heap₂ output₂ (events ++ later) (hlevels hlevel₂) fun detail trace => ?_
      rw [Eval.bind_of_ok (hrun detail trace), hlater, happend]

theorem note {settings : Settings} {level : Nat} {event : Except Fault TraceEvent} (hevent : EventOf level event)
    (hlevel : ∀ e, event = .ok e → 2 ≤ e.level) : TracedEnd (fun _ => True)
      (fun d => Eval.note { settings with traceLevel := d } level fun _ => event) heap output := by
  rcases hevent with ⟨e, he, rfl⟩ | ⟨hle, herror⟩
  · refine .value (fun _ => ()) heap output #[e] trivial ?_ fun detail trace =>
      note_upTo he heap output trace detail
    intro e' he'
    obtain rfl := Array.mem_singleton.1 he'
    exact hlevel e' he
  · exact .fault fun trace => ⟨.textDigits, _, note_fault herror hle _⟩

end TracedEnd

/-- Runs at all levels of detail. -/
def tracing (settings : Settings) : Uniform Int where
  toDomain := .whole
  origin := 0
  settings d := { settings with traceLevel := d }
  watch _ := .silent
  Noted level := 2 ≤ level
  Holds _ _ Q x := ∀ heap output, TracedEnd (Q ()) x heap output
  later h _ := h
  result ha heap output := .quiet (ha () trivial) fun _ _ => rfl
  chain hx hnext _ heap output := (hx heap output).bind fun a ha => hnext () a trivial ha
  newScope _ heap output := .quiet ⟨heap.scopes.size, rfl, trivial⟩ fun _ _ => rfl
  newFunction heap output := .quiet ⟨heap.functions, rfl, trivial⟩ fun _ _ => rfl
  lookup? {_ _ scope} _ name heap output :=
    .quiet ⟨heap.get? scope name, rfl, fun v _ => Domain.admits_whole () v⟩ fun _ _ => rfl
  define {_ _ scope v} _ _ name constant heap output :=
    .quiet ⟨(heap.define scope name v constant).1, rfl, Domain.admits_whole () _⟩ fun _ _ => rfl
  assign {_ _ scope v} _ _ name heap output :=
    .quiet ⟨(heap.assign scope name v).1, rfl, Domain.admits_whole () _⟩ fun _ _ => rfl
  print line heap output := .quiet (a := fun _ => ()) trivial fun _ _ => rfl
  ofExcept {_ _ _ r} _ heap output := by
    cases r with
    | ok a => exact .quiet ⟨a, rfl, rfl⟩ fun _ _ => rfl
    | error f => exact .cut
  noted h := h
  note hevent hlevel heap output := .note hevent hlevel
  cut _ heap output := .cut
  seen hx := by
    simp only [Watched.seen_silent]
    exact hx
  limit {_ depth _ f x} _ _ hx := by
    simp only [Watch.silent, pure_bind]
    by_cases hlimit : settings.callLimit ≤ depth
    · simp only [if_pos hlimit]
      exact fun heap output => .quiet ⟨_, rfl, Domain.admits_error (.recursionLimit f.displayName)⟩ fun _ _ => rfl
    · simp only [if_neg hlimit]
      exact hx trivial

/-- The statements of a program at all levels of detail. -/
theorem evalProgram_tracedEnd (settings : Settings) (fuel : Nat) (scope : ScopeId) (p : Program) (heap : Heap)
    (output : String) : TracedEnd (Constant (Domain.whole.Admits ()))
      (fun d => evalProgram { settings with traceLevel := d } fuel scope p) heap output := by
  have hruns : (tracing settings).Yields () fun d =>
      Watched.program .silent { settings with traceLevel := d } fuel scope p :=
    Uniform.program trivial p.within_all fun _ _ => trivial
  simp only [Watched.program_silent] at hruns
  exact hruns heap output

theorem runProgram_started (settings : Settings) (fuel : Nat) (scope : ScopeId) (p : Program) (heap : Heap)
    (output : String) (trace : Array TraceEvent) (detail : Int) :
    runProgram { settings with traceLevel := detail } fuel scope p ⟨heap, output, trace⟩ =
      (evalProgram { settings with traceLevel := detail } fuel scope p >>= fun v =>
        Eval.note { settings with traceLevel := detail } 1 (fun _ => return .finished (← v.text)) >>= fun _ =>
          pure v) ⟨heap, output, trace ++ traceUpTo detail #[.started p.statements.length]⟩ :=
  Eval.bind_of_ok (note_upTo (e := .started p.statements.length) rfl heap output trace detail) _

/-- At level 1 there is nothing of what the statements record. -/
theorem traceUpTo_one_eq_empty {events : Array TraceEvent} (h : ∀ e ∈ events, 2 ≤ e.level) :
    traceUpTo 1 events = #[] := by
  refine traceUpTo_eq_empty fun e he => ?_
  have := h e he
  omega

/-- If nothing fails in the run at level 3, then the runs at all levels come to the same value and leave
    the same scopes and output, and there is one sequence of events of which the trace at each level has
    those up to it: none at level 0 and below, the start and the result at level 1, and all at level 3 and
    above. -/
theorem tracing_inert (settings : Settings) (fuel : Nat) (scope : ScopeId) (p : Program) (m : Machine)
    (hfault : ∀ f, (m.step (runProgram { settings with traceLevel := 3 } fuel scope p)).1 ≠ .error (.fault f)) :
    ∃ (r : Except Halt Value) (heap : Heap) (output : String) (events : Array TraceEvent),
      (∀ detail, m.step (runProgram { settings with traceLevel := detail } fuel scope p) =
        (r, ⟨heap, output, m.trace ++ traceUpTo detail events⟩)) ∧
      (∀ detail ≤ 0, traceUpTo detail events = #[]) ∧
      (∀ v, r = .ok v → ∃ s, v.text = .ok s ∧
        traceUpTo 1 events = #[.started p.statements.length, .finished s]) ∧
      (∀ e, r = .error e → traceUpTo 1 events = #[.started p.statements.length]) ∧
      (∀ detail ≥ 3, traceUpTo detail events = events) := by
  obtain ⟨heap, output, trace⟩ := m
  unfold Machine.step at hfault ⊢
  simp only [runProgram_started] at hfault ⊢
  -- the start is recorded in front of what the statements record, and the result behind it
  cases evalProgram_tracedEnd settings fuel scope p heap output with
  | fault h =>
    obtain ⟨f, m', hrun⟩ := h _
    rw [Eval.bind_of_error hrun] at hfault
    exact absurd rfl (hfault f)
  | halt e heap' output' inner hlevel hrun =>
    refine ⟨.error e, heap', output', #[.started p.statements.length] ++ inner, fun detail => ?_,
      fun detail h => traceUpTo_nonpos h, nofun, fun _ _ => ?_, fun detail h => traceUpTo_of_three_le h⟩
    · rw [Eval.bind_of_error (hrun detail _), traceUpTo_append, Array.append_assoc]
    · rw [traceUpTo_append, traceUpTo_one_eq_empty hlevel]
      rfl
  | value _ heap' output' inner hsame hlevel hrun =>
    obtain ⟨v, rfl, -⟩ := hsame
    rcases v.text_cases with ⟨s, hs⟩ | hs
    · refine ⟨.ok v, heap', output', #[.started p.statements.length] ++ inner ++ #[.finished s], fun detail => ?_,
        fun detail h => traceUpTo_nonpos h, ?_, nofun, fun detail h => traceUpTo_of_three_le h⟩
      · have hevent : (do return TraceEvent.finished (← v.text)) = Except.ok (.finished s) := by rw [hs]; rfl
        have hnote (trace : Array TraceEvent) :
            Eval.note { settings with traceLevel := detail } 1 (fun _ => return .finished (← v.text))
              ⟨heap', output', trace⟩ = .ok () ⟨heap', output', trace ++ traceUpTo detail #[.finished s]⟩ :=
          note_upTo (e := .finished s) hevent heap' output' trace detail
        rw [Eval.bind_of_ok (hrun detail _), Eval.bind_of_ok (hnote _), traceUpTo_append, traceUpTo_append]
        simp only [Array.append_assoc]
        rfl
      · rintro _ ⟨⟩
        refine ⟨s, hs, ?_⟩
        rw [traceUpTo_append, traceUpTo_append, traceUpTo_one_eq_empty hlevel]
        rfl
    · -- the value of the program is shown at level 3
      have hevent : (do return TraceEvent.finished (← v.text)) = Except.error .textDigits := by rw [hs]; rfl
      rw [Eval.bind_of_ok (hrun 3 _), Eval.bind_of_error (note_fault hevent (by decide) _)] at hfault
      exact absurd rfl (hfault .textDigits)

/-- `if (true) { const x = "a"; display(x); }` with the events of all its traces. -/
theorem tracing_inert_branch :
    let t : Token := ⟨.ident, "", 1, 1⟩
    let x : Name := ⟨t, "x"⟩
    let body : Block := .mk t [.const t x none (.str t "a"), .display t [.name x]]
    let p : Program := ⟨t, [.branch t (.bool t true) body none]⟩
    (∀ f, (Machine.fresh.step (runProgram { traceLevel := 3 } 10 0 p)).1 ≠ .error (.fault f)) ∧
    ∃ heap, ∀ detail, Machine.fresh.step (runProgram { traceLevel := detail } 10 0 p) =
      (.ok .null, ⟨heap, "a\n", traceUpTo detail
        #[.started 1, .branched "true" true, .declared .const "x" "string" "a", .finished "null"]⟩) := by
  intro t x body p
  obtain ⟨heap, hrun⟩ : ∃ heap, Machine.fresh.step (runProgram { traceLevel := 3 } 10 0 p) =
      (.ok .null, ⟨heap, "a\n",
        #[.started 1, .branched "true" true, .declared .const "x" "string" "a", .finished "null"]⟩) := ⟨_, rfl⟩
  have hfault (f : Fault) :
      (Machine.fresh.step (runProgram { traceLevel := 3 } 10 0 p)).1 ≠ .error (.fault f) := by
    rw [hrun]
    exact nofun
  refine ⟨hfault, heap, ?_⟩
  obtain ⟨r, heap', output', events, hall, -, -, -, hthree⟩ := tracing_inert {} 10 0 p .fresh hfault
  have hevents := hrun.symm.trans (hall 3)
  have hempty (trace : Array TraceEvent) : Machine.fresh.trace ++ trace = trace := Array.empty_append
  rw [hthree 3 (Int.le_refl 3), hempty] at hevents
  obtain ⟨rfl, rfl, rfl, rfl⟩ := by simpa only [Prod.mk.injEq, Machine.mk.injEq] using hevents
  intro detail
  rw [hall detail, hempty]

end ScriptLang
