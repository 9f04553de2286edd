import ScriptLang.Eval.Run

/-!
  How runs and rules come apart.

  A run that is followed by another ends early only if it is halted.  A record changes nothing but the
  trace; it is not asked for, is made, or cannot be made.  An operator other than `&&` and `||` needs both
  operands, and a call is on record before its body is run.
-/

namespace ScriptLang

variable {α β : Type}

/-! ## Sequencing -/

section Bind

variable {x : Eval α} {m m' : Machine}

theorem Eval.bind_of_ok {a : α} (h : x m = .ok a m') (next : α → Eval β) : (x >>= next) m = next a m' := by
  show EStateM.bind x next m = next a m'
  unfold EStateM.bind
  rw [h]

theorem Eval.bind_of_error {e : Halt} (h : x m = .error e m') (next : α → Eval β) :
    (x >>= next) m = .error e m' := by
  show EStateM.bind x next m = .error e m'
  unfold EStateM.bind
  rw [h]

end Bind

/-! ## Records -/

/-- Two machines that differ at most in what they traced. -/
structure Machine.Alike (m m' : Machine) : Prop where
  heap : m.heap = m'.heap
  output : m.output = m'.output

/-- Nothing is recorded above the level of the trace. -/
theorem note_above {settings : Settings} {level : Nat} (h : settings.traceLevel < level)
    (event : Unit → Except Fault TraceEvent) : Eval.note settings level event = pure () := by
  unfold Eval.note
  rw [if_neg (by omega)]

/-- Recording an event that can be shown changes nothing but the trace. -/
theorem note_ok {event : Except Fault TraceEvent} {e : TraceEvent} (hevent : event = .ok e)
    (settings : Settings) (level : Nat) (m : Machine) :
    ∃ m', Eval.note settings level (fun _ => event) m = .ok () m' ∧ m'.Alike m := by
  unfold Eval.note
  split
  · rw [hevent]
    exact ⟨_, rfl, rfl, rfl⟩
  · exact ⟨m, rfl, rfl, rfl⟩

/-- A record is not asked for, is made, or cannot be made. -/
theorem note_cases (settings : Settings) (level : Nat) (event : Unit → Except Fault TraceEvent) (m : Machine) :
    (settings.traceLevel < level ∧ Eval.note settings level event m = .ok () m) ∨
    (∃ e, level ≤ settings.traceLevel ∧ event () = .ok e ∧
      Eval.note settings level event m = .ok () ⟨m.heap, m.output, m.trace.push e⟩) ∨
    ∃ flt, event () = .error flt ∧ Eval.note settings level event m = .error (.fault flt) m := by
  by_cases hlevel : level ≤ settings.traceLevel
  · unfold Eval.note
    rw [if_pos hlevel]
    cases hevent : event () with
    | ok e => exact Or.inr (Or.inl ⟨e, hlevel, rfl, rfl⟩)
    | error flt => exact Or.inr (Or.inr ⟨flt, rfl, rfl⟩)
  · have habove : settings.traceLevel < level := Int.not_le.1 hlevel
    exact Or.inl ⟨habove, by rw [note_above habove]; rfl⟩

/-- An event is made of what is shown in it. -/
theorem shown_of_event {α : Type} {shown : Except Fault α} {make : α → TraceEvent} {e : TraceEvent}
    (h : (do return make (← shown)) = .ok e) : ∃ a, shown = .ok a ∧ e = make a := by
  cases shown with
  | error flt => cases h
  | ok a =>
    cases h
    exact ⟨a, rfl, rfl⟩

/-! ## Rules -/

theorem Rule.binary_of_ne {op : String} {a b : Eval Value} (hand : op ≠ "&&") (hor : op ≠ "||") :
    Rule.binary op a b = unlessError a fun v => unlessError b fun w =>
      Eval.ofExcept (binaryOp op v w) := by
  unfold Rule.binary
  congr
  funext v
  split
  · contradiction
  · contradiction
  · rfl

/-- What comes before a call's body: the number of arguments, the scope, the parameters and the record. -/
theorem Rule.enter_bind (settings : Settings) (f : Closure) (arguments : List Value)
    (next : Except RuntimeError ScopeId → Eval α) :
    Rule.enter settings f arguments >>= next =
      if arguments.length ≠ f.parameters.length then
        next (.error (.arity f.displayName f.parameters.length arguments.length))
      else Eval.newScope (some f.scope) >>= fun scope =>
        Rule.bindArguments f.displayName scope f.parameters arguments >>= fun refusal =>
          Rule.record settings f arguments scope refusal >>= next := by
  unfold Rule.enter
  split
  · rw [pure_bind]
  · simp only [bind_assoc]

/-- A call whose arguments are bound goes on with its record. -/
theorem Rule.record_bind (settings : Settings) (f : Closure) (arguments : List Value) (scope : ScopeId)
    (next : Except RuntimeError ScopeId → Eval α) :
    Rule.record settings f arguments scope none >>= next =
      Eval.note settings 2 (fun _ => return .called f.displayName (← Rule.texts arguments)) >>= fun _ =>
        next (.ok scope) := by
  unfold Rule.record
  simp only [bind_assoc, pure_bind]

end ScriptLang
