import ScriptLang.Proofs.Eval.Uniform
import ScriptLang.Proofs.Scope.Tokens

/-!
  Runs of trees with other tokens.

  No rule of evaluation looks at a token.  A tree with other tokens, run on a machine with the same other
  tokens, does what the tree does on the machine itself, and what it leaves behind has these tokens.

  Specification: `statements_retoken`.  Crux: `retokening`, a logic whose runs are one for every change
  of tokens, those of one tree on one machine.  Their values belong together if they are one value with the
  tokens changed (`values_retoken`), so the single steps are those of `Proofs.Scope.Tokens`.
-/

namespace ScriptLang

variable {α : Type}

/-! ## What belongs together -/

/-- Runs for every change of tokens have the same scopes and number functions in the same way. -/
def retokenFrame : Frame (Token → Token) := { Domain.whole.frame id with tokens := fun τ => τ }

/-- Changes of one function belong together. -/
theorem closures_retoken (f : Closure) : retokenFrame.Closures () fun τ => f.retoken τ :=
  .copies ⟨f.id, rfl, trivial⟩ ⟨f.scope, rfl, trivial⟩
    ⟨fun p hp => Parameter.within_all _ p hp, f.body.within_all⟩ trivial

/-- So do changes of one value. -/
theorem values_retoken (v : Value) : retokenFrame.Values () fun τ => v.retoken τ := by
  induction v with
  | function f => exact .function (closures_retoken f)
  | returned u ih => exact .returned ih
  | int n | float x | bool b | str s | null | error e => exact .plain trivial fun _ => rfl

/-- Values belong together only so. -/
theorem exists_of_values {v : (Token → Token) → Value} (h : retokenFrame.Values () v) :
    ∃ u : Value, v = fun τ => u.retoken τ := by
  induction h with
  | plain hv _ => exact ⟨_, funext fun τ => (Value.retoken_of_plain hv).symm⟩
  | function hf =>
    obtain @⟨f, _, _, hnumber, hscope, -, -⟩ := hf
    obtain ⟨n, rfl, -⟩ := hnumber
    obtain ⟨scope, rfl, -⟩ := hscope
    exact ⟨.function { f with id := n, scope := scope }, rfl⟩
  | returned _ ih =>
    obtain ⟨u, rfl⟩ := ih
    exact ⟨.returned u, rfl⟩

theorem outcome_retoken {returns : Bool} (v : Value) : retokenFrame.Outcome returns () fun τ => v.retoken τ :=
  .kept ⟨values_retoken v, trivial⟩

theorem exists_of_outcome {returns : Bool} {v : (Token → Token) → Value} (h : retokenFrame.Outcome returns () v) :
    ∃ u : Value, v = fun τ => u.retoken τ := exists_of_values h.values

/-! ## Runs -/

/-- The output and the trace hold texts only. -/
def Machine.retoken (τ : Token → Token) (m : Machine) : Machine := ⟨m.heap.retoken τ, m.output, m.trace⟩

theorem Machine.retoken_id (m : Machine) : m.retoken id = m :=
  congrArg (fun heap => (⟨heap, m.output, m.trace⟩ : Machine)) m.heap.retoken_id

/-- How the runs from one machine end: with values that have the property, or halted alike.  Each leaves
    one machine behind, with its own tokens. -/
inductive RetokenedEnd (Q : ((Token → Token) → α) → Prop) (x : (Token → Token) → Eval α) (m : Machine) : Prop
  | value (a : (Token → Token) → α) (m' : Machine) :
      (∀ τ, x τ (m.retoken τ) = .ok (a τ) (m'.retoken τ)) → Q a → RetokenedEnd Q x m
  | halt (h : Halt) (m' : Machine) : (∀ τ, x τ (m.retoken τ) = .error h (m'.retoken τ)) → RetokenedEnd Q x m

/-- All runs get to the second part from one machine, or none does. -/
theorem RetokenedEnd.bind {β : Type} {P : ((Token → Token) → α) → Prop} {Q : ((Token → Token) → β) → Prop}
    {x : (Token → Token) → Eval α} {next : (Token → Token) → α → Eval β} {m : Machine} (hx : RetokenedEnd P x m)
    (hnext : ∀ a, P a → ∀ m, RetokenedEnd Q (fun τ => next τ (a τ)) m) :
    RetokenedEnd Q (fun τ => x τ >>= next τ) m := by
  cases hx with
  | halt h m' hr => exact .halt h m' fun τ => Eval.bind_of_error (hr τ) _
  | value a m' hr ha =>
    cases hnext a ha m' with
    | value b m₂ hr' hb => exact .value b m₂ (fun τ => (Eval.bind_of_ok (hr τ) _).trans (hr' τ)) hb
    | halt h m₂ hr' => exact .halt h m₂ fun τ => (Eval.bind_of_ok (hr τ) _).trans (hr' τ)

section Steps

variable (m : Machine) (scope : ScopeId) (name : String)

theorem newScope_retokened (outer : Option ScopeId) :
    RetokenedEnd (Constant fun _ => True) (fun _ => Eval.newScope outer) m := by
  refine .value (fun _ => (m.heap.alloc outer).1) ⟨(m.heap.alloc outer).2, m.output, m.trace⟩ (fun τ => ?_)
    ⟨_, rfl, trivial⟩
  show EStateM.Result.ok ((m.heap.retoken τ).alloc outer).1
    (⟨((m.heap.retoken τ).alloc outer).2, m.output, m.trace⟩ : Machine) = _
  rw [m.heap.alloc_retoken]
  rfl

/-- What a name is bound to has the tokens of the run. -/
theorem lookup?_retokened :
    RetokenedEnd (retokenFrame.Found ()) (fun _ => Eval.lookup? scope name) m := by
  refine .value (fun τ => (m.heap.get? scope name).map (Value.retoken τ)) m (fun τ => ?_) ?_
  · show EStateM.Result.ok ((m.heap.retoken τ).get? scope name) (m.retoken τ) = _
    rw [m.heap.get?_retoken]
  · cases m.heap.get? scope name with
    | none => exact .none
    | some v => exact .some ⟨values_retoken v, trivial⟩

theorem define_retokened (v : Value) (constant : Bool) :
    RetokenedEnd (retokenFrame.Outcome false ()) (fun τ => Eval.define scope name (v.retoken τ) constant) m := by
  refine .value _ ⟨(m.heap.define scope name v constant).2, m.output, m.trace⟩ (fun τ => ?_)
    (outcome_retoken (m.heap.define scope name v constant).1)
  show EStateM.Result.ok ((m.heap.retoken τ).define scope name (v.retoken τ) constant).1
    (⟨((m.heap.retoken τ).define scope name (v.retoken τ) constant).2, m.output, m.trace⟩ : Machine) = _
  rw [m.heap.define_retoken]
  rfl

theorem assign_retokened (v : Value) :
    RetokenedEnd (retokenFrame.Outcome false ()) (fun τ => Eval.assign scope name (v.retoken τ)) m := by
  refine .value _ ⟨(m.heap.assign scope name v).2, m.output, m.trace⟩ (fun τ => ?_)
    (outcome_retoken (m.heap.assign scope name v).1)
  show EStateM.Result.ok ((m.heap.retoken τ).assign scope name (v.retoken τ)).1
    (⟨((m.heap.retoken τ).assign scope name (v.retoken τ)).2, m.output, m.trace⟩ : Machine) = _
  rw [m.heap.assign_retoken]
  rfl

/-- What is recorded does not show tokens. -/
theorem note_retokened (settings : Settings) (level : Nat) (event : Except Fault TraceEvent) :
    RetokenedEnd (fun _ => True) (fun _ => Eval.note settings level fun _ => event) m := by
  by_cases hlevel : level ≤ settings.traceLevel
  · unfold Eval.note
    simp only [if_pos hlevel]
    cases event with
    | ok e => exact .value (fun _ => ()) ⟨m.heap, m.output, m.trace.push e⟩ (fun _ => rfl) trivial
    | error f => exact .halt (.fault f) m fun _ => rfl
  · simp only [note_above (Int.not_le.1 hlevel)]
    exact .value (fun _ => ()) m (fun _ => rfl) trivial

end Steps

/-- The runs of one tree with every change of tokens. -/
def retokening (settings : Settings) : Logic (Token → Token) where
  toFrame := retokenFrame
  settings _ := settings
  watch _ := .silent
  extra _ := 0
  Records _ := True
  records _ _ := trivial
  Holds _ _ Q x := ∀ m, RetokenedEnd (Q ()) x m
  later h _ := h
  result {_ _ _ _ a} ha m := .value a m (fun _ => rfl) (ha () trivial)
  chain hx hnext _ m := (hx m).bind fun a ha => hnext () a trivial ha
  newScope h m := by
    obtain ⟨scope, rfl, -⟩ := h
    exact newScope_retokened m (some scope)
  newFunction m :=
    .value (fun _ => m.heap.functions) ⟨⟨m.heap.scopes, m.heap.functions + 1⟩, m.output, m.trace⟩ (fun _ => rfl)
      ⟨_, rfl, trivial⟩
  lookup? h name m := by
    obtain ⟨scope, rfl, -⟩ := h
    exact lookup?_retokened m scope name
  define h hv name constant m := by
    obtain ⟨scope, rfl, -⟩ := h
    obtain ⟨v, rfl⟩ := exists_of_values hv.values
    exact define_retokened m scope name v constant
  assign h hv name m := by
    obtain ⟨scope, rfl, -⟩ := h
    obtain ⟨v, rfl⟩ := exists_of_values hv.values
    exact assign_retokened m scope name v
  print line m := .value (fun _ => ()) ⟨m.heap, m.output ++ line ++ "\n", m.trace⟩ (fun _ => rfl) trivial
  ofExcept {_ _ _ r} _ m := by
    cases r with
    | ok a => exact .value (fun _ => a) m (fun _ => rfl) ⟨a, rfl, rfl⟩
    | error f => exact .halt (.fault f) m fun _ => rfl
  note {_ _ level event} _ _ m := note_retokened m settings level event
  cut {_ _ _ _ x} hx _ m := by
    obtain rfl : x = fun _ => Eval.outOfFuel := funext fun τ => hx τ rfl
    exact .halt .outOfFuel m fun _ => rfl
  seen hx := by
    simp only [Watched.seen_silent]
    exact hx
  call hf hvs _ hbody := by
    refine Steps.call_of_limit (fun _ _ => trivial) hf hvs ?_ hbody
    intro w' x hw hx
    exact Steps.silent_limit (fun _ => rfl) trivial (fun _ => rfl) (hf.later hw) hx

/-! ## Trees -/

/-- The end of a run with other tokens. -/
def retokenEnd (τ : Token → Token) : EStateM.Result Halt Machine Value → EStateM.Result Halt Machine Value
  | .ok v m => .ok (v.retoken τ) (m.retoken τ)
  | .error h m => .error h (m.retoken τ)

/-- Statements with other tokens, run on a machine with the same other tokens, end as they do without the
    change, up to the change. -/
theorem statements_retoken (settings : Settings) (fuel depth : Nat) (scope : ScopeId) (ss : List Stmt)
    (τ : Token → Token) (m : Machine) :
    Rule.inOrder (evalStmt settings fuel depth scope) .null (retokenStmts τ ss) (m.retoken τ) =
      retokenEnd τ (Rule.inOrder (evalStmt settings fuel depth scope) .null ss m) := by
  have hwatched : (retokening settings).Outcomes true ()
      ((retokening settings).bodyRuns fuel depth (fun _ => scope) (fun _ => .null) ss) :=
    ((retokening settings).covers fuel).inOrder ⟨scope, rfl, trivial⟩ Frame.outcome_null nofun
      (fun s _ => s.within_all) fun _ _ => trivial
  have hruns : RetokenedEnd (retokenFrame.Outcome true ()) (fun τ => Rule.inOrder
      (Watched.stmt .silent settings (0 + fuel) depth scope) .null (retokenStmts τ ss)) m := hwatched m
  rw [Nat.zero_add, (Watched.same settings fuel).stmt] at hruns
  -- no change of tokens is a change too, and its run is the one of the tree as it is
  cases hruns with
  | value v m' hr hv =>
    obtain ⟨u, rfl⟩ := exists_of_outcome hv
    have hid : Rule.inOrder (evalStmt settings fuel depth scope) .null (retokenStmts id ss) (m.retoken id) =
        .ok (u.retoken id) (m'.retoken id) := hr id
    rw [retokenStmts_id, m.retoken_id, m'.retoken_id, u.retoken_id] at hid
    rw [hid]
    exact hr τ
  | halt h m' hr =>
    have hid := hr id
    rw [retokenStmts_id, m.retoken_id, m'.retoken_id] at hid
    rw [hid]
    exact hr τ

end ScriptLang
