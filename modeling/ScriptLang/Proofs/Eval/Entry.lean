import Mathlib.Data.List.Forall2
import ScriptLang.Proofs.Eval.Logic
import ScriptLang.Proofs.Eval.Signals
import ScriptLang.Proofs.Scope.Declare
import ScriptLang.Proofs.Value.Conforms

/-!
  What a call does before its body runs.

  A call makes a scope and binds the parameters in it one by one, each after its argument was checked.
  So a call that is refused late has bound some parameters already; but only in the new scope, which
  nothing else knows of.  The body starts if every argument is taken, and then finds each parameter
  bound to what the check made of its argument.  Of two parameters of one name the second is lost.
-/

namespace ScriptLang

/-- The body of a call runs in the scope that its entry gives. -/
theorem applyFunction_eq (settings : Settings) (fuel depth : Nat) (f : Closure) (vs : List Value) :
    applyFunction settings (fuel + 1) depth f vs = Rule.enter settings f vs >>= Rule.proceed settings depth
      (fun scope body => Rule.inOrder (evalStmt settings fuel (depth + 1) scope) .null body) f :=
  rfl

/-! ## Records -/

theorem record_cases (settings : Settings) (f : Closure) (vs : List Value) (scope : ScopeId) (m : Machine) :
    (settings.traceLevel < 2 ∧ Rule.record settings f vs scope none m = .ok (.ok scope) m) ∨
    (∃ texts, 2 ≤ settings.traceLevel ∧ Rule.texts vs = .ok texts ∧ Rule.record settings f vs scope none m =
      .ok (.ok scope) ⟨m.heap, m.output, m.trace.push (.called f.displayName texts)⟩) ∨
    ∃ flt, Rule.record settings f vs scope none m = .error (.fault flt) m := by
  unfold Rule.record
  rcases note_cases settings 2 (fun _ => return .called f.displayName (← Rule.texts vs)) m with
    ⟨hlevel, hnote⟩ | ⟨e, hlevel, hevent, hnote⟩ | ⟨flt, _, hnote⟩
  · exact Or.inl ⟨hlevel, Eval.bind_of_ok hnote _⟩
  · obtain ⟨texts, htexts, rfl⟩ := shown_of_event hevent
    exact Or.inr (Or.inl ⟨texts, hlevel, htexts, Eval.bind_of_ok hnote _⟩)
  · exact Or.inr (Or.inr ⟨flt, Eval.bind_of_error hnote _⟩)

/-! ## Passing arguments -/

/-- The check makes `ws` of the arguments and refuses none. -/
inductive Passes (function : String) : List Parameter → List Value → List Value → Prop
  | nil : Passes function [] [] []
  | cons {p : Parameter} {ps : List Parameter} {v w : Value} {vs ws : List Value} :
      checkArgument function p.name.text p.declared.name v = .ok w → w.isError = false →
      Passes function ps vs ws → Passes function (p :: ps) (v :: vs) (w :: ws)

/-- The argument `v` comes to the parameter `p` after others that pass. -/
inductive Reaches (function : String) (p : Parameter) (v : Value) : List Parameter → List Value → Prop
  | intro {ps₁ ps₂ : List Parameter} {vs₁ vs₂ ws : List Value} : Passes function ps₁ vs₁ ws →
      Reaches function p v (ps₁ ++ p :: ps₂) (vs₁ ++ v :: vs₂)

/-- The machine with one more scope. -/
def Machine.withScope (m : Machine) (s : Scope) : Machine :=
  ⟨⟨m.heap.scopes.push s, m.heap.functions⟩, m.output, m.trace⟩

/-- The names of the parameters, in order. -/
def Closure.parameterNames (f : Closure) : List String := f.parameters.map (·.name.text)

/-- The scope of a call whose arguments pass as `ws`. -/
def Closure.callScope (f : Closure) (ws : List Value) : Scope :=
  (Scope.mk (some f.scope) []).declareAll (f.parameterNames.zip ws)

section Binding

variable {function : String} {ps : List Parameter} {vs ws : List Value}

theorem Passes.length_eq (h : Passes function ps vs ws) : vs.length = ps.length := by
  induction h with
  | nil => rfl
  | cons _ _ _ ih => exact congrArg (· + 1) ih

theorem Passes.length_bound (h : Passes function ps vs ws) : ws.length = ps.length := by
  induction h with
  | nil => rfl
  | cons _ _ _ ih => exact congrArg (· + 1) ih

/-- All arguments pass, or there is a first one that does not. -/
theorem passes_or_reaches (hlength : vs.length = ps.length) :
    (∃ ws, Passes function ps vs ws) ∨ ∃ p v, Reaches function p v ps vs ∧
      ((∃ flt, checkArgument function p.name.text p.declared.name v = .error flt) ∨
        ∃ e, checkArgument function p.name.text p.declared.name v = .ok (.error e)) := by
  induction ps generalizing vs with
  | nil =>
    cases List.eq_nil_of_length_eq_zero hlength
    exact Or.inl ⟨[], .nil⟩
  | cons p ps ih =>
    cases vs with
    | nil => cases hlength
    | cons v vs =>
      have hfirst : Reaches function p v ([] ++ p :: ps) ([] ++ v :: vs) := .intro .nil
      cases hcheck : checkArgument function p.name.text p.declared.name v with
      | error flt => exact Or.inr ⟨p, v, hfirst, Or.inl ⟨flt, hcheck⟩⟩
      | ok w =>
        cases hw : w.isError with
        | true =>
          cases w with
          | error e => exact Or.inr ⟨p, v, hfirst, Or.inr ⟨e, hcheck⟩⟩
          | int n | float x | bool b | str s | null | function f | returned u => cases hw
        | false =>
          rcases ih (Nat.succ.inj hlength) with ⟨ws, hws⟩ | ⟨q, u, ⟨hws⟩, hstops⟩
          · exact Or.inl ⟨w :: ws, .cons hcheck hw hws⟩
          · exact Or.inr ⟨q, u, .intro (.cons hcheck hw hws), hstops⟩

/-- Where all arguments pass, so does each. -/
theorem Reaches.passes {p : Parameter} {v : Value} (h : Reaches function p v ps vs)
    (hws : Passes function ps vs ws) :
    ∃ w, checkArgument function p.name.text p.declared.name v = .ok w ∧ w.isError = false := by
  obtain ⟨hfront⟩ := h
  induction hfront generalizing ws with
  | nil =>
    cases hws with
    | cons hcheck hw _ => exact ⟨_, hcheck, hw⟩
  | cons _ _ _ ih =>
    cases hws with
    | cons _ _ hrest => exact ih hrest

/-- Parameters that take their arguments are bound in the newest scope. -/
theorem Passes.bindArguments (h : Passes function ps vs ws) (ps' : List Parameter) (vs' : List Value)
    (m : Machine) (s : Scope) :
    Rule.bindArguments function m.heap.scopes.size (ps ++ ps') (vs ++ vs') (m.withScope s) =
      Rule.bindArguments function m.heap.scopes.size ps' vs'
        (m.withScope (s.declareAll ((ps.map (·.name.text)).zip ws))) := by
  induction h generalizing s with
  | nil => rfl
  | @cons p ps v w vs ws hcheck hw _ ih =>
    have hdefine : Eval.define m.heap.scopes.size p.name.text w false (m.withScope s) =
        .ok _ (m.withScope (s.declare p.name.text w)) :=
      congrArg (fun h => EStateM.Result.ok _ (Machine.mk h m.output m.trace)) (Heap.define_push _ s _ _ w)
    have hbound : (Eval.define m.heap.scopes.size p.name.text w false >>= fun _ =>
        Rule.bindArguments function m.heap.scopes.size (ps ++ ps') (vs ++ vs')) (m.withScope s) = _ :=
      (Eval.bind_of_ok hdefine _).trans (ih _)
    rw [List.cons_append, List.cons_append, Rule.bindArguments, hcheck]
    cases w with
    | error e => cases hw
    | int n | float x | bool b | str t | null | function f | returned u => exact hbound

theorem Reaches.bindArguments {p : Parameter} {v : Value} (h : Reaches function p v ps vs) (m : Machine)
    (s : Scope) : ∃ s' ps' vs',
      Rule.bindArguments function m.heap.scopes.size ps vs (m.withScope s) =
        Rule.bindArguments function m.heap.scopes.size (p :: ps') (v :: vs') (m.withScope s') := by
  obtain ⟨hws⟩ := h
  exact ⟨_, _, _, hws.bindArguments _ _ m s⟩

end Binding

/-! ## How a call is entered -/

/-- What becomes of a call in front of its body. -/
inductive Entry (settings : Settings) (f : Closure) (vs : List Value) (m : Machine) :
    EStateM.Result Halt Machine (Except RuntimeError ScopeId) → Prop
  | arity : vs.length ≠ f.parameters.length →
      Entry settings f vs m (.ok (.error (.arity f.displayName f.parameters.length vs.length)) m)
  | fault {p : Parameter} {v : Value} {flt : Fault} (s : Scope) : vs.length = f.parameters.length →
      Reaches f.displayName p v f.parameters vs →
      checkArgument f.displayName p.name.text p.declared.name v = .error flt →
      Entry settings f vs m (.error (.fault flt) (m.withScope s))
  | refused {p : Parameter} {v : Value} {e : RuntimeError} (s : Scope) : vs.length = f.parameters.length →
      Reaches f.displayName p v f.parameters vs →
      checkArgument f.displayName p.name.text p.declared.name v = .ok (.error e) →
      Entry settings f vs m (.ok (.error e) (m.withScope s))
  | bound {ws : List Value} : Passes f.displayName f.parameters vs ws →
      Entry settings f vs m (Rule.record settings f vs m.heap.scopes.size none (m.withScope (f.callScope ws)))

section Entry

variable (settings : Settings) {f : Closure} {vs ws : List Value} (m : Machine)

theorem enter_of_length (h : vs.length = f.parameters.length) :
    Rule.enter settings f vs m =
      (Rule.bindArguments f.displayName m.heap.scopes.size f.parameters vs >>=
        Rule.record settings f vs m.heap.scopes.size) (m.withScope ⟨some f.scope, []⟩) := by
  unfold Rule.enter
  rw [if_neg (not_not_intro h)]
  rfl

theorem enter_of_passes (h : Passes f.displayName f.parameters vs ws) :
    Rule.enter settings f vs m =
      Rule.record settings f vs m.heap.scopes.size none (m.withScope (f.callScope ws)) := by
  have hbind := h.bindArguments [] [] m ⟨some f.scope, []⟩
  rw [List.append_nil, List.append_nil] at hbind
  rw [enter_of_length settings m h.length_eq]
  exact Eval.bind_of_ok hbind _

theorem enter_entry (f : Closure) (vs : List Value) : Entry settings f vs m (Rule.enter settings f vs m) := by
  by_cases hlength : vs.length = f.parameters.length
  swap
  · unfold Rule.enter
    rw [if_pos hlength]
    exact .arity hlength
  rcases passes_or_reaches hlength with ⟨ws, hws⟩ | ⟨p, v, hreaches, hstops⟩
  · rw [enter_of_passes settings m hws]
    exact .bound hws
  obtain ⟨s, ps', vs', hbind⟩ := hreaches.bindArguments m ⟨some f.scope, []⟩
  rw [enter_of_length settings m hlength]
  rcases hstops with ⟨flt, hcheck⟩ | ⟨e, hcheck⟩
  · rw [Rule.bindArguments, hcheck] at hbind
    rw [Eval.bind_of_error hbind]
    exact .fault s hlength hreaches hcheck
  · rw [Rule.bindArguments, hcheck] at hbind
    rw [Eval.bind_of_ok hbind]
    exact .refused s hlength hreaches hcheck

end Entry

/-! ## Calls that are refused -/

/-- The function takes the arguments: there are as many as it has parameters, and each conforms to the
    type of its parameter. -/
def Closure.Accepts (f : Closure) (vs : List Value) : Prop :=
  List.Forall₂ (fun p v => v.Conforms p.declared.name) f.parameters vs

/-- The first argument that does not conform is `v`, for the parameter `p`. -/
inductive Misfit (p : Parameter) (v : Value) : List Parameter → List Value → Prop
  | intro {ps₁ ps₂ : List Parameter} {vs₁ vs₂ : List Value} :
      List.Forall₂ (fun p v => v.Conforms p.declared.name) ps₁ vs₁ → ¬ v.Conforms p.declared.name →
      Misfit p v (ps₁ ++ p :: ps₂) (vs₁ ++ v :: vs₂)

/-- How a call ends that is refused, with the machine `m`. -/
inductive Refused (f : Closure) (vs : List Value) (m : Machine) : EStateM.Result Halt Machine Value → Prop
  | arity : vs.length ≠ f.parameters.length →
      Refused f vs m (.ok (.error (.arity f.displayName f.parameters.length vs.length)) m)
  | mismatch {p : Parameter} {v : Value} : vs.length = f.parameters.length → Misfit p v f.parameters vs →
      ¬ v.Converts p.declared.name →
      Refused f vs m (.ok (.error (.argumentType f.displayName p.name.text p.declared.name
        (v.typeAgainst p.declared.name))) m)
  /-- An integer that has no float comes before any other argument that does not conform. -/
  | overflow {p : Parameter} {v : Value} : vs.length = f.parameters.length → Misfit p v f.parameters vs →
      v.Converts p.declared.name → Refused f vs m (.error (.fault .conversionOverflow) m)

/-- Nothing was printed or recorded, and the scopes that there were are as they were. -/
structure Machine.Untouched (m m' : Machine) : Prop where
  output : m'.output = m.output
  trace : m'.trace = m.trace
  scopes : ∀ id < m.heap.scopes.size, m'.heap.scopes[id]? = m.heap.scopes[id]?

namespace Machine.Untouched

variable (m : Machine)

theorem refl : m.Untouched m := ⟨rfl, rfl, fun _ _ => rfl⟩

theorem withScope (s : Scope) : m.Untouched (m.withScope s) := by
  refine ⟨rfl, rfl, fun id hid => ?_⟩
  show (m.heap.scopes.push s)[id]? = _
  rw [Array.getElem?_push, if_neg (Nat.ne_of_lt hid)]

end Machine.Untouched

section Refused

variable {function : String} {ps : List Parameter} {vs ws : List Value} {p : Parameter} {v : Value}

/-- Arguments that pass conform. -/
theorem Passes.conforms (h : Passes function ps vs ws) :
    List.Forall₂ (fun p v => v.Conforms p.declared.name) ps vs := by
  induction h with
  | nil => exact .nil
  | @cons p ps v w vs ws hcheck hw _ ih =>
    exact .cons (conforms_of_checkArgument hcheck hw) ih

/-- Arguments that conform pass, if none is an error itself. -/
theorem exists_passes (function : String) (h : List.Forall₂ (fun p v => v.Conforms p.declared.name) ps vs)
    (hvs : ∀ v ∈ vs, v.isError = false) : ∃ ws, Passes function ps vs ws := by
  induction h with
  | nil => exact ⟨[], .nil⟩
  | @cons p v ps vs hv _ ih =>
    obtain ⟨ws, hws⟩ := ih fun u hu => hvs u (List.mem_cons_of_mem _ hu)
    obtain ⟨w, hcheck, hw⟩ := checkArgument_of_conforms function p.name.text hv
    have herror : w.isError = false := by
      rcases hw with rfl | ⟨x, rfl⟩
      · exact hvs w List.mem_cons_self
      · rfl
    exact ⟨w :: ws, .cons hcheck herror hws⟩

theorem Reaches.misfit (h : Reaches function p v ps vs) (hv : ¬ v.Conforms p.declared.name) :
    Misfit p v ps vs := by
  obtain ⟨hws⟩ := h
  exact .intro hws.conforms hv

theorem Reaches.mem (h : Reaches function p v ps vs) : v ∈ vs := by
  obtain ⟨_⟩ := h
  exact List.mem_append_right _ List.mem_cons_self

/-- A call that does not get to its body ends as the check of its arguments does. -/
theorem Entry.refused_call {settings : Settings} {f : Closure} {m : Machine}
    {r : EStateM.Result Halt Machine (Except RuntimeError ScopeId)} (h : Entry settings f vs m r)
    (hvs : ∀ v ∈ vs, v.isError = false) (hf : ¬ f.Accepts vs) :
    ∃ m', m.Untouched m' ∧ ((∃ e, r = .ok (.error e) m' ∧ Refused f vs m' (.ok (.error e) m')) ∨
      ∃ halt, r = .error halt m' ∧ Refused f vs m' (.error halt m')) := by
  cases h with
  | arity hlength => exact ⟨m, .refl m, Or.inl ⟨_, rfl, .arity hlength⟩⟩
  | fault s hlength hreaches hcheck =>
    obtain ⟨hv, hconverts, rfl⟩ := checkArgument_eq_error hcheck
    exact ⟨_, .withScope m s, Or.inr ⟨_, rfl, .overflow hlength (hreaches.misfit hv) hconverts⟩⟩
  | refused s hlength hreaches hcheck =>
    obtain ⟨hv, hconverts, rfl⟩ := checkArgument_eq_refusal (hvs _ hreaches.mem) hcheck
    exact ⟨_, .withScope m s, Or.inl ⟨_, rfl, .mismatch hlength (hreaches.misfit hv) hconverts⟩⟩
  | bound hws => exact absurd hws.conforms hf

end Refused

/-- Without a trace a call gets to its body exactly if the function takes the arguments, which are no
    signals.  Any other call is refused, for its arity or for its first argument that does not conform, and
    leaves no mark. -/
theorem body_starts_iff_accepts (settings : Settings) (htrace : settings.traceLevel < 2) (fuel depth : Nat)
    (f : Closure) (vs : List Value) (hvs : ∀ v ∈ vs, v.isSignal = false) (m : Machine) :
    applyFunction settings (fuel + 1) depth f vs = Rule.enter settings f vs >>= Rule.proceed settings depth
      (fun scope body => Rule.inOrder (evalStmt settings fuel (depth + 1) scope) .null body) f ∧
    ((∃ scope m₁, Rule.enter settings f vs m = .ok (.ok scope) m₁) ↔ f.Accepts vs) ∧
    (¬ f.Accepts vs → ∃ m', m.Untouched m' ∧
      Refused f vs m' (applyFunction settings (fuel + 1) depth f vs m)) := by
  have herrors : ∀ v ∈ vs, v.isError = false := by
    intro v hv
    have hsignal := hvs v hv
    cases v with
    | error e => cases hsignal
    | int n | float x | bool b | str s | null | function f | returned u => rfl
  refine ⟨applyFunction_eq settings fuel depth f vs, ⟨?_, ?_⟩, ?_⟩
  · rintro ⟨scope, m₁, henter⟩
    by_contra hf
    obtain ⟨m', -, ⟨e, hr, -⟩ | ⟨halt, hr, -⟩⟩ := (enter_entry settings m f vs).refused_call herrors hf
    · rw [hr] at henter
      cases henter
    · rw [hr] at henter
      cases henter
  · intro hf
    obtain ⟨ws, hws⟩ := exists_passes f.displayName hf herrors
    rw [enter_of_passes settings m hws, Rule.record, note_above htrace, pure_bind]
    exact ⟨_, _, rfl⟩
  · intro hf
    rw [applyFunction_eq]
    obtain ⟨m', huntouched, ⟨e, hr, hrefused⟩ | ⟨halt, hr, hrefused⟩⟩ :=
      (enter_entry settings m f vs).refused_call herrors hf
    · rw [Eval.bind_of_ok hr]
      exact ⟨m', huntouched, hrefused⟩
    · rw [Eval.bind_of_error hr]
      exact ⟨m', huntouched, hrefused⟩

/-- `fn f(a: float, b: float)` called with `1` and `"x"`: the first argument is converted and bound before
    the second is refused. -/
theorem body_starts_iff_accepts_late :
    let t : Token := ⟨.ident, "", 1, 1⟩
    let float (x : String) : Parameter := ⟨t, ⟨t, x⟩, ⟨t, "float"⟩⟩
    let f : Closure := ⟨0, some "f", [float "a", float "b"], ⟨t, "void"⟩, .mk t [], 0⟩
    let vs : List Value := [.int 1, .str "x"]
    (∀ v ∈ vs, v.isSignal = false) ∧ ¬ f.Accepts vs ∧
    (∃ m', Machine.fresh.Untouched m' ∧ Refused f vs m' (applyFunction {} 1 0 f vs .fresh)) ∧
    (Machine.fresh.step (applyFunction {} 1 0 f vs)).1 =
      .ok (.error (.argumentType "f" "b" "float" "string")) := by
  intro t float f vs
  have hvs : ∀ v ∈ vs, v.isSignal = false := List.all_iff_forall_prop.1 rfl
  have hf : ¬ f.Accepts vs := by
    intro hf
    have hb : (Value.str "x").Conforms "float" := (List.forall₂_cons.1 (List.forall₂_cons.1 hf).2).1
    exact absurd (Value.conforms_str.1 hb) (by decide)
  exact ⟨hvs, hf, (body_starts_iff_accepts {} (by decide) 0 0 f vs hvs .fresh).2.2 hf, by rfl⟩

/-! ## The scope of the body -/

/-- The scope `s` of a call of `f` binds the parameters to `ws`. -/
structure Closure.Binds (f : Closure) (ws : List Value) (s : Scope) : Prop where
  outer : s.outer = some f.scope
  /-- Parameters are variables and nothing else is bound.  Of two parameters of one name the first counts. -/
  find? : ∀ name, s.find? name = ((f.parameterNames.zip ws).lookup name).map (⟨·, false⟩)
  /-- Parameters of distinct names are all bound. -/
  distinct : f.parameterNames.Nodup →
    s.bindings = ((f.parameterNames.zip ws).map fun q => (q.1, ⟨q.2, false⟩)).reverse
  /-- If a name comes twice, an argument is lost. -/
  repeated : ¬ f.parameterNames.Nodup → s.bindings.length < ws.length

theorem Passes.binds {f : Closure} {vs ws : List Value} (h : Passes f.displayName f.parameters vs ws) :
    f.Binds ws (f.callScope ws) := by
  have hlength : f.parameterNames.length = ws.length := by
    rw [h.length_bound]
    exact List.length_map _
  have hnames : (f.parameterNames.zip ws).map Prod.fst = f.parameterNames :=
    List.map_fst_zip (Nat.le_of_eq hlength)
  constructor
  · exact Scope.outer_declareAll _ _
  · exact Scope.find?_declareAll _ _
  · intro hdistinct
    rw [Closure.callScope, Scope.bindings_declareAll (by rwa [hnames]) fun _ _ => rfl, List.append_nil]
  · intro hrepeated
    have hlost := Scope.length_declareAll_repeated (s := ⟨some f.scope, []⟩) (mt hnames.subst hrepeated)
    rw [List.length_zip, hlength, Nat.min_self, List.length_nil, Nat.zero_add] at hlost
    exact hlost

/-- A call is refused if an argument does not pass the check.  Any other call runs its body in a new scope
    inside the function's own, unless there is a fault before.  The parameters are bound there to what the check
    made of the arguments, and nothing else is.  If their names are distinct each has its argument, and if not an
    argument is lost. -/
theorem arguments_reach_parameters (settings : Settings) (fuel depth : Nat) (f : Closure) (vs : List Value)
    (m : Machine) :
    ((∀ ws, ¬ Passes f.displayName f.parameters vs ws) ∧ ∃ e m₁, Rule.enter settings f vs m = .ok (.error e) m₁ ∧
      applyFunction settings (fuel + 1) depth f vs m = .ok (.error e) m₁) ∨
    (∃ flt m₁, Rule.enter settings f vs m = .error (.fault flt) m₁ ∧
      applyFunction settings (fuel + 1) depth f vs m = .error (.fault flt) m₁) ∨
    ∃ ws s m₁, Passes f.displayName f.parameters vs ws ∧ f.Binds ws s ∧
      m₁.heap.scopes = m.heap.scopes.push s ∧
      Rule.enter settings f vs m = .ok (.ok m.heap.scopes.size) m₁ ∧
      applyFunction settings (fuel + 1) depth f vs m = Rule.proceed settings depth
        (fun scope body => Rule.inOrder (evalStmt settings fuel (depth + 1) scope) .null body) f
        (.ok m.heap.scopes.size) m₁ := by
  have hrefused {e : RuntimeError} {m₁ : Machine} (h : Rule.enter settings f vs m = .ok (.error e) m₁) :
      applyFunction settings (fuel + 1) depth f vs m = .ok (.error e) m₁ := by
    rw [applyFunction_eq, Eval.bind_of_ok h]
    rfl
  have hfault {flt : Fault} {m₁ : Machine} (h : Rule.enter settings f vs m = .error (.fault flt) m₁) :
      applyFunction settings (fuel + 1) depth f vs m = .error (.fault flt) m₁ := by
    rw [applyFunction_eq, Eval.bind_of_error h]
  have hentry := enter_entry settings m f vs
  generalize henter : Rule.enter settings f vs m = r at hentry
  cases hentry with
  | arity hlength => exact Or.inl ⟨fun _ hws => hlength hws.length_eq, _, _, rfl, hrefused henter⟩
  | fault s _ _ _ => exact Or.inr (Or.inl ⟨_, _, rfl, hfault henter⟩)
  | refused s _ hreaches hcheck =>
    refine Or.inl ⟨fun ws hws => ?_, _, _, rfl, hrefused henter⟩
    obtain ⟨w, hw, herror⟩ := hreaches.passes hws
    rw [hcheck] at hw
    cases hw
    cases herror
  | @bound ws hws =>
    have hproceed {m₁ : Machine} (h : Rule.enter settings f vs m = .ok (.ok m.heap.scopes.size) m₁) :
        applyFunction settings (fuel + 1) depth f vs m = Rule.proceed settings depth
          (fun scope body => Rule.inOrder (evalStmt settings fuel (depth + 1) scope) .null body) f
          (.ok m.heap.scopes.size) m₁ := by
      rw [applyFunction_eq, Eval.bind_of_ok h]
    rcases record_cases settings f vs m.heap.scopes.size (m.withScope (f.callScope ws)) with
      ⟨_, hrecord⟩ | ⟨texts, _, _, hrecord⟩ | ⟨flt, hrecord⟩
    · rw [hrecord] at henter ⊢
      exact Or.inr (Or.inr ⟨ws, _, _, hws, hws.binds, rfl, rfl, hproceed henter⟩)
    · rw [hrecord] at henter ⊢
      exact Or.inr (Or.inr ⟨ws, _, _, hws, hws.binds, rfl, rfl, hproceed henter⟩)
    · rw [hrecord] at henter ⊢
      exact Or.inr (Or.inl ⟨_, _, rfl, hfault henter⟩)

/-- `fn f(a: int, a: int) { return a; }` called with `1` and `2`: the scope has one binding for the two
    arguments, and the call returns the first. -/
theorem arguments_reach_parameters_repeated :
    let t : Token := ⟨.ident, "", 1, 1⟩
    let int (x : String) : Parameter := ⟨t, ⟨t, x⟩, ⟨t, "int"⟩⟩
    let f : Closure := ⟨0, some "f", [int "a", int "a"], ⟨t, "int"⟩, .mk t [.ret t (some (.name ⟨t, "a"⟩))], 0⟩
    let vs : List Value := [.int 1, .int 2]
    ¬ f.parameterNames.Nodup ∧ (∃ ws s m₁, Passes f.displayName f.parameters vs ws ∧ f.Binds ws s ∧
      m₁.heap.scopes = Machine.fresh.heap.scopes.push s ∧ s.bindings.length < 2 ∧
      Rule.enter {} f vs .fresh = .ok (.ok 1) m₁) ∧
    (Machine.fresh.step (applyFunction {} 10 0 f vs)).1 = .ok (.int 1) := by
  intro t int f vs
  have hrepeated : ¬ f.parameterNames.Nodup := by decide
  refine ⟨hrepeated, ?_, by rfl⟩
  rcases arguments_reach_parameters {} 9 0 f vs .fresh with ⟨-, e, m₁, henter, -⟩ | ⟨flt, m₁, henter, -⟩ |
    ⟨ws, s, m₁, hws, hs, hscopes, henter, -⟩
  · cases henter
  · cases henter
  · have hlost := hs.repeated hrepeated
    rw [hws.length_bound] at hlost
    exact ⟨ws, s, m₁, hws, hs, hscopes, hlost, henter⟩

end ScriptLang
