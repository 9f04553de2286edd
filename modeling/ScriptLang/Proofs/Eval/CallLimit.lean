import ScriptLang.Session
import ScriptLang.Proofs.Eval.Uniform

/-!
  The limit on nested calls.

  A call inside as many others as the limit allows does not run its body and comes to an error.  Up to
  there a run does not depend on the limit, so a run in which no call gets there is the same under every
  higher limit.  And nothing is left to do once a call has got there: all that is around it passes the
  error on, up to the end of the program.

  A watch finds out whether a call gets there, by ending the run at that point.
-/

namespace ScriptLang

/-- Ends a run at a call that comes to the limit. -/
def Watch.atLimit (limit : Nat) (stop : Closure → Halt) : Watch
  | .call depth f _ => if limit ≤ depth then throw (stop f) else pure ()
  | .value _ => pure ()

theorem Watch.atLimit_of_le {limit depth : Nat} (h : limit ≤ depth) (stop : Closure → Halt) (f : Closure)
    (scope : ScopeId) : atLimit limit stop (.call depth f scope) = throw (stop f) := if_pos h

theorem Watch.atLimit_of_lt {limit depth : Nat} (h : depth < limit) (stop : Closure → Halt) (f : Closure)
    (scope : ScopeId) : atLimit limit stop (.call depth f scope) = pure () := if_neg (Nat.not_le_of_lt h)

/-- In the run of a program a call of `f` comes to the limit, and `m₁` is the machine at that point:
    a watch can end the run there, with whatever it likes. -/
def HitsLimit (settings : Settings) (fuel : Nat) (scope : ScopeId) (p : Program) (m : Machine) (f : Closure)
    (m₁ : Machine) : Prop :=
  ∀ stop, Watched.runProgram (.atLimit settings.callLimit stop) settings fuel scope p m = .error (stop f) m₁

/-- Runs that are told apart by the limit: those under higher limits, and those that are ended at it. -/
inductive Limited (limit : Nat)
  | upTo (higher : Nat) (h : limit ≤ higher)
  | stopping (stop : Closure → Halt)

namespace Limited

variable {limit : Nat}

def higher : Limited limit → Nat
  | upTo higher _ => higher
  | stopping _ => limit

def watch : Limited limit → Watch
  | upTo _ _ => .silent
  | stopping stop => .atLimit limit stop

theorem le_higher (i : Limited limit) : limit ≤ i.higher := by
  cases i with
  | upTo higher h => exact h
  | stopping stop => exact Nat.le_refl limit

theorem watch_value (i : Limited limit) (v : Value) : i.watch (.value v) = pure () := by
  cases i with
  | upTo higher h => rfl
  | stopping stop => rfl

theorem watch_call {depth : Nat} (h : depth < limit) (i : Limited limit) (f : Closure) (scope : ScopeId) :
    i.watch (.call depth f scope) = pure () := by
  cases i with
  | upTo higher h => rfl
  | stopping stop => exact Watch.atLimit_of_lt h stop f scope

end Limited

/-- How such runs end: all of them in the same way, or a call comes to the limit. -/
inductive LimitedEnd {α : Type} (limit : Nat) (error? : α → Option RuntimeError)
    (Q : (Limited limit → α) → Prop) (x : Limited limit → Eval α) (m : Machine) : Prop
  | value (a : Limited limit → α) (m' : Machine) : (∀ i, x i m = .ok (a i) m') → Q a →
      LimitedEnd limit error? Q x m
  | halt (h : Halt) (m' : Machine) : (∀ i, x i m = .error h m') → LimitedEnd limit error? Q x m
  | hit (f : Closure) (m₁ : Machine) : (∀ stop, x (.stopping stop) m = .error (stop f) m₁) →
      (∃ a m', x (.upTo limit (Nat.le_refl limit)) m = .ok a m' ∧
        error? a = some (.recursionLimit f.displayName) ∧ m'.Alike m₁) →
      LimitedEnd limit error? Q x m

namespace LimitedEnd

variable {α β : Type} {limit : Nat} {error? : α → Option RuntimeError} {error?' : β → Option RuntimeError}
  {P : (Limited limit → α) → Prop} {Q : (Limited limit → β) → Prop} {m : Machine}

theorem bind {x : Limited limit → Eval α} {next : Limited limit → α → Eval β}
    (hx : LimitedEnd limit error? P x m)
    (hnext : ∀ a, P a → ∀ m, LimitedEnd limit error?' Q (fun i => next i (a i)) m)
    (hpass : ∀ i a e, error? a = some e → PassesOn error?' e (next i a)) :
    LimitedEnd limit error?' Q (fun i => x i >>= next i) m := by
  cases hx with
  | halt h m' hr => exact .halt h m' fun i => Eval.bind_of_error (hr i) _
  | value a m' hr ha =>
    have hrun (i : Limited limit) : (x i >>= next i) m = next i (a i) m' := Eval.bind_of_ok (hr i) _
    cases hnext a ha m' with
    | value b m₂ hr' hb => exact .value b m₂ (fun i => (hrun i).trans (hr' i)) hb
    | halt h m₂ hr' => exact .halt h m₂ fun i => (hrun i).trans (hr' i)
    | hit f m₁ hstop herror =>
      refine .hit f m₁ (fun stop => (hrun _).trans (hstop stop)) ?_
      rw [hrun]
      exact herror
  | hit f m₁ hstop herror =>
    -- the error is there already, and the rest passes it on
    obtain ⟨a, m', hok, ha, halike⟩ := herror
    obtain ⟨b, m₂, hpassed, hb, halike'⟩ := hpass _ a _ ha m'
    refine .hit f m₁ (fun stop => Eval.bind_of_error (hstop stop) _) ⟨b, m₂, ?_, hb, ?_⟩
    · exact (Eval.bind_of_ok hok _).trans hpassed
    · exact ⟨halike'.heap.trans halike.heap, halike'.output.trans halike.output⟩

/-- A step in which the limit plays no part. -/
theorem step {x : Eval α} {R : α → Prop} (h : ∀ a m', x m = .ok a m' → R a) :
    LimitedEnd limit error? (Constant R) (fun _ => x) m := by
  cases hrun : x m with
  | ok a m' => exact .value (fun _ => a) m' (fun _ => hrun) ⟨a, rfl, h a m' hrun⟩
  | error e m' => exact .halt e m' fun _ => hrun

end LimitedEnd

/-- Runs under a limit and under higher ones. -/
def limiting (settings : Settings) : Uniform (Limited settings.callLimit) where
  toDomain := .whole
  origin := .upTo settings.callLimit (Nat.le_refl _)
  settings i := { settings with callLimit := i.higher }
  watch := Limited.watch
  Noted _ := True
  Holds _ error? Q x := ∀ m, LimitedEnd settings.callLimit error? (Q ()) x m
  later h _ := h
  result {_ _ _ _ a} ha m := .value a m (fun _ => rfl) (ha () trivial)
  chain hx hnext hpass m := (hx m).bind (fun a ha => hnext () a trivial ha) hpass
  newScope _ m := .step fun _ _ _ => trivial
  newFunction m := .step fun _ _ _ => trivial
  lookup? _ name m := .step fun _ _ _ v _ => Domain.admits_whole () v
  define _ _ name constant m := .step fun v _ _ => Domain.admits_whole () v
  assign _ _ name m := .step fun v _ _ => Domain.admits_whole () v
  print line m := .value (fun _ => ()) _ (fun _ => rfl) trivial
  ofExcept {_ _ _ r} _ m := by
    refine .step fun a m' h => ?_
    cases r with
    | ok b =>
      cases h
      rfl
    | error f => cases h
  noted _ := trivial
  note {_ _ level event} _ _ m := by
    rcases note_cases settings level (fun _ => event) m with ⟨_, hnote⟩ | ⟨e, _, _, hnote⟩ | ⟨f, _, hnote⟩
    · exact .value (fun _ => ()) _ (fun _ => hnote) trivial
    · exact .value (fun _ => ()) _ (fun _ => hnote) trivial
    · exact .halt _ _ fun _ => hnote
  cut _ m := .halt .outOfFuel m fun _ => rfl
  seen hx := by
    simp only [Watched.seen_eq (Limited.watch_value _)]
    exact hx
  limit {_ depth scope f x} _ _ hx m := by
    by_cases hlimit : settings.callLimit ≤ depth
    -- this is the point: the watch ends the run, and without it the call comes to the error
    · refine .hit f m (fun stop => ?_) ⟨.error (.recursionLimit f.displayName), m, ?_, rfl, rfl, rfl⟩
      · simp only [Limited.watch, Watch.atLimit_of_le hlimit]
        rfl
      · exact congrArg (fun y : Eval Value => y m) (if_pos hlimit)
    -- below the least limit no other limit has a say, and the watch lets the call go
    · have hlt (i : Limited settings.callLimit) : ¬ i.higher ≤ depth := by
        have := i.le_higher
        omega
      simp only [Limited.watch_call (Nat.lt_of_not_le hlimit), pure_bind, if_neg (hlt _)]
      exact hx trivial m

/-- A run that ends with whatever the watch likes cannot end in another way. -/
theorem stop_unique {α : Type} {f f' : Closure} {m m' : Machine}
    (h : ∀ stop : Closure → Halt, (.error (stop f) m : EStateM.Result Halt Machine α) = .error (stop f') m') :
    f = f' ∧ m = m' := by
  classical
  have hmachine := h fun _ => .outOfFuel
  have hfunction := h fun g => if g = f then .outOfFuel else .fault .textDigits
  injection hmachine with _ hm
  injection hfunction with hhalt _
  by_cases hf : f' = f
  · exact ⟨hf.symm, hm⟩
  · rw [if_pos rfl, if_neg hf] at hhalt
    cases hhalt

/-- All runs of a program end in the same way, or a call of it comes to the limit. -/
theorem runProgram_limited (settings : Settings) (fuel : Nat) (scope : ScopeId) (p : Program) (m : Machine) :
    (∃ r, ∀ i : Limited settings.callLimit,
      Watched.runProgram i.watch { settings with callLimit := i.higher } fuel scope p m = r) ∨
    ∃ f m₁, HitsLimit settings fuel scope p m f m₁ ∧
      ∃ m', Watched.runProgram .silent settings fuel scope p m =
        .ok (.error (.recursionLimit f.displayName)) m' ∧ m'.Alike m₁ := by
  have hruns : (limiting settings).Yields () fun i =>
      Watched.runProgram i.watch { settings with callLimit := i.higher } fuel scope p :=
    Uniform.runProgram trivial trivial p.within_all fun _ _ => trivial
  cases hruns m with
  | value _ m' hr hsame =>
    obtain ⟨v, rfl, -⟩ := hsame
    exact Or.inl ⟨_, hr⟩
  | halt h m' hr => exact Or.inl ⟨_, hr⟩
  | hit f m₁ hstop herror =>
    obtain ⟨v, m', hrun, hv, halike⟩ := herror
    obtain rfl := Value.eq_of_error? hv
    exact Or.inr ⟨f, m₁, hstop, m', hrun, halike⟩

/-- A run in which no call comes to the limit is the same under every higher limit: in its value, output,
    trace and scopes.  If a call does come to it, the program has the error that names the called function
    as its value, and the scopes and the output stay as they were at that point. -/
theorem limit_cuts_only_hits (settings : Settings) (fuel : Nat) (scope : ScopeId) (p : Program) (m : Machine) :
    ((∀ f m₁, ¬ HitsLimit settings fuel scope p m f m₁) → ∀ higher ≥ settings.callLimit,
      m.step (runProgram { settings with callLimit := higher } fuel scope p) =
        m.step (runProgram settings fuel scope p)) ∧
    ∀ f m₁, HitsLimit settings fuel scope p m f m₁ →
      ∃ m', m.step (runProgram settings fuel scope p) = (.ok (.error (.recursionLimit f.displayName)), m') ∧
        (RuntimeError.recursionLimit f.displayName).message =
          "Maximum recursion depth exceeded in function '" ++ f.displayName ++ "'." ∧
        m'.heap = m₁.heap ∧ m'.output = m₁.output := by
  have hupTo (higher : Nat) (h : settings.callLimit ≤ higher) :
      Watched.runProgram (Limited.upTo higher h).watch { settings with callLimit := higher } fuel scope p m =
        runProgram { settings with callLimit := higher } fuel scope p m :=
    congrArg (fun x : Eval Value => x m) (Watched.runProgram_silent ..)
  rcases runProgram_limited settings fuel scope p m with ⟨r, hr⟩ | ⟨f, m₁, hhit, m', hrun, halike⟩
  · have hrun (higher : Nat) (h : settings.callLimit ≤ higher) :
        runProgram { settings with callLimit := higher } fuel scope p m = r :=
      (hupTo higher h).symm.trans (hr (.upTo higher h))
    refine ⟨fun _ higher h => ?_, fun f m₁ hhit => ?_⟩
    · have hsettings : runProgram settings fuel scope p m = r := hrun _ (Nat.le_refl _)
      unfold Machine.step
      rw [hrun higher h, hsettings]
    · -- the run would end both with a fault and out of fuel
      have hcut := (hr (.stopping fun _ => .outOfFuel)).symm.trans (hhit _)
      have hfault := (hr (.stopping fun _ => .fault .textDigits)).symm.trans (hhit _)
      rw [hcut] at hfault
      cases hfault
  · refine ⟨fun hnone => absurd hhit (hnone f m₁), fun f' m₁' hhit' => ?_⟩
    obtain ⟨rfl, rfl⟩ := stop_unique fun stop => (hhit stop).symm.trans (hhit' stop)
    have hsettings : runProgram settings fuel scope p m = .ok (.error (.recursionLimit f.displayName)) m' :=
      (hupTo _ (Nat.le_refl _)).symm.trans hrun
    refine ⟨m', ?_, rfl, halike.heap, halike.output⟩
    unfold Machine.step
    rw [hsettings]

/-- `fn f(): int { display("in"); return f(); } f();` comes to the limit 1 in the second call.  Without the
    last call the function runs the same way under all limits. -/
theorem limit_cuts_only_hits_endless :
    let t : Token := ⟨.ident, "", 1, 1⟩
    let name : Name := ⟨t, "f"⟩
    let call : Expr := .call t (.name name) []
    let body (last : Expr) : Block := .mk t [.display t [.str t "in"], .ret t (some last)]
    let p (last : Expr) : Program := ⟨t, [.function t name [] ⟨t, "int"⟩ (body last), .expr t call]⟩
    let f : Closure := ⟨0, some "f", [], ⟨t, "int"⟩, body call, 0⟩
    (∃ m₁, HitsLimit { callLimit := 1 } 10 0 (p call) .fresh f m₁ ∧ m₁.output = "in\n" ∧
      ∃ m', Machine.fresh.step (runProgram { callLimit := 1 } 10 0 (p call)) =
        (.ok (.error (.recursionLimit "f")), m') ∧ m'.heap = m₁.heap ∧ m'.output = m₁.output) ∧
    (∀ f m₁, ¬ HitsLimit { callLimit := 1 } 10 0 (p (.int t 7)) .fresh f m₁) ∧
      ∀ higher ≥ 1, Machine.fresh.step (runProgram { callLimit := higher } 10 0 (p (.int t 7))) =
        Machine.fresh.step (runProgram { callLimit := 1 } 10 0 (p (.int t 7))) := by
  intro t name call body p f
  let stopped (q : Program) := Watched.runProgram (.atLimit 1 fun _ => .outOfFuel) { callLimit := 1 } 10 0 q
  let m₁ := (Machine.fresh.step (stopped (p call))).2
  have hhit : HitsLimit { callLimit := 1 } 10 0 (p call) .fresh f m₁ := fun _ => rfl
  have hnone (g : Closure) (m₂ : Machine) : ¬ HitsLimit { callLimit := 1 } 10 0 (p (.int t 7)) .fresh g m₂ := by
    intro h
    have hrun : (Machine.fresh.step (stopped (p (.int t 7)))).1 = .ok (.int 7) := rfl
    unfold Machine.step at hrun
    rw [show stopped (p (.int t 7)) .fresh = .error .outOfFuel m₂ from h _] at hrun
    cases hrun
  obtain ⟨-, hends⟩ := limit_cuts_only_hits { callLimit := 1 } 10 0 (p call) .fresh
  obtain ⟨m', hstep, -, hheap, houtput⟩ := hends f m₁ hhit
  have hsame := (limit_cuts_only_hits { callLimit := 1 } 10 0 (p (.int t 7)) .fresh).1 hnone
  exact ⟨⟨m₁, hhit, rfl, m', hstep, hheap, houtput⟩, hnone, hsame⟩

end ScriptLang
