import ScriptLang.Proofs.Eval.Program
import ScriptLang.Proofs.Eval.Tokens
import ScriptLang.Proofs.Parse.Concat

/-!
  Two sources, one below the other, do what they do one after the other.

  The statements of both are run in one row then, and the state in between is the one that the first leaves
  behind.  The row goes on unless a statement of the first source ends it with a signal: with an error, which the
  first source ends with as well.

  The two ways differ in what they write into the trace, and in the lines of the second source, which the
  functions that it makes keep.
-/

namespace ScriptLang

/-! ## Ends up to places -/

/-- Ends with the same output, and with results and heaps that are the same up to the places of tokens. -/
structure SameUpToPlaces (r r' : Except Halt Value × Machine) : Prop where
  result : r.1.map (Value.retoken Token.unplaced) = r'.1.map (Value.retoken Token.unplaced)
  output : r.2.output = r'.2.output
  heap : r.2.heap.retoken Token.unplaced = r'.2.heap.retoken Token.unplaced

namespace SameUpToPlaces

variable {r r' r'' : Except Halt Value × Machine} {m m' : Machine} {x y : Eval Value}

theorem trans (h : SameUpToPlaces r r') (h' : SameUpToPlaces r' r'') : SameUpToPlaces r r'' :=
  ⟨h.result.trans h'.result, h.output.trans h'.output, h.heap.trans h'.heap⟩

theorem of_sameState (hr : r.1 = r'.1) (hm : r.2.SameState r'.2) : SameUpToPlaces r r' :=
  ⟨by rw [hr], hm.output, by rw [hm.heap]⟩

/-- Runs that end alike without places. -/
theorem of_retokenEnd (h : retokenEnd Token.unplaced (x m) = retokenEnd Token.unplaced (y m)) :
    SameUpToPlaces (m.step x) (m.step y) := by
  unfold Machine.step
  generalize x m = r at h ⊢
  generalize y m = r' at h ⊢
  cases r with
  | ok v m₁ =>
    cases r' with
    | ok v' m₁' =>
      obtain ⟨hv, hm⟩ := EStateM.Result.ok.inj h
      obtain ⟨hheap, houtput, -⟩ := Machine.mk.inj hm
      exact ⟨congrArg Except.ok hv, houtput, hheap⟩
    | error e m₁' => cases h
  | error e m₁ =>
    cases r' with
    | ok v' m₁' => cases h
    | error e' m₁' =>
      obtain ⟨rfl, hm⟩ := EStateM.Result.error.inj h
      obtain ⟨hheap, houtput, -⟩ := Machine.mk.inj hm
      exact ⟨rfl, houtput, hheap⟩

/-- Statements that differ in the places of tokens only end so. -/
theorem statements {ss ss' : List Stmt} (h : retokenStmts Token.unplaced ss = retokenStmts Token.unplaced ss')
    (settings : Settings) (n : Nat) (scope : ScopeId) (m : Machine) :
    SameUpToPlaces (m.step (ScriptLang.statements settings n scope .null ss))
      (m.step (ScriptLang.statements settings n scope .null ss')) := by
  refine of_retokenEnd ?_
  calc retokenEnd Token.unplaced (ScriptLang.statements settings n scope .null ss m)
    _ = ScriptLang.statements settings n scope .null (retokenStmts Token.unplaced ss)
          (m.retoken Token.unplaced) := (statements_retoken settings n 0 scope ss _ m).symm
    _ = ScriptLang.statements settings n scope .null (retokenStmts Token.unplaced ss')
          (m.retoken Token.unplaced) := by rw [h]
    _ = retokenEnd Token.unplaced (ScriptLang.statements settings n scope .null ss' m) :=
        statements_retoken settings n 0 scope ss' _ m

/-- One of them runs out of fuel if the other does. -/
theorem outOfFuel_iff (h : SameUpToPlaces r r') : r.1 = .error .outOfFuel ↔ r'.1 = .error .outOfFuel := by
  obtain ⟨end₁, m₁⟩ := r
  obtain ⟨end₂, m₂⟩ := r'
  have hresult : end₁.map (Value.retoken Token.unplaced) = end₂.map (Value.retoken Token.unplaced) := h.result
  cases end₁ with
  | ok v =>
    cases end₂ with
    | ok v' => exact iff_of_false nofun nofun
    | error e => cases hresult
  | error e =>
    cases end₂ with
    | ok v' => cases hresult
    | error e' =>
      cases hresult
      exact Iff.rfl

/-- Values that are the same up to places have one text, so programs finish with them alike. -/
theorem finish {v v' : Value} (hv : v.retoken Token.unplaced = v'.retoken Token.unplaced)
    (houtput : m.output = m'.output) (hheap : m.heap.retoken Token.unplaced = m'.heap.retoken Token.unplaced)
    (settings : Settings) :
    SameUpToPlaces (m.step (ScriptLang.finish settings v)) (m'.step (ScriptLang.finish settings v')) := by
  have hunwrap : v.unwrap.retoken Token.unplaced = v'.unwrap.retoken Token.unplaced := by
    rw [← Value.unwrap_retoken, ← Value.unwrap_retoken, hv]
  have htext : v.unwrap.text = v'.unwrap.text := by
    rw [← Value.text_retoken, hunwrap, Value.text_retoken]
  rcases step_finish settings v'.unwrap.text with hgood | ⟨f, -, hbad⟩
  · obtain ⟨m₁, hm, hstep⟩ := hgood v m htext
    obtain ⟨m₁', hm', hstep'⟩ := hgood v' m' rfl
    rw [hstep, hstep']
    have hheaps : m₁.heap.retoken Token.unplaced = m₁'.heap.retoken Token.unplaced := by
      rw [← hm.heap, ← hm'.heap, hheap]
    exact ⟨congrArg Except.ok hunwrap, hm.output.symm.trans (houtput.trans hm'.output), hheaps⟩
  · rw [hbad v m htext, hbad v' m' rfl]
    exact ⟨rfl, houtput, hheap⟩

/-- Programs whose statements end so end so. -/
theorem finished (h : SameUpToPlaces (m.step x) (m'.step y)) (settings : Settings) :
    SameUpToPlaces (m.step (x >>= ScriptLang.finish settings)) (m'.step (y >>= ScriptLang.finish settings)) := by
  cases hx : m.step x with
  | mk last m₁ =>
    cases hy : m'.step y with
    | mk last' m₁' =>
      rw [hx, hy] at h
      obtain ⟨hresult, houtput, hheap⟩ := h
      cases last with
      | ok v =>
        cases last' with
        | ok v' =>
          rw [step_bind hx, step_bind hy]
          exact finish (Except.ok.inj hresult) houtput hheap settings
        | error e' => cases hresult
      | error e =>
        cases last' with
        | ok v' => cases hresult
        | error e' =>
          cases hresult
          rw [step_bind_error hx, step_bind_error hy]
          exact ⟨rfl, houtput, hheap⟩

end SameUpToPlaces

/-! ## One program after another -/

section Sequence

variable {settings : Settings} {n : Nat} {scope : ScopeId} {m m₁ : Machine} {p p₁ p₂ : Program} {v₁ : Value}

/-- The statements `ss` come to `v` from the state of `m`, and leave that of `m₁`. -/
def StatementsEnd (settings : Settings) (n : Nat) (scope : ScopeId) (ss : List Stmt) (m : Machine) (v : Value)
    (m₁ : Machine) : Prop :=
  ∀ k, m.SameState k → ∃ k', m₁.SameState k' ∧ k.step (statements settings n scope .null ss) = (.ok v, k')

/-- A program whose statements come to `v` finishes. -/
def Finishes (settings : Settings) (v : Value) : Prop :=
  ∀ m : Machine, ∃ m', m.SameState m' ∧ m.step (finish settings v) = (.ok v.unwrap, m')

/-- A program that ends with a value ran its statements to one. -/
theorem exists_of_runProgram (h : m.step (runProgram settings n scope p) = (.ok v₁, m₁)) :
    ∃ v, v.unwrap = v₁ ∧ Finishes settings v ∧ StatementsEnd settings n scope p.statements m v m₁ := by
  obtain ⟨m₀, hm, hrun⟩ := step_runProgram settings n scope p m
  rw [hrun] at h
  obtain ⟨v, m', hstatements, hfinish⟩ := exists_of_step_bind h
  rcases step_finish settings v.unwrap.text with hgood | ⟨f, -, hbad⟩
  · obtain ⟨k, hk, hstep⟩ := hgood v m' rfl
    obtain ⟨hv, rfl⟩ := Prod.mk.inj (hstep.symm.trans hfinish)
    refine ⟨v, Except.ok.inj hv, fun m => hgood v m rfl, fun k₀ hk₀ => ?_⟩
    obtain ⟨hend, hstate⟩ := statements_sameState (hm.symm.trans hk₀) .null p.statements
    rw [hstatements] at hend hstate
    exact ⟨_, hk.symm.trans hstate, Prod.ext hend.symm rfl⟩
  · cases (hbad v m' rfl).symm.trans hfinish

/-- Where no name holds a `return` only an error ends the statements of a source early. -/
theorem StatementsEnd.isSignal_eq_false {ss : List Stmt} {v : Value} {P : ScopeId → Prop}
    (h : StatementsEnd settings n scope ss m v m₁) (hsound : m.heap.Sound P) (hscope : P scope)
    (hfree : m.heap.ReturnFree P) (hss : stmtsWellFormed false ss) (hv : v.unwrap.isError = false) :
    v.isSignal = false := by
  obtain ⟨k, -, hstep⟩ := h m ⟨rfl, rfl⟩
  cases v with
  | error e => cases hv
  | returned u =>
    have hne := inOrder_ne_returned hsound hscope hfree hss settings n u
    rw [hstep] at hne
    exact absurd rfl hne
  | _ => rfl

/-- A program in two parts finishes after the first, or goes on with the second. -/
theorem step_runProgram_append {below : List Stmt} {v : Value} (hp : p.statements = p₁.statements ++ below)
    (h : StatementsEnd settings n scope p₁.statements m v m₁) :
    ∃ k, m₁.SameState k ∧ m.step (runProgram settings n scope p) =
      k.step ((if v.isSignal then pure v else statements settings n scope v below) >>= finish settings) := by
  obtain ⟨k₀, hk₀, hrun⟩ := step_runProgram settings n scope p m
  obtain ⟨k, hk, hstatements⟩ := h k₀ hk₀
  exists k, hk
  rw [hrun, hp, statements, inOrder_append _ rfl, bind_assoc]
  exact step_bind hstatements _

/-- After a signal the second part is not run. -/
theorem step_append_of_signal {below : List Stmt} {v : Value} (hp : p.statements = p₁.statements ++ below)
    (h : StatementsEnd settings n scope p₁.statements m v m₁) (hv : v.isSignal = true)
    (hfinish : Finishes settings v) :
    ∃ m', m₁.SameState m' ∧ m.step (runProgram settings n scope p) = (.ok v.unwrap, m') := by
  obtain ⟨k, hk, hrun⟩ := step_runProgram_append hp h
  rw [if_pos hv, pure_bind] at hrun
  obtain ⟨k', hk', hend⟩ := hfinish k
  exact ⟨k', hk.trans hk', hrun.trans hend⟩

theorem step_runProgram_nil (hp : p.statements = []) (settings : Settings) (n : Nat) (scope : ScopeId)
    (m : Machine) : ∃ m', m.SameState m' ∧ m.step (runProgram settings n scope p) = (.ok .null, m') := by
  obtain ⟨k, hk, hrun⟩ := step_runProgram settings n scope p m
  rw [hp] at hrun
  rcases step_finish settings Value.null.unwrap.text with hgood | ⟨f, hnone, -⟩
  · obtain ⟨k', hk', hend⟩ := hgood .null k rfl
    exact ⟨k', hk.trans hk', hrun.trans hend⟩
  · cases hnone

/-- How a program ends that goes on after the value `v`, which stays if it has no statements. -/
def Program.endAfter (p : Program) (v : Value) (r : Except Halt Value × Machine) : Except Halt Value × Machine :=
  if p.statements = [] then (.ok v, r.2) else r

theorem Program.endAfter_snd (p : Program) (v : Value) (r : Except Halt Value × Machine) :
    (p.endAfter v r).2 = r.2 := by
  unfold Program.endAfter
  split <;> rfl

/-- After another value the second part is run as a program of its own. -/
theorem step_append_of_not_signal {below : List Stmt} {v : Value} (hp : p.statements = p₁.statements ++ below)
    (hbelow : retokenStmts Token.unplaced below = retokenStmts Token.unplaced p₂.statements)
    (h : StatementsEnd settings n scope p₁.statements m v m₁) (hv : v.isSignal = false)
    (hfinish : Finishes settings v) :
    SameUpToPlaces (m.step (runProgram settings n scope p))
      (p₂.endAfter v.unwrap (m₁.step (runProgram settings n scope p₂))) := by
  obtain ⟨k, hk, hrun⟩ := step_runProgram_append hp h
  rw [hv, if_neg Bool.false_ne_true] at hrun
  rw [hrun]
  unfold Program.endAfter
  cases below with
  | nil =>
    have hss : p₂.statements = [] := by
      cases hstatements : p₂.statements with
      | nil => rfl
      | cons s ss => rw [hstatements] at hbelow; cases hbelow
    obtain ⟨k', hk', hend⟩ := hfinish k
    obtain ⟨k₂, hk₂, hend₂⟩ := step_runProgram_nil hss settings n scope m₁
    have hstay : statements settings n scope v [] >>= finish settings = finish settings v := pure_bind v _
    rw [if_pos hss, hstay, hend, hend₂]
    exact .of_sameState rfl (hk'.symm.trans (hk.symm.trans hk₂))
  | cons s ss =>
    have hss : p₂.statements ≠ [] := fun hnil => by rw [hnil] at hbelow; cases hbelow
    obtain ⟨k₂, hk₂, hrun₂⟩ := step_runProgram settings n scope p₂ m₁
    rw [if_neg hss, hrun₂]
    -- the first statement of the second part forgets the value before it
    have hfresh : statements settings n scope v (s :: ss) = statements settings n scope .null (s :: ss) := rfl
    obtain ⟨hend, hstate⟩ := statements_sameState (hk.symm.trans hk₂) .null (s :: ss)
    have hplaces := SameUpToPlaces.statements hbelow settings n scope k₂
    rw [hfresh]
    exact ((SameUpToPlaces.of_sameState hend hstate).trans hplaces).finished settings

/-- The run of `p` from `m` goes on as that of `p₂` from `m₁`, after the value `v₁`: one ends if and only if the
    other does, and they end alike. -/
structure GoesOn (settings : Settings) (scope : ScopeId) (p : Program) (m : Machine) (p₂ : Program)
    (v₁ : Value) (m₁ : Machine) : Prop where
  ends : (∃ r, EndsAs (fun n => runProgram settings n scope p) m r) ↔
    ∃ r₂, EndsAs (fun n => runProgram settings n scope p₂) m₁ r₂
  alike : ∀ r r₂, EndsAs (fun n => runProgram settings n scope p) m r →
    EndsAs (fun n => runProgram settings n scope p₂) m₁ r₂ → SameUpToPlaces r (p₂.endAfter v₁ r₂)

theorem endAfter_outOfFuel_iff (settings : Settings) (n : Nat) (scope : ScopeId) (p : Program) (v : Value)
    (m : Machine) : (p.endAfter v (m.step (runProgram settings n scope p))).1 = .error .outOfFuel ↔
      (m.step (runProgram settings n scope p)).1 = .error .outOfFuel := by
  unfold Program.endAfter
  by_cases hp : p.statements = []
  · obtain ⟨m', -, hrun⟩ := step_runProgram_nil hp settings n scope m
    rw [if_pos hp, hrun]
    exact iff_of_false nofun nofun
  · rw [if_neg hp]

/-- What holds at each fuel from a bound on holds of the ends. -/
theorem goesOn_of_step (bound : Nat) (h : ∀ n, bound ≤ n → SameUpToPlaces (m.step (runProgram settings n scope p))
    (p₂.endAfter v₁ (m₁.step (runProgram settings n scope p₂)))) : GoesOn settings scope p m p₂ v₁ m₁ := by
  refine ⟨⟨?_, ?_⟩, ?_⟩
  · rintro ⟨r, hend, b, hb⟩
    have hsame := h (max bound b) (Nat.le_max_left _ _)
    rw [hb _ (Nat.le_max_right _ _)] at hsame
    have hlast : (m₁.step (runProgram settings (max bound b) scope p₂)).1 ≠ .error .outOfFuel := by
      intro hcut
      exact hend (hsame.outOfFuel_iff.2 ((endAfter_outOfFuel_iff _ _ _ _ v₁ _).2 hcut))
    exact ⟨_, program_endsAs hlast⟩
  · rintro ⟨r₂, hend, b, hb⟩
    have hsame := h (max bound b) (Nat.le_max_left _ _)
    have hlast : (m.step (runProgram settings (max bound b) scope p)).1 ≠ .error .outOfFuel := by
      intro hcut
      rw [← hb _ (Nat.le_max_right bound b)] at hend
      exact hend ((endAfter_outOfFuel_iff _ _ _ _ v₁ _).1 (hsame.outOfFuel_iff.1 hcut))
    exact ⟨_, program_endsAs hlast⟩
  · rintro r r₂ ⟨-, b, hb⟩ ⟨-, b₂, hb₂⟩
    have hsame := h (max bound (max b b₂)) (by omega)
    rwa [hb _ (by omega), hb₂ _ (by omega)] at hsame

/-- The run of `p` from `m` stops where `v₁` and the state of `m₁` were left. -/
def StopsWith (settings : Settings) (scope : ScopeId) (p : Program) (m : Machine) (v₁ : Value)
    (m₁ : Machine) : Prop :=
  ∃ m', m₁.SameState m' ∧ EndsAs (fun n => runProgram settings n scope p) m (.ok v₁, m')

theorem stopsWith_of_step {m' : Machine} (hm : m₁.SameState m')
    (h : m.step (runProgram settings n scope p) = (.ok v₁, m')) : StopsWith settings scope p m v₁ m₁ := by
  have hend : (m.step (runProgram settings n scope p)).1 ≠ .error .outOfFuel := by
    rw [h]
    exact nofun
  exact ⟨m', hm, h ▸ program_endsAs hend⟩

/-- A program in two parts is cut off where the first is. -/
theorem step_append_of_cut {below : List Stmt} (hp : p.statements = p₁.statements ++ below)
    (hcut : (m.step (runProgram settings n scope p₁)).1 = .error .outOfFuel) :
    (m.step (runProgram settings n scope p)).1 = .error .outOfFuel := by
  obtain ⟨k₁, hk₁, hrun₁⟩ := step_runProgram settings n scope p₁ m
  obtain ⟨k, hk, hrun⟩ := step_runProgram settings n scope p m
  rw [hrun₁] at hcut
  cases hstatements : k₁.step (statements settings n scope .null p₁.statements) with
  | mk last m' =>
    cases last with
    | ok v =>
      rw [step_bind hstatements] at hcut
      rcases step_finish settings v.unwrap.text with hgood | ⟨f, -, hbad⟩
      · obtain ⟨k', -, hend⟩ := hgood v m' rfl
        rw [hend] at hcut
        cases hcut
      · rw [hbad v m' rfl] at hcut
        cases hcut
    | error e =>
      obtain ⟨hend, -⟩ := statements_sameState (hk₁.symm.trans hk) .null p₁.statements
      have hlast : (k.step (statements settings n scope .null p₁.statements)).1 = .error e := by
        rw [← hend, hstatements]
      rw [step_bind_error hstatements] at hcut
      rw [hrun, hp, statements, inOrder_append _ rfl, bind_assoc, step_bind_error (Prod.ext hlast rfl)]
      exact hcut

theorem first_ends {below : List Stmt} (hp : p.statements = p₁.statements ++ below)
    {r : Except Halt Value × Machine} (h : EndsAs (fun n => runProgram settings n scope p) m r) :
    ∃ r₁, EndsAs (fun n => runProgram settings n scope p₁) m r₁ := by
  obtain ⟨hend, bound, hbound⟩ := h
  have hlast : (m.step (runProgram settings bound scope p₁)).1 ≠ .error .outOfFuel := by
    intro hcut
    rw [← hbound bound (Nat.le_refl _)] at hend
    exact hend (step_append_of_cut hp hcut)
  exact ⟨_, program_endsAs hlast⟩

end Sequence

theorem isSignal_of_isError_unwrap {v : Value} (h : v.unwrap.isError = true) : v.isSignal = true := by
  cases v with
  | returned u => rfl
  | error e => rfl
  | _ => cases h

/-- Two sources that are read without a diagnostic are read so when one stands below the other: as the
    statements of the first and then those of the second, which stand lower by the lines of the first.

    In every state both end only if the first does.  Where it comes to a value, they do what the second does
    from the state that it leaves, unless the value is an error, which ends both with that state.  Only a name
    that holds a `return` ends them so as well; where no such name can be reached they go on. -/
theorem run_append {s₁ s₂ : String} {p₁ p₂ : Program} (h₁ : parse s₁ = .ok ⟨p₁, []⟩)
    (h₂ : parse s₂ = .ok ⟨p₂, []⟩) :
    ∃ p, parse (s₁ ++ "\n" ++ s₂) = .ok ⟨p, []⟩ ∧
      p.statements = p₁.statements ++ p₂.statements.map (Stmt.down (linesOf s₁)) ∧
      ∀ settings scope m,
        ((∃ r, EndsAs (fun n => runProgram settings n scope p) m r) →
          ∃ r₁, EndsAs (fun n => runProgram settings n scope p₁) m r₁) ∧
        ∀ v₁ m₁, EndsAs (fun n => runProgram settings n scope p₁) m (.ok v₁, m₁) →
          (v₁.isError = true → StopsWith settings scope p m v₁ m₁) ∧
          (v₁.isError = false →
            (GoesOn settings scope p m p₂ v₁ m₁ ∨ StopsWith settings scope p m v₁ m₁) ∧
            ∀ P, m.heap.Sound P → P scope → m.heap.ReturnFree P → GoesOn settings scope p m p₂ v₁ m₁) := by
  obtain ⟨p, hparse, hp⟩ := parse_append h₁ h₂
  refine ⟨p, hparse, hp, ?_⟩
  intro settings scope m
  refine ⟨fun ⟨r, hr⟩ => first_ends hp hr, ?_⟩
  rintro v₁ m₁ ⟨-, bound, hbound⟩
  have hbelow := retokenStmts_unplaced_down (linesOf s₁) p₂.statements
  -- at each fuel the value of the first statements, which may be the `return` that `v₁` was wrapped in
  choose v hv hfinish hstatements using fun n (hn : bound ≤ n) => exists_of_runProgram (hbound n hn)
  have hstops {n : Nat} (hn : bound ≤ n) (hsignal : (v n hn).isSignal = true) :
      StopsWith settings scope p m v₁ m₁ := by
    obtain ⟨m', hm', hstep⟩ := step_append_of_signal hp (hstatements n hn) hsignal (hfinish n hn)
    exact stopsWith_of_step hm' (hv n hn ▸ hstep)
  have hgoesOn (hplain : ∀ n hn, (v n hn).isSignal = false) : GoesOn settings scope p m p₂ v₁ m₁ := by
    refine goesOn_of_step bound fun n hn => ?_
    rw [← hv n hn]
    exact step_append_of_not_signal hp hbelow (hstatements n hn) (hplain n hn) (hfinish n hn)
  constructor
  · intro herror
    rw [← hv bound (Nat.le_refl _)] at herror
    exact hstops (Nat.le_refl _) (isSignal_of_isError_unwrap herror)
  · intro hvalue
    constructor
    · -- a signal at one fuel settles the end, so there is no need to compare the values at two
      by_cases hsignal : ∃ n hn, (v n hn).isSignal = true
      · obtain ⟨n, hn, hsignal⟩ := hsignal
        exact Or.inr (hstops hn hsignal)
      · exact Or.inl (hgoesOn fun n hn => Bool.eq_false_iff.2 fun h => hsignal ⟨n, hn, h⟩)
    · intro P hsound hscope hfree
      obtain ⟨ts, z, -, -, hspell⟩ := spells_of_parse h₁
      refine hgoesOn fun n hn => ?_
      exact (hstatements n hn).isSignal_eq_false hsound hscope hfree hspell.wellFormedAll (hv n hn ▸ hvalue)

/-- A run that comes to a value within some fuel ends with it. -/
theorem program_endsAs_of_value {m : Machine} {settings : Settings} {fuel : Nat} {scope : ScopeId} {p : Program}
    {good : Value → Bool} (h : (m.step (runProgram settings fuel scope p)).1.toOption.any good = true) :
    ∃ v, good v = true ∧
      EndsAs (fun n => runProgram settings n scope p) m (.ok v, (m.step (runProgram settings fuel scope p)).2) := by
  cases hrun : m.step (runProgram settings fuel scope p) with
  | mk last m' =>
    cases last with
    | error e => rw [hrun] at h; cases h
    | ok v =>
      rw [hrun] at h
      have hend : (m.step (runProgram settings fuel scope p)).1 ≠ .error .outOfFuel := by
        rw [hrun]
        exact nofun
      exact ⟨v, h, hrun ▸ program_endsAs hend⟩

/-- A source that is read without a diagnostic, and a test of its program. -/
theorem exists_of_parse (source : String) (good : Program → Bool)
    (h : (parse source).toOption.any (fun q => q.diagnostics.isEmpty && good q.program) = true) :
    ∃ p, parse source = .ok ⟨p, []⟩ ∧ good p = true := by
  cases hparse : parse source with
  | error e => rw [hparse] at h; cases h
  | ok q =>
    obtain ⟨p, ds⟩ := q
    rw [hparse] at h
    obtain ⟨hds, hgood⟩ := (Bool.and_eq_true _ _).mp h
    obtain rfl := List.isEmpty_iff.1 hds
    exact ⟨p, rfl, hgood⟩

/-- The second source makes a function, which keeps its place in the source, and calls that of the first. -/
theorem run_append_functions :
    let s₁ := "var x = 1;\nfn f(): int \x7b x = x + 1; return x; \x7d"
    let s₂ := "fn g(): int \x7b return f() + x; \x7d\ndisplay(g());"
    let m := Machine.fresh
    m.heap.Sound (· = 0) ∧ m.heap.ReturnFree (· = 0) ∧
    ∃ p₁ p₂ p v₁ m₁ r r₂, parse s₁ = .ok ⟨p₁, []⟩ ∧ parse s₂ = .ok ⟨p₂, []⟩ ∧
      parse (s₁ ++ "\n" ++ s₂) = .ok ⟨p, []⟩ ∧ v₁.isError = false ∧
      EndsAs (fun n => runProgram {} n 0 p₁) m (.ok v₁, m₁) ∧
      EndsAs (fun n => runProgram {} n 0 p) m r ∧ EndsAs (fun n => runProgram {} n 0 p₂) m₁ r₂ ∧
      SameUpToPlaces r (p₂.endAfter v₁ r₂) ∧ r.2.output = "4\n" := by
  intro s₁ s₂ m
  have hfree : m.heap.ReturnFree (· = 0) := by
    rintro _ rfl name b hb
    cases hb
  obtain ⟨p₁, h₁, hrun₁⟩ := exists_of_parse s₁
    (fun q => (m.step (runProgram {} 30 0 q)).1.toOption.any (!·.isError)) (by decide +kernel)
  obtain ⟨p₂, h₂, -⟩ := exists_of_parse s₂ (fun _ => true) (by decide +kernel)
  obtain ⟨p, hparse, hp, halike⟩ := run_append h₁ h₂
  obtain ⟨v₁, hv₁, hends₁⟩ := program_endsAs_of_value hrun₁
  have hvalue : v₁.isError = false := Bool.not_eq_true' _ ▸ hv₁
  have hgoesOn := (((halike {} 0 m).2 v₁ _ hends₁).2 hvalue).2 (· = 0) sound_root rfl hfree
  obtain ⟨q, hq, hrun⟩ := exists_of_parse (s₁ ++ "\n" ++ s₂)
    (fun q => (m.step (runProgram {} 30 0 q)).1.toOption.any (fun _ => true) &&
      (m.step (runProgram {} 30 0 q)).2.output == "4\n") (by decide +kernel)
  obtain rfl : p = q := congrArg Parsed.program (Except.ok.inj (hparse.symm.trans hq))
  obtain ⟨hlast, houtput⟩ := (Bool.and_eq_true _ _).mp hrun
  obtain ⟨v, -, hends⟩ := program_endsAs_of_value hlast
  obtain ⟨r₂, hends₂⟩ := hgoesOn.ends.1 ⟨_, hends⟩
  exact ⟨sound_root, hfree, p₁, p₂, p, v₁, _, _, r₂, h₁, h₂, hparse, hvalue, hends₁, hends, hends₂,
    hgoesOn.alike _ _ hends hends₂, beq_iff_eq.1 houtput⟩

/-- Where `x` holds a `return`, `x;` alone drops it and `display(2);` is run after it; above that statement it
    ends the program. -/
theorem run_append_stops_at_return :
    let m : Machine := ⟨(Machine.fresh.heap.define 0 "x" (.returned (.int 1)) false).2, "", #[]⟩
    m.heap.Sound (· = 0) ∧
    ∃ p₁ p₂ p v₁ m₁ r r₂, parse "x;" = .ok ⟨p₁, []⟩ ∧ parse "display(2);" = .ok ⟨p₂, []⟩ ∧
      parse ("x;" ++ "\n" ++ "display(2);") = .ok ⟨p, []⟩ ∧ v₁.isError = false ∧
      EndsAs (fun n => runProgram {} n 0 p₁) m (.ok v₁, m₁) ∧
      EndsAs (fun n => runProgram {} n 0 p) m r ∧ EndsAs (fun n => runProgram {} n 0 p₂) m₁ r₂ ∧
      r.2.output = "" ∧ r₂.2.output = "2\n" ∧ ¬ SameUpToPlaces r (p₂.endAfter v₁ r₂) := by
  intro m
  let ends (k : Machine) (q : Program) : Bool := (k.step (runProgram {} 30 0 q)).1.toOption.any (!·.isError)
  let leaves (k : Machine) (q : Program) : Machine := (k.step (runProgram {} 30 0 q)).2
  obtain ⟨p₁, h₁, htests⟩ := exists_of_parse "x;"
    (fun q₁ => ends m q₁ && (parse "display(2);").toOption.any fun q => q.diagnostics.isEmpty &&
      (ends (leaves m q₁) q.program && (leaves (leaves m q₁) q.program).output == "2\n")) (by decide +kernel)
  obtain ⟨hend₁, htests⟩ := (Bool.and_eq_true _ _).mp htests
  obtain ⟨p₂, h₂, htests⟩ := exists_of_parse "display(2);" (fun q => ends (leaves m p₁) q &&
    (leaves (leaves m p₁) q).output == "2\n") htests
  obtain ⟨hend₂, houtput₂⟩ := (Bool.and_eq_true _ _).mp htests
  obtain ⟨p, hp, htests⟩ := exists_of_parse ("x;" ++ "\n" ++ "display(2);")
    (fun q => ends m q && (leaves m q).output == "") (by decide +kernel)
  obtain ⟨hend, houtput⟩ := (Bool.and_eq_true _ _).mp htests
  obtain ⟨v₁, hv₁, hends₁⟩ := program_endsAs_of_value hend₁
  obtain ⟨v₂, -, hends₂⟩ := program_endsAs_of_value hend₂
  obtain ⟨v, -, hends⟩ := program_endsAs_of_value hend
  have hprints : (leaves m p).output = "" := beq_iff_eq.1 houtput
  have hprints₂ : (leaves (leaves m p₁) p₂).output = "2\n" := beq_iff_eq.1 houtput₂
  have hvalue : v₁.isError = false := Bool.not_eq_true' _ ▸ hv₁
  refine ⟨sound_variable "x" rfl, p₁, p₂, p, v₁, _, _, _, h₁, h₂, hp, hvalue, hends₁, hends, hends₂, hprints,
    hprints₂, fun hsame => ?_⟩
  have houtputs := hsame.output
  rw [Program.endAfter_snd] at houtputs
  exact absurd (hprints.symm.trans (houtputs.trans hprints₂)) (by decide)

end ScriptLang
