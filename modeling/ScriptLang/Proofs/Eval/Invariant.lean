import ScriptLang.Session
import ScriptLang.Proofs.Eval.Correspondence

/-!
  A run and itself.

  Where both runs start from one machine, they correspond as long as it stays one machine.  What is left
  of a correspondence then is a property of heaps that the operations on scopes keep: an `Invariant`.
  Every run keeps it, in whatever way it ends.

  With two bounds and a property that always holds this says that a run that is not cut off does the
  same with any larger bound.
-/

namespace ScriptLang

variable {α : Type} {Own : ScopeId → Prop}

/-- Scopes and functions belong to themselves; declarations are made in the scopes with a property. -/
def Matching.diagonal (Own : ScopeId → Prop) : Matching where
  owns a a' := a = a' ∧ Own a
  sees := Eq
  same := Eq
  owns_sees h := h.1
  owns_iff := by
    rintro a _ b _ ⟨rfl, -⟩ ⟨rfl, -⟩
    exact Iff.rfl
  same_iff := by
    rintro i _ j _ rfl rfl
    exact Iff.rfl

theorem Matching.alike_diagonal_iff {v v' : Value} : (diagonal Own).Alike v v' ↔ v = v' := by
  constructor
  · intro h
    induction h with
    | plain _ => rfl
    | function hid hscope =>
      cases hid
      cases hscope
      rfl
    | returned _ ih => rw [ih]
  · rintro rfl
    exact Alike.refl fun _ _ => ⟨rfl, rfl⟩

/-- A property of heaps with the facts about single operations that make every run keep it. -/
structure Invariant where
  Good : Heap → Prop
  /-- The scopes that declarations are made in. -/
  Own : ScopeId → Prop
  /-- The values that scopes may hold. -/
  Stored : Value → Prop
  stored_of_not_signal : ∀ {v}, v.isSignal = false → Stored v
  stored_returned : ∀ {v}, Stored (.returned v) → Stored v
  alloc : ∀ {h}, Good h → ∀ a, Good (h.alloc (some a)).2 ∧ Own h.scopes.size
  allocFunction : ∀ {h}, Good h → Good h.allocFunction.2
  define : ∀ {h a v}, Good h → Own a → Stored v → ∀ name constant, Good (h.define a name v constant).2
  assign : ∀ {h v}, Good h → Stored v → ∀ a name, Good (h.assign a name v).2
  get? : ∀ {h a name v}, Good h → h.get? a name = some v → Stored v

namespace Invariant

variable (I : Invariant) {m : Machine}

/-- Two runs that stay on one machine. -/
def correspondence : Correspondence where
  Heaps w h h' := w = .diagonal I.Own ∧ h = h' ∧ I.Good h
  Traces := Eq
  Stored := I.Stored
  stored_of_not_signal := I.stored_of_not_signal
  stored_returned := I.stored_returned
  push := Correspondence.push_eq
  alloc := by
    rintro _ h _ a _ ⟨rfl, rfl, hgood⟩ rfl
    obtain ⟨hgood', hown⟩ := I.alloc hgood a
    exact ⟨.diagonal I.Own, Matching.le_refl _, ⟨rfl, rfl, hgood'⟩, rfl, hown⟩
  allocFunction := by
    rintro _ h _ ⟨rfl, rfl, hgood⟩
    exact ⟨.diagonal I.Own, Matching.le_refl _, ⟨rfl, rfl, I.allocFunction hgood⟩, rfl⟩
  define := by
    rintro _ h _ a _ v v' ⟨rfl, rfl, hgood⟩ ⟨rfl, hown⟩ hv hstored name constant
    obtain rfl := Matching.alike_diagonal_iff.1 hv
    exact ⟨⟨rfl, rfl, I.define hgood hown hstored name constant⟩, Matching.alike_diagonal_iff.2 rfl⟩
  assign := by
    rintro _ h _ a _ v v' ⟨rfl, rfl, hgood⟩ rfl hv hstored name
    obtain rfl := Matching.alike_diagonal_iff.1 hv
    exact ⟨⟨rfl, rfl, I.assign hgood hstored a name⟩, Matching.alike_diagonal_iff.2 rfl⟩
  get? := by
    rintro _ h _ a _ ⟨rfl, rfl, hgood⟩ rfl name
    cases hget : h.get? a name with
    | none => exact .none
    | some v => exact .some ⟨Matching.alike_diagonal_iff.2 rfl, I.get? hgood hget⟩

/-- Values of an expression or a call: they may be stored or are errors. -/
def Answer (v : Value) : Prop := I.Stored v ∨ v.isError = true

variable {I}

theorem machines_eq {w : Matching} {m m' : Machine} (h : I.correspondence.Machines w m m') : m = m' := by
  obtain ⟨heap, output, trace⟩ := m
  obtain ⟨heap', output', trace'⟩ := m'
  obtain ⟨⟨-, hheap, -⟩, houtput, htrace⟩ := h
  cases hheap
  cases houtput
  cases htrace
  rfl

/-- A run that corresponds to itself keeps the invariant, and its value has what both values have. -/
theorem step_good {x : Eval α} {Q : Matching → α → α → Prop}
    (hx : I.correspondence.Related .neither (.diagonal I.Own) Q x x) (hgood : I.Good m.heap) :
    I.Good (m.step x).2.heap ∧ ∀ a, (m.step x).1 = .ok a → Q (.diagonal I.Own) a a := by
  -- the run is compared with itself, so both ends are one
  have hend := hx _ (Matching.le_refl _) m m ⟨⟨rfl, rfl, hgood⟩, rfl, rfl⟩
  unfold Machine.step
  cases hrun : x m with
  | ok b m' =>
    rw [hrun] at hend
    cases hend with
    | value _ hm hQ =>
      obtain ⟨rfl, -, hgood'⟩ := hm.heaps
      refine ⟨hgood', ?_⟩
      rintro a ⟨⟩
      exact hQ
  | error h m' =>
    rw [hrun] at hend
    refine ⟨?_, fun a ha => nomatch ha⟩
    cases hend with
    | halt _ hm => exact hm.heaps.2.2
    | firstCut hs | secondCut hs => cases hs

section Runs

variable (hgood : I.Good m.heap) (settings : Settings) (fuel : Nat)
include hgood

theorem expr_good (depth : Nat) (scope : ScopeId) (e : Expr) :
    I.Good (m.step (evalExpr settings fuel depth scope e)).2.heap ∧
      ∀ v, (m.step (evalExpr settings fuel depth scope e)).1 = .ok v → I.Answer v := by
  have hruns : I.correspondence.Runs .neither settings fuel fuel := Correspondence.runs_all _ settings rfl
  obtain ⟨hgood', hvalue⟩ := step_good (hruns.expr rfl depth e) hgood
  exact ⟨hgood', fun v hv => (hvalue v hv).2⟩

theorem stmt_good {scope : ScopeId} {s : Stmt} (hown : s.declared? ≠ none → I.Own scope) (depth : Nat) :
    I.Good (m.step (evalStmt settings fuel depth scope s)).2.heap ∧
      ∀ u, (m.step (evalStmt settings fuel depth scope s)).1 = .ok (.returned u) → I.Stored u := by
  have hruns : I.correspondence.Runs .neither settings fuel fuel := Correspondence.runs_all _ settings rfl
  have howns (hs : s.declared? ≠ none) : (Matching.diagonal I.Own).owns scope scope := ⟨rfl, hown hs⟩
  obtain ⟨hgood', hvalue⟩ := step_good (hruns.stmt s rfl howns depth) hgood
  exact ⟨hgood', fun u hu => (hvalue _ hu).2 u rfl⟩

theorem apply_good {vs : List Value} (hvs : ∀ v ∈ vs, I.Answer v) (depth : Nat) (f : Closure) :
    I.Good (m.step (applyFunction settings fuel depth f vs)).2.heap ∧
      ∀ v, (m.step (applyFunction settings fuel depth f vs)).1 = .ok v → I.Answer v := by
  have hruns : I.correspondence.Runs .neither settings fuel fuel := Correspondence.runs_all _ settings rfl
  have harguments : I.correspondence.Arguments (.diagonal I.Own) vs vs :=
    List.forall₂_same.2 fun v hv => ⟨Matching.alike_diagonal_iff.2 rfl, hvs v hv⟩
  obtain ⟨hgood', hvalue⟩ :=
    step_good (hruns.apply (Matching.alike_diagonal_iff.2 rfl) harguments depth) hgood
  exact ⟨hgood', fun v hv => (hvalue v hv).2⟩

theorem node_good {scope : ScopeId} (hown : I.Own scope) (node : Option Node) :
    I.Good (m.step (evalNode settings fuel scope node)).2.heap ∧
      ∀ u, (m.step (evalNode settings fuel scope node)).1 = .ok (.returned u) → I.Stored u := by
  have hfuel : Slack.neither.Allows fuel fuel := rfl
  have howns : (Matching.diagonal I.Own).owns scope scope := ⟨rfl, hown⟩
  obtain ⟨hgood', hvalue⟩ := step_good (Correspondence.node_yields hfuel howns node) hgood
  exact ⟨hgood', fun u hu => (hvalue _ hu).2 u rfl⟩

theorem runProgram_good {scope : ScopeId} (hown : I.Own scope) (p : Program) :
    I.Good (m.step (runProgram settings fuel scope p)).2.heap ∧
      ∀ v, (m.step (runProgram settings fuel scope p)).1 = .ok v → I.Answer v := by
  have hfuel : Slack.neither.Allows fuel fuel := rfl
  have howns : (Matching.diagonal I.Own).owns scope scope := ⟨rfl, hown⟩
  obtain ⟨hgood', hvalue⟩ := step_good (Correspondence.runProgram_answers hfuel howns p) hgood
  exact ⟨hgood', fun v hv => (hvalue v hv).2⟩

end Runs

end Invariant

/-! ## Larger bounds -/

/-- The run ends in this way with every bound from some bound on, so it is not cut off. -/
def EndsAs (run : Nat → Eval α) (m : Machine) (r : Except Halt α × Machine) : Prop :=
  r.1 ≠ .error .outOfFuel ∧ ∃ bound, ∀ fuel, bound ≤ fuel → m.step (run fuel) = r

theorem EndsAs.unique {run : Nat → Eval α} {m : Machine} {r r' : Except Halt α × Machine}
    (h : EndsAs run m r) (h' : EndsAs run m r') : r = r' := by
  obtain ⟨-, bound, hbound⟩ := h
  obtain ⟨-, bound', hbound'⟩ := h'
  rw [← hbound _ (Nat.le_max_left bound bound'), hbound' _ (Nat.le_max_right bound bound')]

/-- What holds of every heap. -/
def Invariant.always : Invariant where
  Good _ := True
  Own _ := True
  Stored _ := True
  stored_of_not_signal _ := trivial
  stored_returned _ := trivial
  alloc _ _ := ⟨trivial, trivial⟩
  allocFunction _ := trivial
  define _ _ _ _ _ := trivial
  assign _ _ _ _ := trivial
  get? _ _ := trivial

/-- Runs that correspond do the same, unless the run that may be cut off alone is. -/
theorem step_eq_of_yields {slack : Slack} {x y : Eval Value} {m : Machine}
    (hxy : Invariant.always.correspondence.Yields slack (.diagonal fun _ => True) x y)
    (hfirst : slack = .first → (m.step x).1 ≠ .error .outOfFuel)
    (hsecond : slack = .second → (m.step y).1 ≠ .error .outOfFuel) : m.step x = m.step y := by
  have hends := hxy _ (Matching.le_refl _) m m ⟨⟨rfl, rfl, trivial⟩, rfl, rfl⟩
  unfold Machine.step at hfirst hsecond ⊢
  generalize x m = r at hfirst hends ⊢
  generalize y m = r' at hsecond hends ⊢
  cases hends with
  | value _ hm hv =>
    obtain ⟨rfl, -⟩ := hm.heaps
    rw [Invariant.machines_eq hm, Matching.alike_diagonal_iff.1 hv.1]
  | halt _ hm => rw [Invariant.machines_eq hm]
  | firstCut hs => exact absurd rfl (hfirst hs)
  | secondCut hs => exact absurd rfl (hsecond hs)

/-- Of two runs of which the first may be cut off alone, the second does what the first did. -/
theorem step_eq_of_not_cut {x y : Eval Value} {m : Machine}
    (hxy : Invariant.always.correspondence.Yields .first (.diagonal fun _ => True) x y)
    (hend : (m.step x).1 ≠ .error .outOfFuel) : m.step y = m.step x :=
  (step_eq_of_yields hxy (fun _ => hend) nofun).symm

/-- A statement that is run to its end ends in the same way with any larger bound. -/
theorem stmt_endsAs {settings : Settings} {fuel depth : Nat} {scope : ScopeId} {s : Stmt} {m : Machine}
    (hend : (m.step (evalStmt settings fuel depth scope s)).1 ≠ .error .outOfFuel) :
    EndsAs (fun n => evalStmt settings n depth scope s) m (m.step (evalStmt settings fuel depth scope s)) := by
  refine ⟨hend, fuel, fun n hn => ?_⟩
  have hruns : Invariant.always.correspondence.Runs .first settings fuel n :=
    Correspondence.runs_all _ settings hn
  have howns (_ : s.declared? ≠ none) : (Matching.diagonal fun _ => True).owns scope scope := ⟨rfl, trivial⟩
  exact step_eq_of_not_cut (hruns.stmt s rfl howns depth) hend

/-- And so does a program. -/
theorem program_endsAs {settings : Settings} {fuel : Nat} {scope : ScopeId} {p : Program} {m : Machine}
    (hend : (m.step (runProgram settings fuel scope p)).1 ≠ .error .outOfFuel) :
    EndsAs (fun n => runProgram settings n scope p) m (m.step (runProgram settings fuel scope p)) := by
  refine ⟨hend, fuel, fun n hn => ?_⟩
  have hfuel : Slack.first.Allows fuel n := hn
  have howns : (Matching.diagonal fun _ => True).owns scope scope := ⟨rfl, trivial⟩
  exact step_eq_of_not_cut (Correspondence.runProgram_answers hfuel howns p).yields hend

end ScriptLang
