import ScriptLang.Session
import ScriptLang.Proofs.Eval.Discipline
import ScriptLang.Proofs.Scope.Growth

/-!
  Constants stay what they are.

  Growth of the heap is a discipline, so whatever is run only makes the heap grow.  A heap in which
  programs can be run stays one, and what `const` and `fn` declare keeps its value through every run
  after it, in whatever way that run ends.
-/

namespace ScriptLang

/-- Runs keep a heap closed and make it grow; they use the scopes that are there. -/
def growth : Discipline where
  Good := Heap.Closed
  Usable h id := id < h.scopes.size
  Change := Heap.Grows
  refl := Heap.Grows.refl
  trans := Heap.Grows.trans
  usable_mono hgrows hid := Nat.lt_of_lt_of_le hid hgrows.size_le
  alloc hclosed hid := by
    refine ⟨hclosed.alloc hid, .alloc hid, ?_⟩
    rw [Heap.size_alloc]
    exact Nat.lt_succ_self _
  allocFunction {h} hclosed := ⟨⟨hclosed.outer, hclosed.closures⟩,
    ⟨Nat.le_refl _, (Heap.Grows.refl h).outer, (Heap.Grows.refl h).made, (Heap.Grows.refl h).bindings⟩⟩
  define hclosed _ hv name constant := ⟨hclosed.define hv constant, .define ..⟩
  assign hclosed _ hv name := ⟨hclosed.assign hv, .assign ..⟩
  get? hclosed _ hget := by
    obtain ⟨owner, b, hb, rfl⟩ := Heap.get?_some hget
    exact hclosed.closures hb

/-- Programs can be run in the scope: it is there, and so is every scope that the heap mentions, and
    the chains of outer scopes are well founded. -/
structure Heap.Ready (h : Heap) (scope : ScopeId) : Prop where
  closed : h.Closed
  founded : h.Founded
  scope_lt : scope < h.scopes.size

theorem Heap.Grows.ready {h h' : Heap} {scope : ScopeId} (hgrows : h.Grows h') (hclosed : h'.Closed)
    (hready : h.Ready scope) : h'.Ready scope :=
  ⟨hclosed, hgrows.founded hready.closed hready.founded,
    Nat.lt_of_lt_of_le hready.scope_lt hgrows.size_le⟩

theorem Heap.Grows.constant {h h' : Heap} {id : ScopeId} {name : String} {v : Value}
    (hgrows : h.Grows h') (hb : h.binding? id name = some ⟨v, true⟩) :
    h'.binding? id name = some ⟨v, true⟩ := by
  obtain ⟨b, hb', -, hsame⟩ := hgrows.bindings hb
  rw [hb', hsame rfl]

/-! ## Single runs -/

section Single

variable {m m' : Machine} {scope : ScopeId} {x : Eval Value} {v : Value}

theorem growth_ok (hx : growth.Yields m.heap x) (hclosed : m.heap.Closed) (hrun : x m = .ok v m') :
    m'.heap.Closed ∧ m.heap.Grows m'.heap ∧ growth.Holds m'.heap v := by
  have hend := hx m hclosed (.refl _)
  rw [hrun] at hend
  exact hend

theorem step_grows (hx : growth.Yields m.heap x) (hready : m.heap.Ready scope) :
    m.heap.Grows (m.step x).2.heap ∧ (m.step x).2.heap.Ready scope := by
  have hend := hx m hready.closed (.refl _)
  unfold Machine.step
  cases hrun : x m with
  | ok v m' =>
    rw [hrun] at hend
    exact ⟨hend.2.1, hend.2.1.ready hend.1 hready⟩
  | error e m' =>
    rw [hrun] at hend
    exact ⟨hend.2, hend.2.ready hend.1 hready⟩

theorem runProgram_grows (settings : Settings) (p : Program) (hready : m.heap.Ready scope) :
    m.heap.Grows (m.runProgram settings scope p).2.heap ∧
      (m.runProgram settings scope p).2.heap.Ready scope := by
  have hstep : m.heap.Grows (m.step (runProgram settings ampleFuel scope p)).2.heap ∧
      (m.step (runProgram settings ampleFuel scope p)).2.heap.Ready scope :=
    step_grows (Discipline.runProgram_yields hready.scope_lt p) hready
  unfold Machine.runProgram
  split
  · rename_i heq
    rwa [heq] at hstep
  · rename_i heq
    rwa [heq] at hstep

theorem runSource_grows (settings : Settings) (source : String) (hready : m.heap.Ready scope) :
    m.heap.Grows (m.runSource settings scope source).2.heap ∧
      (m.runSource settings scope source).2.heap.Ready scope := by
  unfold Machine.runSource
  split
  · exact ⟨.refl _, hready⟩
  split
  · exact runProgram_grows settings _ hready
  · exact ⟨.refl _, hready⟩

end Single

/-! ## Sessions -/

/-- Runs source texts one after another in a scope, each with its settings. -/
def Machine.runAll (m : Machine) (scope : ScopeId) (sources : List (Settings × String)) : Machine :=
  sources.foldl (fun m s => (m.runSource s.1 scope s.2).2) m

theorem runAll_grows {m : Machine} {scope : ScopeId} (sources : List (Settings × String))
    (hready : m.heap.Ready scope) :
    m.heap.Grows (m.runAll scope sources).heap ∧ (m.runAll scope sources).heap.Ready scope := by
  induction sources generalizing m with
  | nil => exact ⟨.refl _, hready⟩
  | cons s sources ih =>
    obtain ⟨hgrows, hready'⟩ := runSource_grows s.1 s.2 hready
    obtain ⟨hgrows', hready''⟩ := ih hready'
    exact ⟨hgrows.trans hgrows', hready''⟩

/-! ## What declares a constant -/

/-- The name that a statement declares as a constant. -/
def Stmt.constantName? : Stmt → Option String
  | .const _ name _ _ => some name.text
  | .function _ name _ _ _ => some name.text
  | _ => none

section Declared

variable {m m' : Machine} {scope : ScopeId} {name : String} {v : Value} {settings : Settings}

theorem unlessError_null {x : Eval Value} {next : Value → Eval Value}
    (hrun : Rule.unlessError x next m = .ok .null m') :
    ∃ v m₁, x m = .ok v m₁ ∧ (∀ e, v ≠ .error e) ∧ next v m₁ = .ok .null m' := by
  change EStateM.bind x _ m = _ at hrun
  unfold EStateM.bind at hrun
  cases hx : x m with
  | error e m₁ =>
    rw [hx] at hrun
    cases hrun
  | ok v m₁ =>
    rw [hx] at hrun
    cases v with
    | error e => cases hrun
    | int n | float x | bool b | str s | null | function f | returned w =>
      exact ⟨_, m₁, rfl, nofun, hrun⟩

/-- A declaration that is not refused binds the name, and what comes after it keeps the constant. -/
theorem define_constant {rest : Value → Eval Value} (hclosed : m.heap.Closed)
    (hscope : scope < m.heap.scopes.size) (hv : growth.Holds m.heap v)
    (hrest : ∀ h w, growth.Yields h (rest w))
    (hrun : Rule.unlessError (Eval.define scope name v true) rest m = .ok .null m') :
    ∃ v, m'.heap.binding? scope name = some ⟨v, true⟩ := by
  obtain ⟨w, m₁, hdefine, hne, hrest'⟩ := unlessError_null hrun
  obtain ⟨hclosed₁, -, -⟩ :=
    growth_ok (Discipline.define_keeps hscope hv name true) hclosed hdefine
  have hbound : m₁.heap.binding? scope name = some ⟨v, true⟩ := by
    cases hdefine
    rcases m.heap.define_cases scope name v true with ⟨-, heq⟩ | ⟨hnew, -⟩
    · exact absurd (congrArg Prod.fst heq) (hne _)
    · exact Heap.binding?_define_self hscope hnew
  obtain ⟨-, hgrows, -⟩ := growth_ok (hrest m₁.heap w) hclosed₁ hrest'
  exact ⟨v, hgrows.constant hbound⟩

/-- A statement that declares a constant and ends without an error has bound it as one. -/
theorem stmt_constant {fuel depth : Nat} {s : Stmt} (hclosed : m.heap.Closed)
    (hscope : scope < m.heap.scopes.size) (hname : s.constantName? = some name)
    (hrun : evalStmt settings fuel depth scope s m = .ok .null m') :
    ∃ v, m'.heap.binding? scope name = some ⟨v, true⟩ := by
  have hnote (event : Unit → Except Fault TraceEvent) (h : Heap) :
      growth.Yields h (Eval.note settings 2 event >>= fun _ => pure .null) :=
    (Discipline.note_keeps settings 2 event).bind fun _ _ _ _ => Discipline.yields_plain rfl
  cases fuel with
  | zero => cases hrun
  | succ fuel =>
    cases s with
    | const t n d value =>
      cases hname
      obtain ⟨v, m₁, hvalue, -, hdefine⟩ := unlessError_null hrun
      obtain ⟨hclosed₁, hgrows, hv⟩ :=
        growth_ok ((Discipline.runs_all growth settings fuel).expr hscope depth value) hclosed hvalue
      exact define_constant hclosed₁ (Nat.lt_of_lt_of_le hscope hgrows.size_le) hv
        (fun h _ => hnote _ h) hdefine
    | function t n ps r body =>
      cases hname
      -- A function is numbered before it is declared, which leaves the scopes as they are.
      obtain ⟨heap, output, trace⟩ := m
      have hclosed₁ : heap.allocFunction.2.Closed := (growth.allocFunction hclosed).1
      have hv : growth.Holds heap.allocFunction.2
          (.function ⟨heap.functions, some n.text, ps, r, body, scope⟩) := by
        rintro f ⟨⟩
        exact hscope
      exact define_constant (m := ⟨heap.allocFunction.2, output, trace⟩) hclosed₁ hscope hv
        (fun h _ => hnote _ h) hrun
    | var t n d e | ret t e | expr t e | display t es | block b | branch t e a b
    | whileLoop t e b | doLoop t b e | forLoop t i e u b => cases hname

end Declared

/-! ## The invariant of all runs -/

theorem ready_fresh : Machine.fresh.heap.Ready 0 where
  closed := by
    refine ⟨fun {id o} ho => ?_, fun {id name b} hb => ?_⟩
    · rw [Machine.fresh, Heap.outer?_alloc] at ho
      split at ho <;> cases ho
    · rw [Machine.fresh, Heap.binding?_alloc] at hb
      cases hb
  founded := by
    refine ⟨fun id => Acc.intro id fun o ho => ?_⟩
    rw [Machine.fresh, Heap.outer?_alloc] at ho
    split at ho <;> cases ho
  scope_lt := Nat.zero_lt_one

/-- Whatever node is run in a heap that is ready for it, and however that ends, the heap grows and
    stays ready; `const` and `fn` declare constants; and no session of programs changes or removes a
    constant, wherever it is bound. -/
theorem constants_outlive_runs {m : Machine} {scope : ScopeId} (hready : m.heap.Ready scope) :
    (∀ settings fuel node,
      m.heap.Grows (m.step (evalNode settings fuel scope node)).2.heap ∧
        (m.step (evalNode settings fuel scope node)).2.heap.Ready scope) ∧
    (∀ settings fuel s name m', s.constantName? = some name →
      evalNode settings fuel scope (some (.stmt s)) m = .ok .null m' →
      ∃ v, m'.heap.binding? scope name = some ⟨v, true⟩) ∧
    ∀ sources, m.heap.Grows (m.runAll scope sources).heap ∧ (m.runAll scope sources).heap.Ready scope ∧
      ∀ id name v, m.heap.binding? id name = some ⟨v, true⟩ →
        (m.runAll scope sources).heap.binding? id name = some ⟨v, true⟩ ∧
        (m.runAll scope sources).heap.get? id name = some v := by
  refine ⟨fun settings fuel node => ?_, fun settings fuel s name m' hname hrun => ?_, fun sources => ?_⟩
  · exact step_grows (Discipline.node_yields hready.scope_lt node) hready
  · exact stmt_constant hready.closed hready.scope_lt hname hrun
  · obtain ⟨hgrows, hready'⟩ := runAll_grows sources hready
    refine ⟨hgrows, hready', fun id name v hb => ?_⟩
    have hbound := hgrows.constant hb
    exact ⟨hbound, Heap.get?_of_binding? hbound⟩

/-- A machine whose root scope has a constant. -/
def Machine.withConstant (name : String) (v : Value) : Machine :=
  ⟨(Machine.fresh.heap.define 0 name v true).2, "", #[]⟩

theorem constants_outlive_runs_limit :
    (Machine.withConstant "limit" (.int 10)).heap.Ready 0 ∧
    ((Machine.withConstant "limit" (.int 10)).runAll 0
      [({}, "limit = 11;"), ({}, "fn f(): int \x7b return limit++; \x7d f();"),
        ({}, "var limit: int = 12;")]).heap.get? 0 "limit" = some (.int 10) := by
  have hvalue : ∀ f ∈ (Value.int 10).closure?, f.scope < Machine.fresh.heap.scopes.size :=
    fun f hf => nomatch hf
  have hclosed : (Machine.withConstant "limit" (.int 10)).heap.Closed :=
    ready_fresh.closed.define hvalue true
  have hready : (Machine.withConstant "limit" (.int 10)).heap.Ready 0 :=
    (Heap.Grows.define ..).ready hclosed ready_fresh
  have hbound : (Machine.withConstant "limit" (.int 10)).heap.binding? 0 "limit" =
      some ⟨.int 10, true⟩ := Heap.binding?_define_self ready_fresh.scope_lt rfl
  exact ⟨hready, (((constants_outlive_runs hready).2.2 _).2.2 0 "limit" (.int 10) hbound).2⟩

end ScriptLang
