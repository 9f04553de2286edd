import ScriptLang.Proofs.Eval.Invariant
import ScriptLang.Proofs.Parse.Grammar
import ScriptLang.Proofs.Scope.Names

/-!
  Declarations stay where they are made.

  Every construct with statements inside opens a scope for them, and every call does.  So a run leaves
  the names of the scopes that were there before it alone, whatever it calls and whatever is declared
  meanwhile; a declaration itself adds its own name to the scope it is run in; and a program adds the
  names of the declarations that it gets through.

  With a detailed trace it can add one more.  A declaration is made before its line of the trace, so a
  fault in that line halts the program too late to keep the name out.
-/

namespace ScriptLang

/-! ## What declares a name -/

/-- The name of a declaration. -/
def Stmt.declaration? : Stmt → Option String
  | .var _ name _ _ | .const _ name _ _ | .function _ name _ _ _ => some name.text
  | _ => none

/-- What stands after `else` is no declaration; in a source it is a block or another branch. -/
def Stmt.ElseShaped : Stmt → Prop
  | .branch _ _ _ (some s) => s.declaration? = none ∧ s.ElseShaped
  | _ => True

/-- A branch runs what stands after `else` in its own scope, so it could declare a name there only if
    that were a declaration. -/
theorem Stmt.declared?_eq : ∀ {s : Stmt}, s.ElseShaped → s.declared? = s.declaration?
  | .branch _ _ _ (some _), h => (declared?_eq h.2).trans h.1
  | .branch _ _ _ none, _ | .var .., _ | .const .., _ | .function .., _ | .ret .., _ | .expr .., _
  | .display .., _ | .block _, _ | .whileLoop .., _ | .doLoop .., _ | .forLoop .., _ => rfl

theorem Stmt.elseShaped_of_declaration? {s : Stmt} {name : String} (h : s.declaration? = some name) :
    s.ElseShaped := by
  cases s with
  | branch t e a b => cases h
  | var | const | function | ret | expr | display | block | whileLoop | doLoop | forLoop => trivial

theorem Spells.branch_elseShaped {ph : Phrase} {us : List Token} (h : Spells ph us) :
    ∀ f s, ph = .branch f s → s.declaration? = Option.none ∧ s.ElseShaped := by
  induction h with
  | branchOnly =>
    rintro f s ⟨⟩
    exact ⟨rfl, trivial⟩
  | branchElse =>
    rintro f s ⟨⟩
    exact ⟨rfl, rfl, trivial⟩
  | branchChain _ _ _ _ _ _ _ _ _ ih =>
    rintro f s ⟨⟩
    exact ⟨rfl, ih _ _ rfl⟩
  | _ => exact fun f s h => nomatch h

theorem Spells.elseShaped {f : Bool} {s : Stmt} {us : List Token} (h : Spells (.statement f s) us) :
    s.ElseShaped := by
  cases h with
  | branch h => exact (h.branch_elseShaped _ _ rfl).2
  | var h => cases h <;> trivial
  | _ => trivial

/-! ## What a scope gets -/

/-- The scope gets new names, in this order, each once; all other old scopes keep theirs. -/
structure Heap.Gets (h h' : Heap) (scope : ScopeId) (ns : List String) : Prop where
  size_le : h.scopes.size ≤ h'.scopes.size
  names : h'.names scope = ns.reverse ++ h.names scope
  nodup : ns.Nodup
  fresh : ∀ n ∈ ns, n ∉ h.names scope
  others : ∀ id, id < h.scopes.size → id ≠ scope → h'.names id = h.names id

variable {h h₁ h₂ : Heap} {scope : ScopeId} {settings : Settings} {fuel depth : Nat} {m : Machine}

theorem Heap.NamesKept.gets (hkept : h.NamesKept h₁) (hscope : scope < h.scopes.size) :
    h.Gets h₁ scope [] where
  size_le := hkept.size_le
  names := hkept.names scope hscope
  nodup := List.nodup_nil
  fresh _ hn := nomatch hn
  others id hid _ := hkept.names id hid

theorem Heap.Gets.trans {ns ns' : List String} (hgets : h.Gets h₁ scope ns)
    (hgets' : h₁.Gets h₂ scope ns') : h.Gets h₂ scope (ns ++ ns') where
  size_le := Nat.le_trans hgets.size_le hgets'.size_le
  names := by rw [hgets'.names, hgets.names, List.reverse_append, List.append_assoc]
  nodup := by
    refine List.nodup_append.2 ⟨hgets.nodup, hgets'.nodup, ?_⟩
    rintro n hn _ hn' rfl
    refine hgets'.fresh n hn' ?_
    rw [hgets.names]
    exact List.mem_append_left _ (List.mem_reverse.2 hn)
  fresh := by
    intro n hn
    rcases List.mem_append.1 hn with hn | hn
    · exact hgets.fresh n hn
    · intro hold
      refine hgets'.fresh n hn ?_
      rw [hgets.names]
      exact List.mem_append_right _ hold
  others id hid hne := by
    rw [hgets'.others id (Nat.lt_of_lt_of_le hid hgets.size_le) hne, hgets.others id hid hne]

theorem Heap.gets_define {name : String} {v : Value} {constant : Bool} (hscope : scope < h.scopes.size)
    (hnew : name ∉ h.names scope) : h.Gets (h.define scope name v constant).2 scope [name] where
  size_le := Nat.le_of_eq (size_define constant).symm
  names := names_define_new constant hscope hnew
  nodup := List.pairwise_singleton _ name
  fresh n hn := by
    rw [List.mem_singleton.1 hn]
    exact hnew
  others id _ hne := names_define_ne constant hne

/-! ## Runs that declare nothing -/

/-- Runs keep the names of the scopes that were there at the start. -/
def namesKept (h : Heap) : Invariant where
  Good := h.NamesKept
  Own id := h.scopes.size ≤ id
  Stored _ := True
  stored_of_not_signal _ := trivial
  stored_returned _ := trivial
  alloc hkept a := ⟨hkept.alloc (some a), hkept.size_le⟩
  allocFunction hkept := ⟨hkept.size_le, hkept.names⟩
  define hkept hown _ name constant := hkept.define hown name _ constant
  assign hkept _ a name := hkept.assign a name _
  get? _ _ := trivial

theorem expr_namesKept (settings : Settings) (fuel depth : Nat) (scope : ScopeId) (e : Expr) (m : Machine) :
    m.heap.NamesKept (m.step (evalExpr settings fuel depth scope e)).2.heap := by
  have hgood : (namesKept m.heap).Good m.heap := .refl _
  exact (Invariant.expr_good hgood settings fuel depth scope e).1

theorem stmt_namesKept {s : Stmt} (hs : s.declared? = none) (settings : Settings) (fuel depth : Nat)
    (scope : ScopeId) (m : Machine) :
    m.heap.NamesKept (m.step (evalStmt settings fuel depth scope s)).2.heap := by
  have hgood : (namesKept m.heap).Good m.heap := .refl _
  exact (Invariant.stmt_good hgood settings fuel (fun hdeclares => absurd hs hdeclares) depth).1

/-! ## Declarations -/

/-- What a scope gets from a statement that may declare a name, by how it ends.  It comes `late` if the
    declaration was made and only its line of the trace failed. -/
inductive Adds (settings : Settings) (h h' : Heap) (scope : ScopeId) (name? : Option String) :
    Except Halt Value → Prop
  | done {v : Value} : v.isSignal = false → h.Gets h' scope name?.toList →
      Adds settings h h' scope name? (.ok v)
  | stopped {v : Value} : v.isSignal = true → h.Gets h' scope [] → Adds settings h h' scope name? (.ok v)
  | halted {e : Halt} : h.Gets h' scope [] → Adds settings h h' scope name? (.error e)
  | late {e : Halt} {name : String} : 2 ≤ settings.traceLevel → name? = some name →
      h.Gets h' scope [name] → Adds settings h h' scope name? (.error e)

theorem Adds.after {name? : Option String} {r : Except Halt Value} (hgets : h.Gets h₁ scope [])
    (hadds : Adds settings h₁ h₂ scope name? r) : Adds settings h h₂ scope name? r := by
  cases hadds with
  | done hv hgets' => exact .done hv (hgets.trans hgets')
  | stopped hv hgets' => exact .stopped hv (hgets.trans hgets')
  | halted hgets' => exact .halted (hgets.trans hgets')
  | late htrace hname hgets' => exact .late htrace hname (hgets.trans hgets')

/-- A declaration adds its name or nothing. -/
theorem Adds.gets {name : String} {r : Except Halt Value} (hadds : Adds settings h h₁ scope (some name) r) :
    h.Gets h₁ scope [] ∨ h.Gets h₁ scope [name] := by
  cases hadds with
  | done _ hgets => exact Or.inr hgets
  | stopped _ hgets | halted hgets => exact Or.inl hgets
  | late _ hname hgets =>
    cases hname
    exact Or.inr hgets

theorem Value.isSignal_of_isError {v : Value} (h : v.isError = true) : v.isSignal = true := by
  cases v with
  | error e => rfl
  | int n | float x | bool b | str s | null | function f | returned u => cases h

/-- Either the run stops with an error, or what comes next is run. -/
theorem step_unlessError (m : Machine) (x : Eval Value) (next : Value → Eval Value) :
    m.step (Rule.unlessError x next) = m.step x ∧ (∀ v, (m.step x).1 = .ok v → v.isError = true) ∨
    ∃ v, (m.step x).1 = .ok v ∧ v.isError = false ∧
      m.step (Rule.unlessError x next) = (m.step x).2.step (next v) := by
  have hrun : Rule.unlessError x next m = EStateM.bind x _ m := rfl
  unfold Machine.step
  rw [hrun]
  unfold EStateM.bind
  cases x m with
  | error e m' => exact Or.inl ⟨rfl, fun v hv => nomatch hv⟩
  | ok v m' =>
    cases v with
    | error e =>
      refine Or.inl ⟨rfl, ?_⟩
      rintro v ⟨⟩
      rfl
    | int n | float x | bool b | str s | null | function f | returned u => exact Or.inr ⟨_, rfl, rfl, rfl⟩

/-- A note leaves the heap alone, and it only fails if the trace is that detailed. -/
theorem step_note (m : Machine) (level : Nat) (event : Unit → Except Fault TraceEvent) :
    ∃ r m', m.step (Eval.note settings level event >>= fun _ => pure Value.null) = (r, m') ∧
      m'.heap = m.heap ∧ (r = .ok .null ∨ (level : Int) ≤ settings.traceLevel ∧ ∃ e, r = .error e) := by
  unfold Eval.note
  by_cases hlevel : (level : Int) ≤ settings.traceLevel
  · rw [if_pos hlevel]
    cases event () with
    | ok e => exact ⟨_, _, rfl, rfl, Or.inl rfl⟩
    | error f => exact ⟨_, _, rfl, rfl, Or.inr ⟨hlevel, _, rfl⟩⟩
  · rw [if_neg hlevel]
    exact ⟨_, _, rfl, rfl, Or.inl rfl⟩

/-- A name is declared, and then noted. -/
theorem define_adds {name : String} {v : Value} {constant : Bool} {event : Unit → Except Fault TraceEvent}
    {run : Eval Value} (hrun : run = Rule.unlessError (Eval.define scope name v constant) fun _ =>
      Eval.note settings 2 event >>= fun _ => pure .null)
    (hscope : scope < m.heap.scopes.size) (hv : v.isError = false) :
    Adds settings m.heap (m.step run).2.heap scope (some name) (m.step run).1 := by
  obtain ⟨heap, output, trace⟩ := m
  let m' : Machine := ⟨(heap.define scope name v constant).2, output, trace⟩
  have hdefine : Machine.step ⟨heap, output, trace⟩ (Eval.define scope name v constant) =
      (.ok (heap.define scope name v constant).1, m') := rfl
  subst hrun
  rcases heap.define_cases scope name v constant with ⟨-, heq⟩ | ⟨hnew, hvalue, -, -⟩
  · rcases step_unlessError _ _ _ with ⟨hstep, -⟩ | ⟨w, hw, hne, -⟩
    · rw [hstep, hdefine]
      show Adds settings heap (heap.define scope name v constant).2 _ _ (.ok (heap.define scope name v constant).1)
      rw [heq]
      exact .stopped rfl ((Heap.NamesKept.refl heap).gets hscope)
    · rw [hdefine, heq] at hw
      cases hw
      cases hne
  · have hgets : heap.Gets m'.heap scope [name] := Heap.gets_define hscope (Heap.binding?_eq_none.1 hnew)
    rcases step_unlessError _ _ _ with ⟨-, herror⟩ | ⟨w, hw, -, hstep⟩
    · rw [hdefine, hvalue] at herror
      have hv' := herror v rfl
      rw [hv] at hv'
      contradiction
    · rw [hstep, hdefine]
      obtain ⟨r, m'', hnote, hheap, hr⟩ := step_note m' 2 event
      rw [hnote, hheap]
      rcases hr with rfl | ⟨htrace, e, rfl⟩
      · exact .done rfl hgets
      · exact .late htrace rfl hgets

theorem declaration_adds {x : Eval Value} (kind : DeclarationKind) (name : String)
    (hscope : scope < m.heap.scopes.size) (hx : m.heap.NamesKept (m.step x).2.heap) :
    Adds settings m.heap (m.step (Rule.declaration settings kind scope name x)).2.heap scope (some name)
      (m.step (Rule.declaration settings kind scope name x)).1 := by
  have hgets := hx.gets hscope
  unfold Rule.declaration
  rcases step_unlessError m x _ with ⟨hstep, herror⟩ | ⟨v, -, hne, hstep⟩
  · rw [hstep]
    cases hvalue : (m.step x).1 with
    | error e => exact .halted hgets
    | ok v => exact .stopped (Value.isSignal_of_isError (herror v hvalue)) hgets
  · rw [hstep]
    have hscope' := Nat.lt_of_lt_of_le hscope hx.size_le
    exact (define_adds rfl hscope' hne).after hgets

theorem functionDeclaration_adds (name : String) (parameters : List Parameter) (returns : TypeName)
    (body : Block) (hscope : scope < m.heap.scopes.size) :
    let run := Rule.functionDeclaration settings scope name parameters returns body
    Adds settings m.heap (m.step run).2.heap scope (some name) (m.step run).1 := by
  -- the function is numbered first, which leaves the scopes as they are
  let m' : Machine := ⟨m.heap.allocFunction.2, m.output, m.trace⟩
  have hgets : m.heap.Gets m'.heap scope [] :=
    Heap.NamesKept.gets ⟨Nat.le_refl _, fun _ _ => rfl⟩ hscope
  exact (define_adds (m := m') rfl hscope rfl).after hgets

/-- Every statement with the shape of sources adds at most the name that it declares, to its scope. -/
theorem stmt_adds {s : Stmt} (hs : s.ElseShaped) (hscope : scope < m.heap.scopes.size) :
    Adds settings m.heap (m.step (evalStmt settings fuel depth scope s)).2.heap scope s.declaration?
      (m.step (evalStmt settings fuel depth scope s)).1 := by
  have hrefl : m.heap.Gets m.heap scope [] := (Heap.NamesKept.refl _).gets hscope
  cases hname : s.declaration? with
  | none =>
    have hkept := stmt_namesKept ((Stmt.declared?_eq hs).trans hname) settings fuel depth scope m
    cases hvalue : (m.step (evalStmt settings fuel depth scope s)).1 with
    | error e => exact .halted (hkept.gets hscope)
    | ok v =>
      cases hv : v.isSignal with
      | true => exact .stopped hv (hkept.gets hscope)
      | false => exact .done hv (hkept.gets hscope)
  | some name =>
    cases fuel with
    | zero => exact .halted hrefl
    | succ fuel =>
      cases s with
      | var t n d value =>
        cases hname
        cases value with
        | none => exact declaration_adds .var n.text hscope (.refl _)
        | some value =>
          exact declaration_adds .var n.text hscope (expr_namesKept settings fuel depth scope value m)
      | const t n d value =>
        cases hname
        exact declaration_adds .const n.text hscope (expr_namesKept settings fuel depth scope value m)
      | function t n ps r body =>
        cases hname
        exact functionDeclaration_adds n.text ps r body hscope
      | ret t e | expr t e | display t es | block b | branch t e a b | whileLoop t e b | doLoop t b e
      | forLoop t i e u b => cases hname

/-! ## Programs -/

/-- The statements that are run without a signal, up to the first one that is not. -/
def executed (run : Stmt → Eval Value) (m : Machine) : List Stmt → List Stmt
  | [] => []
  | s :: ss =>
    match m.step (run s) with
    | (.ok v, m') => if v.isSignal then [] else s :: executed run m' ss
    | (.error _, _) => []

/-- The first statement halts, or stops the others, or they are run after it. -/
theorem inOrder_cons_cases (run : Stmt → Eval Value) (last : Value) (s : Stmt) (ss : List Stmt) (m : Machine) :
    (∃ e m', m.step (run s) = (.error e, m') ∧ m.step (Rule.inOrder run last (s :: ss)) = (.error e, m') ∧
      executed run m (s :: ss) = []) ∨
    (∃ v m', m.step (run s) = (.ok v, m') ∧ v.isSignal = true ∧
      m.step (Rule.inOrder run last (s :: ss)) = (.ok v, m') ∧ executed run m (s :: ss) = []) ∨
    ∃ v m', m.step (run s) = (.ok v, m') ∧ v.isSignal = false ∧
      m.step (Rule.inOrder run last (s :: ss)) = m'.step (Rule.inOrder run v ss) ∧
      executed run m (s :: ss) = s :: executed run m' ss := by
  have hrun : Rule.inOrder run last (s :: ss) m = EStateM.bind (run s) _ m := rfl
  rw [executed]
  unfold Machine.step
  rw [hrun]
  unfold EStateM.bind
  cases run s m with
  | error e m' => exact Or.inl ⟨e, m', rfl, rfl, rfl⟩
  | ok v m' =>
    refine Or.inr ?_
    dsimp only
    cases hv : v.isSignal with
    | true => exact Or.inl ⟨v, m', rfl, hv, rfl, rfl⟩
    | false => exact Or.inr ⟨v, m', rfl, hv, rfl, rfl⟩

/-- What a scope gets from statements run one after another: the names of the declarations among those
    that are done, and one more if the trace of that declaration failed. -/
inductive AddsAll (settings : Settings) (h h' : Heap) (scope : ScopeId) (ss done : List Stmt) :
    Except Halt Value → Prop
  | exactly {r : Except Halt Value} : h.Gets h' scope (done.filterMap Stmt.declaration?) →
      AddsAll settings h h' scope ss done r
  | late {e : Halt} {s : Stmt} {name : String} : 2 ≤ settings.traceLevel → ss[done.length]? = some s →
      s.declaration? = some name → h.Gets h' scope (done.filterMap Stmt.declaration? ++ [name]) →
      AddsAll settings h h' scope ss done (.error e)

theorem AddsAll.cons {s : Stmt} {ss done : List Stmt} {r : Except Halt Value}
    (hgets : h.Gets h₁ scope s.declaration?.toList) (hadds : AddsAll settings h₁ h₂ scope ss done r) :
    AddsAll settings h h₂ scope (s :: ss) (s :: done) r := by
  have hnames : (s :: done).filterMap Stmt.declaration? =
      s.declaration?.toList ++ done.filterMap Stmt.declaration? := by
    cases hname : s.declaration? with
    | none => rw [List.filterMap_cons_none hname]; rfl
    | some name => rw [List.filterMap_cons_some hname]; rfl
  cases hadds with
  | exactly hgets' =>
    refine .exactly ?_
    rw [hnames]
    exact hgets.trans hgets'
  | late htrace hnext hname hgets' =>
    refine .late htrace hnext hname ?_
    rw [hnames, List.append_assoc]
    exact hgets.trans hgets'

/-- Induction over the statements; each starts where the one before it ended. -/
theorem inOrder_addsAll {ss : List Stmt} (hss : ∀ s ∈ ss, s.ElseShaped)
    (hscope : scope < m.heap.scopes.size) (last : Value) :
    let run := evalStmt settings fuel depth scope
    AddsAll settings m.heap (m.step (Rule.inOrder run last ss)).2.heap scope ss (executed run m ss)
      (m.step (Rule.inOrder run last ss)).1 := by
  intro run
  induction ss generalizing m last with
  | nil => exact .exactly ((Heap.NamesKept.refl _).gets hscope)
  | cons s ss ih =>
    have hadds : Adds settings m.heap (m.step (run s)).2.heap scope s.declaration? (m.step (run s)).1 :=
      stmt_adds (hss s List.mem_cons_self) hscope
    rcases inOrder_cons_cases run last s ss m with
      ⟨e, m', hstep, hall, hdone⟩ | ⟨v, m', hstep, hv, hall, hdone⟩ | ⟨v, m', hstep, hv, hall, hdone⟩
    · rw [hstep] at hadds
      rw [hall, hdone]
      cases hadds with
      | halted hgets => exact .exactly hgets
      | late htrace hname hgets => exact .late htrace rfl hname hgets
    · rw [hstep] at hadds
      rw [hall, hdone]
      cases hadds with
      | done hv' _ =>
        rw [hv] at hv'
        contradiction
      | stopped _ hgets => exact .exactly hgets
    · rw [hstep] at hadds
      rw [hall, hdone]
      cases hadds with
      | done _ hgets =>
        have hscope' := Nat.lt_of_lt_of_le hscope hgets.size_le
        exact (ih (fun s hs => hss s (List.mem_cons_of_mem _ hs)) hscope' v).cons hgets
      | stopped hv' _ =>
        rw [hv] at hv'
        contradiction

/-- A trace of less detail fails at no declaration. -/
theorem AddsAll.gets {ss done : List Stmt} {r : Except Halt Value}
    (hadds : AddsAll settings h h₁ scope ss done r) (htrace : settings.traceLevel < 2) :
    h.Gets h₁ scope (done.filterMap Stmt.declaration?) := by
  cases hadds with
  | exactly hgets => exact hgets
  | late htrace' => exact absurd htrace' (Int.not_le.2 htrace)

theorem AddsAll.result {ss done : List Stmt} {r r' : Except Halt Value}
    (hadds : AddsAll settings h h₁ scope ss done r) (hr : ∀ e, r = .error e → r' = .error e) :
    AddsAll settings h h₁ scope ss done r' := by
  cases hadds with
  | exactly hgets => exact .exactly hgets
  | late htrace hnext hname hgets =>
    rw [hr _ rfl]
    exact .late htrace hnext hname hgets

/-- The value of a program is that of its statements without a `return` around it. -/
theorem step_evalProgram (settings : Settings) (fuel : Nat) (scope : ScopeId) (p : Program) (m : Machine) :
    (m.step (evalProgram settings fuel scope p)).2 =
      (m.step (Rule.inOrder (evalStmt settings fuel 0 scope) .null p.statements)).2 ∧
    ∀ e, (m.step (Rule.inOrder (evalStmt settings fuel 0 scope) .null p.statements)).1 = .error e →
      (m.step (evalProgram settings fuel scope p)).1 = .error e := by
  have hrun : evalProgram settings fuel scope p m =
      EStateM.bind (Rule.inOrder (evalStmt settings fuel 0 scope) .null p.statements) _ m := rfl
  unfold Machine.step
  rw [hrun]
  unfold EStateM.bind
  cases Rule.inOrder (evalStmt settings fuel 0 scope) .null p.statements m with
  | ok v m' => exact ⟨rfl, fun e he => nomatch he⟩
  | error e m' => exact ⟨rfl, fun e he => he⟩

/-- Whatever is run in a scope of the heap, no old scope gets or loses a name, except that a declaration
    gives its own name to the scope, unless it fails; and a program gives the scope the names of the
    declarations it got through, each of them once.  Of the shape of sources only that counts that no
    declaration stands after an `else`. -/
theorem declarations_stay_local (hscope : scope < m.heap.scopes.size) (settings : Settings)
    (fuel depth : Nat) :
    (∀ e, m.heap.NamesKept (m.step (evalExpr settings fuel depth scope e)).2.heap) ∧
    (∀ s, s.ElseShaped → s.declaration? = none →
      m.heap.NamesKept (m.step (evalStmt settings fuel depth scope s)).2.heap) ∧
    (∀ s name, s.declaration? = some name →
      m.heap.Gets (m.step (evalStmt settings fuel depth scope s)).2.heap scope [] ∨
      m.heap.Gets (m.step (evalStmt settings fuel depth scope s)).2.heap scope [name]) ∧
    (∀ p : Program, (∀ s ∈ p.statements, s.ElseShaped) →
      AddsAll settings m.heap (m.step (evalProgram settings fuel scope p)).2.heap scope p.statements
        (executed (evalStmt settings fuel 0 scope) m p.statements)
        (m.step (evalProgram settings fuel scope p)).1) ∧
    ∀ inFunction s us, Spells (.statement inFunction s) us → s.ElseShaped := by
  refine ⟨?_, ?_, ?_, ?_, ?_⟩
  · intro e
    exact expr_namesKept settings fuel depth scope e m
  · intro s hs hname
    exact stmt_namesKept ((Stmt.declared?_eq hs).trans hname) settings fuel depth scope m
  · intro s name hname
    have hadds : Adds settings m.heap (m.step (evalStmt settings fuel depth scope s)).2.heap scope
        s.declaration? _ := stmt_adds (Stmt.elseShaped_of_declaration? hname) hscope
    rw [hname] at hadds
    exact hadds.gets
  · intro p hp
    obtain ⟨hmachine, hresult⟩ := step_evalProgram settings fuel scope p m
    rw [hmachine]
    exact (inOrder_addsAll hp hscope .null).result hresult
  · intro inFunction s us h
    exact h.elseShaped

/-- `const a = 1; for (var i = 0; i < 2; i++) { var b = i; } var a = 2; var c = 3;` gets through the first
    two statements. -/
theorem declarations_stay_local_loop :
    let t : Token := ⟨.ident, "", 1, 1⟩
    let name (x : String) : Name := ⟨t, x⟩
    let var (x : String) (e : Expr) : Stmt := .var t (name x) none (some e)
    let i : Expr := .name (name "i")
    let loop : Stmt := .forLoop t (some (var "i" (.int t 0))) (some (.binary t i "<" (.int t 2)))
      (some (.after t i "++")) (.mk t [var "b" i])
    let p : Program := ⟨t, [.const t (name "a") none (.int t 1), loop, var "a" (.int t 2), var "c" (.int t 3)]⟩
    0 < Machine.fresh.heap.scopes.size ∧ (∀ s ∈ p.statements, s.ElseShaped) ∧
      (Machine.fresh.step (evalProgram {} 20 0 p)).2.heap.names 0 = ["a"] := by
  intro t name var i loop p
  have hp : ∀ s ∈ p.statements, s.ElseShaped := by
    intro s hs
    cases s with
    | branch t e a b => simp [p, var, loop] at hs
    | var | const | function | ret | expr | display | block | whileLoop | doLoop | forLoop => trivial
  have hscope : 0 < Machine.fresh.heap.scopes.size := Nat.zero_lt_one
  obtain ⟨-, -, -, hprogram, -⟩ := declarations_stay_local hscope {} 20 0
  have hnames := ((hprogram p hp).gets (by decide)).names
  have hdone : (executed (evalStmt {} 20 0 0) .fresh p.statements).filterMap Stmt.declaration? = ["a"] := by
    decide +kernel
  refine ⟨hscope, hp, ?_⟩
  rw [hnames, hdone]
  rfl

/-! ## A fault in the trace -/

theorem not_length_repr_le {n k : Nat} (hk : 0 < k) (hn : Nat.pow 10 k ≤ n) : ¬ n.repr.length ≤ k := by
  intro hlength
  exact Nat.not_le_of_lt ((Nat.length_repr_le_iff hk).1 hlength) hn

theorem Number.integerText_of_large {n : Nat} (hn : Nat.pow 10 digitLimit ≤ n) :
    Number.integerText (Int.ofNat n) = .error .textDigits :=
  if_neg (not_length_repr_le (by decide) hn)

theorem step_note_fault {level : Nat} {event : Unit → Except Fault TraceEvent} {f : Fault} (m : Machine)
    (hlevel : (level : Int) ≤ settings.traceLevel) (hevent : event () = .error f) (next : Unit → Eval Value) :
    m.step (Eval.note settings level event >>= next) = (.error (.fault f), m) := by
  unfold Eval.note
  rw [if_pos hlevel, hevent]
  rfl

/-- A variable is declared before the trace fails to show its value. -/
theorem step_var_fault {n : Int} {f : Fault} {name : Name} {declared : Option TypeName} (t : Token)
    (hn : Number.integerText n = .error f) (htrace : 2 ≤ settings.traceLevel)
    (hnew : m.heap.binding? scope name.text = none) :
    m.step (evalStmt settings (fuel + 2) depth scope (.var t name declared (some (.int t n)))) =
      (.error (.fault f), ⟨(m.heap.define scope name.text (.int n) false).2, m.output, m.trace⟩) := by
  obtain ⟨heap, output, trace⟩ := m
  let m' : Machine := ⟨(heap.define scope name.text (.int n) false).2, output, trace⟩
  have hdefine : Machine.step ⟨heap, output, trace⟩ (Eval.define scope name.text (.int n) false) =
      (.ok (heap.define scope name.text (.int n) false).1, m') := rfl
  have hevent : (do return TraceEvent.declared .var name.text "int" (← Number.integerText n) : Except Fault _) =
      .error f := by
    rw [hn]
    rfl
  show Machine.step ⟨heap, output, trace⟩ (Rule.unlessError (Eval.define scope name.text (.int n) false) fun _ =>
    Eval.note settings 2 (fun _ => return .declared .var name.text "int" (← Number.integerText n)) >>=
      fun _ => pure .null) = (.error (.fault f), m')
  rcases heap.define_cases scope name.text (.int n) false with ⟨hsome, -⟩ | ⟨-, hvalue, -⟩
  · rw [show heap.binding? scope name.text = none from hnew] at hsome
    contradiction
  · rcases step_unlessError _ _ _ with ⟨-, herror⟩ | ⟨v, -, -, hstep⟩
    · rw [hdefine, hvalue] at herror
      exact nomatch herror (.int n) rfl
    · rw [hstep, hdefine]
      exact step_note_fault m' htrace hevent _

/-- The program has got through no statement then, and its scope has the name all the same. -/
theorem program_var_fault {n : Int} {f : Fault} {name : Name} (t : Token)
    (hn : Number.integerText n = .error f) (htrace : 2 ≤ settings.traceLevel) (hscope : scope < m.heap.scopes.size)
    (hnew : name.text ∉ m.heap.names scope) :
    let p : Program := ⟨t, [.var t name none (some (.int t n))]⟩
    (m.step (evalProgram settings (fuel + 2) scope p)).1 = .error (.fault f) ∧
      executed (evalStmt settings (fuel + 2) 0 scope) m p.statements = [] ∧
      (m.step (evalProgram settings (fuel + 2) scope p)).2.heap.names scope = name.text :: m.heap.names scope := by
  intro p
  let s : Stmt := .var t name none (some (.int t n))
  let run := evalStmt settings (fuel + 2) 0 scope
  have hstep : m.step (run s) = _ := step_var_fault t hn htrace (Heap.binding?_eq_none.2 hnew)
  obtain ⟨hmachine, hresult⟩ := step_evalProgram settings (fuel + 2) scope p m
  rcases inOrder_cons_cases run .null s [] m with ⟨e, m', hs, hall, hdone⟩ | ⟨v, m', hs, -⟩ | ⟨v, m', hs, -⟩
  · rw [hstep] at hs
    cases hs
    refine ⟨hresult _ (congrArg Prod.fst hall), hdone, ?_⟩
    rw [hmachine, show m.step (Rule.inOrder _ _ p.statements) = _ from hall]
    exact Heap.names_define_new false hscope hnew
  · rw [hstep] at hs
    cases hs
  · rw [hstep] at hs
    cases hs

/-- `var a = n;` where `n` has one digit more than can be shown. -/
theorem name_outlives_trace_fault :
    let t : Token := ⟨.ident, "", 1, 1⟩
    let p : Program := ⟨t, [.var t ⟨t, "a"⟩ none (some (.int t (Int.ofNat (Nat.pow 10 digitLimit))))]⟩
    (∀ s ∈ p.statements, s.ElseShaped) ∧
      (Machine.fresh.step (evalProgram ⟨2, 1024⟩ 20 0 p)).1 = .error (.fault .textDigits) ∧
      executed (evalStmt ⟨2, 1024⟩ 20 0 0) .fresh p.statements = [] ∧
      (Machine.fresh.step (evalProgram ⟨2, 1024⟩ 20 0 p)).2.heap.names 0 = ["a"] := by
  have htext := Number.integerText_of_large (Nat.le_refl _)
  have htrace : (2 : Int) ≤ (⟨2, 1024⟩ : Settings).traceLevel := by decide
  have hscope : 0 < Machine.fresh.heap.scopes.size := Nat.zero_lt_one
  have hnew : "a" ∉ Machine.fresh.heap.names 0 := List.not_mem_nil
  -- nothing is to compute the number
  generalize Int.ofNat (Nat.pow 10 digitLimit) = n at htext ⊢
  intro t p
  have hp : ∀ s ∈ p.statements, s.ElseShaped := List.forall_mem_singleton.2 trivial
  exact ⟨hp, program_var_fault t htext htrace hscope hnew⟩

end ScriptLang
