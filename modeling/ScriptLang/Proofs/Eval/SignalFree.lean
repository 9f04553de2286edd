import ScriptLang.Proofs.Eval.Invariant

/-!
  Signals stay inside the evaluator.

  An error ends what is around it and a `return` ends the call around it, but neither is ever a value
  that a program could read again: no scope holds one, and a `return` carries none.  Nothing in the type
  of values says so.  It holds since whatever is bound was an argument or the value of an expression,
  and both are looked at before they are used.
-/

namespace ScriptLang

/-- No name is bound to a signal. -/
def Heap.SignalFree (h : Heap) : Prop :=
  ∀ id name b, h.binding? id name = some b → b.value.isSignal = false

namespace Heap.SignalFree

variable {h : Heap} {v : Value}

theorem define (hfree : h.SignalFree) (hv : v.isSignal = false) (id : ScopeId) (name : String)
    (constant : Bool) : (h.define id name v constant).2.SignalFree := by
  intro i n b hb
  rcases binding?_define hb with hold | ⟨-, rfl⟩
  · exact hfree _ _ _ hold
  · exact hv

theorem assign (hfree : h.SignalFree) (hv : v.isSignal = false) (id : ScopeId) (name : String) :
    (h.assign id name v).2.SignalFree := by
  intro i n b hb
  rcases binding?_assign hb with hold | rfl
  · exact hfree _ _ _ hold
  · exact hv

theorem alloc (hfree : h.SignalFree) (outer : Option ScopeId) : (h.alloc outer).2.SignalFree := by
  intro i n b hb
  rw [binding?_alloc] at hb
  exact hfree _ _ _ hb

end Heap.SignalFree

/-- Runs keep scopes free of signals. -/
def signalFree : Invariant where
  Good := Heap.SignalFree
  Own _ := True
  Stored v := v.isSignal = false
  stored_of_not_signal hv := hv
  stored_returned hv := nomatch hv
  alloc hfree a := ⟨hfree.alloc (some a), trivial⟩
  allocFunction hfree := hfree
  define hfree _ hv name constant := hfree.define hv _ name constant
  assign hfree hv a name := hfree.assign hv a name
  get? hfree hget := by
    obtain ⟨owner, b, hb, rfl⟩ := Heap.get?_some hget
    exact hfree _ _ _ hb

/-- What may be stored is no `return`, and neither is an error. -/
theorem signalFree_answer_ne {v : Value} (hv : signalFree.Answer v) (u : Value) : v ≠ .returned u := by
  rintro rfl
  rcases hv with hstored | herror
  · cases hstored
  · cases herror

/-- In a heap that is free of signals every run keeps it so, in whatever way it ends; the value of a
    `return` is no signal; and neither an expression, nor a call with values as arguments, nor a program
    has a `return` as its value. -/
theorem signals_stay_inside {m : Machine} (hfree : m.heap.SignalFree) (settings : Settings)
    (fuel depth : Nat) (scope : ScopeId) :
    (∀ node, (m.step (evalNode settings fuel scope node)).2.heap.SignalFree ∧
      ∀ u, (m.step (evalNode settings fuel scope node)).1 = .ok (.returned u) → u.isSignal = false) ∧
    (∀ s, (m.step (evalStmt settings fuel depth scope s)).2.heap.SignalFree ∧
      ∀ u, (m.step (evalStmt settings fuel depth scope s)).1 = .ok (.returned u) → u.isSignal = false) ∧
    (∀ e, (m.step (evalExpr settings fuel depth scope e)).2.heap.SignalFree ∧
      ∀ u, (m.step (evalExpr settings fuel depth scope e)).1 ≠ .ok (.returned u)) ∧
    (∀ f vs, (∀ v ∈ vs, v.isSignal = false) →
      (m.step (applyFunction settings fuel depth f vs)).2.heap.SignalFree ∧
      ∀ u, (m.step (applyFunction settings fuel depth f vs)).1 ≠ .ok (.returned u)) ∧
    ∀ p, (m.step (runProgram settings fuel scope p)).2.heap.SignalFree ∧
      ∀ u, (m.step (runProgram settings fuel scope p)).1 ≠ .ok (.returned u) := by
  have hgood : signalFree.Good m.heap := hfree
  refine ⟨?_, ?_, ?_, ?_, ?_⟩
  · intro node
    exact Invariant.node_good hgood settings fuel trivial node
  · intro s
    exact Invariant.stmt_good hgood settings fuel (fun _ => trivial) depth
  · intro e
    obtain ⟨hfree', hanswer⟩ := Invariant.expr_good hgood settings fuel depth scope e
    exact ⟨hfree', fun u hu => signalFree_answer_ne (hanswer _ hu) u rfl⟩
  · intro f vs hvs
    have harguments : ∀ v ∈ vs, signalFree.Answer v := fun v hv => Or.inl (hvs v hv)
    obtain ⟨hfree', hanswer⟩ := Invariant.apply_good hgood settings fuel harguments depth f
    exact ⟨hfree', fun u hu => signalFree_answer_ne (hanswer _ hu) u rfl⟩
  · intro p
    obtain ⟨hfree', hanswer⟩ := Invariant.runProgram_good hgood settings fuel trivial p
    exact ⟨hfree', fun u hu => signalFree_answer_ne (hanswer _ hu) u rfl⟩

theorem signalFree_fresh : Machine.fresh.heap.SignalFree := by
  intro id name b hb
  rw [Machine.fresh, Heap.binding?_alloc] at hb
  cases hb

/-- `while (true) { return fn(a: int): int { return a + 1; }(3); }` and the function called with 3. -/
theorem signals_stay_inside_loop :
    let t : Token := ⟨.ident, "", 1, 1⟩
    let a : Name := ⟨t, "a"⟩
    let int : TypeName := ⟨t, "int"⟩
    let body : Block := .mk t [.ret t (some (.binary t (.name a) "+" (.int t 1)))]
    let call : Expr := .call t (.function t [⟨t, a, int⟩] int body) [.int t 3]
    let loop : Stmt := .whileLoop t (.bool t true) (.mk t [.ret t (some call)])
    let f : Closure := ⟨0, none, [⟨t, a, int⟩], int, body, 0⟩
    Machine.fresh.heap.SignalFree ∧
    ((Machine.fresh.step (evalStmt {} 20 0 0 loop)).1 = .ok (.returned (.int 4)) ∧
      (Value.int 4).isSignal = false ∧
      (Machine.fresh.step (evalStmt {} 20 0 0 loop)).2.heap.SignalFree) ∧
    (∀ v ∈ [Value.int 3], v.isSignal = false) ∧
      ∀ u, (Machine.fresh.step (applyFunction {} 20 0 f [.int 3])).1 ≠ .ok (.returned u) := by
  intro t a int body call loop f
  have hloop : (Machine.fresh.step (evalStmt {} 20 0 0 loop)).1 = .ok (.returned (.int 4)) := rfl
  have harguments : ∀ v ∈ [Value.int 3], v.isSignal = false := List.forall_mem_singleton.2 rfl
  obtain ⟨-, hstmt, -, hcall, -⟩ := signals_stay_inside signalFree_fresh {} 20 0 0
  exact ⟨signalFree_fresh, ⟨hloop, (hstmt loop).2 _ hloop, (hstmt loop).1⟩, harguments,
    (hcall f [.int 3] harguments).2⟩

end ScriptLang
