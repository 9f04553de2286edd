import ScriptLang.Proofs.Eval.Agreement
import ScriptLang.Proofs.Parse.Shaped
import ScriptLang.Session

/-!
  Signals behave like exceptions.

  The evaluator passes errors and `return`s on as values, construct by construct.  It comes to the same
  as the evaluator that is ended by them: no error is lost on the way, and nothing is done after one.
  The one exception is a parameter that repeats a name, whose redeclaration is not looked at.
-/

namespace ScriptLang

variable {strict : Bool} {settings : Settings} {fuel : Nat}

/-- Both evaluators agree up to a bound on steps. -/
structure Agreement (strict : Bool) (settings : Settings) (fuel : Nat) : Prop where
  expr (depth : Nat) (scope : ScopeId) (e : Expr) : e.Shaped strict →
    Evaluates strict false (evalExpr settings fuel depth scope e)
      (Raising.expr strict settings fuel depth scope e)
  stmt (depth : Nat) (scope : ScopeId) (s : Stmt) : s.Shaped strict →
    Evaluates strict (!s.opensLoop) (evalStmt settings fuel depth scope s)
      (Raising.stmt strict settings fuel depth scope s)
  block (depth : Nat) (scope : ScopeId) (b : Block) : b.Shaped strict →
    Evaluates strict true (evalBlock settings fuel depth scope b)
      (Raising.block strict settings fuel depth scope b)
  apply (depth : Nat) (f : Closure) (vs : List Value) : Value.Clean strict (.function f) →
    (∀ v ∈ vs, v.Clean strict) →
    Evaluates strict false (applyFunction settings fuel depth f vs)
      (Raising.apply strict settings fuel depth f vs)

namespace Agreement

theorem zero : Agreement strict settings 0 where
  expr _ _ _ _ := Agrees.outOfFuel
  stmt _ _ _ _ := Agrees.outOfFuel
  block _ _ _ _ := Agrees.outOfFuel
  apply _ _ _ _ _ := Agrees.outOfFuel

theorem expr_succ (ih : Agreement strict settings fuel) (depth : Nat) (scope : ScopeId) (e : Expr)
    (he : e.Shaped strict) :
    Evaluates strict false (evalExpr settings (fuel + 1) depth scope e)
      (Raising.expr strict settings (fuel + 1) depth scope e) := by
  cases e with
  | name n => exact Evaluates.nameValue scope n.text
  | int t n | float t x | str t s | bool t b => exact Evaluates.value trivial
  | before t op operand =>
    unfold evalExpr Rule.expression Raising.expr
    dsimp only
    split
    · exact Evaluates.update scope op .before operand
    · exact (ih.expr depth scope operand he).unlessError fun v _ =>
        Evaluates.answer (unaryOp_plain op v).answer
  | after t operand op => exact Evaluates.update scope op .after operand
  | binary t l op r =>
    exact Evaluates.binary op (ih.expr depth scope l he.1) (ih.expr depth scope r he.2)
  | choice t test a b =>
    refine (ih.expr depth scope test he.1).unlessError fun v _ => ?_
    split
    · exact ih.expr depth scope a he.2.1
    · exact ih.expr depth scope b he.2.2
  | assign t n value =>
    exact (ih.expr depth scope value he).unlessError fun v hv => Evaluates.assign hv scope n.text
  | call t callee es =>
    refine Evaluates.call (ih.expr depth scope callee he.1)
      (fun e hmem => ih.expr depth scope e (exprsShaped_iff.1 he.2 e hmem)) ?_
    exact fun f vs hf hvs => ih.apply depth f vs hf hvs
  | function t ps r body =>
    refine newFunction_agrees.step fun id _ => ?_
    exact Evaluates.value (show Value.Clean strict (.function _) from he)

/-- The test of a `for` loop; one that is absent always holds. -/
theorem forTest (ih : Agreement strict settings fuel) (depth : Nat) (scope : ScopeId)
    (test : Option Expr) : exprShaped? strict test → Evaluates.Tests strict
      (match test with
        | none => return .goOn
        | some e => Rule.verdict (evalExpr settings fuel depth scope e))
      (match test with
        | none => return true
        | some e => Raising.truth (Raising.expr strict settings fuel depth scope e)) := by
  intro h
  cases test with
  | none => exact Agrees.pure rfl trivial
  | some e => exact Evaluates.verdict (ih.expr depth scope e h)

/-- The update of a `for` loop. -/
theorem forUpdate (ih : Agreement strict settings fuel) (depth : Nat) (scope : ScopeId)
    (update : Option Expr) : exprShaped? strict update → Evaluates strict false
      (match update with
        | none => return .null
        | some e => evalExpr settings fuel depth scope e)
      (match update with
        | none => return .null
        | some e => Raising.expr strict settings fuel depth scope e) := by
  intro h
  cases update with
  | none => exact Evaluates.value trivial
  | some e => exact ih.expr depth scope e h

/-- The initialisation of a `for` loop does not return. -/
theorem forInit (ih : Agreement strict settings fuel) (depth : Nat) (scope : ScopeId)
    (init : Option Stmt) : (∀ s ∈ init, s.opensLoop = true) → stmtShaped? strict init →
    Evaluates strict false
      (match init with
        | none => return .null
        | some s => evalStmt settings fuel depth scope s)
      (match init with
        | none => return .null
        | some s => Raising.stmt strict settings fuel depth scope s) := by
  intro hopens h
  cases init with
  | none => exact Evaluates.value trivial
  | some s =>
    have hs := ih.stmt depth scope s h
    rwa [hopens s rfl] at hs

theorem stmt_succ (ih : Agreement strict settings fuel) (depth : Nat) (scope : ScopeId) (s : Stmt)
    (hs : s.Shaped strict) :
    Evaluates strict (!s.opensLoop) (evalStmt settings (fuel + 1) depth scope s)
      (Raising.stmt strict settings (fuel + 1) depth scope s) := by
  cases s with
  | var t n d value =>
    cases value with
    | none => exact Evaluates.declaration settings .var scope n.text (Evaluates.value trivial)
    | some e => exact Evaluates.declaration settings .var scope n.text (ih.expr depth scope e hs)
  | const t n d value => exact Evaluates.declaration settings .const scope n.text (ih.expr depth scope value hs)
  | function t n ps r body => exact Evaluates.functionDeclaration settings scope n.text r hs.1 hs.2
  | ret t value =>
    cases value with
    | none => exact Agrees.raise rfl ⟨rfl, trivial⟩
    | some e =>
      exact (ih.expr depth scope e hs).unlessError fun v hv => Agrees.raise rfl ⟨rfl, hv⟩
  | expr t value => exact ih.expr depth scope value hs
  | display t es =>
    exact Evaluates.display fun e he => ih.expr depth scope e (exprsShaped_iff.1 hs e he)
  | block body => exact ih.block depth scope body hs
  | branch t test a b =>
    refine Evaluates.branch settings (ih.expr depth scope test hs.1) (ih.block depth scope a hs.2.1) ?_
    cases b with
    | none => exact Evaluates.value trivial
    | some b => exact (ih.stmt depth scope b hs.2.2).returning
  | whileLoop t test body =>
    exact Evaluates.loop (Evaluates.verdict (ih.expr depth scope test hs.1))
      (Evaluates.iteration settings .whileLoop (ih.block depth scope body hs.2))
      (Evaluates.value (v := .null) trivial) fuel 0
  | doLoop t body test =>
    exact Evaluates.loopAfter (Evaluates.iteration settings .doLoop (ih.block depth scope body hs.2))
      (Evaluates.verdict (ih.expr depth scope test hs.1)) fuel 0
  | forLoop t init test update body =>
    obtain ⟨hopens, hinit, htest, hupdate, hbody⟩ := hs
    refine (newScope_agrees (some scope)).step fun inner _ => ?_
    refine (ih.forInit depth inner init hopens hinit).unlessError fun _ _ => ?_
    exact Evaluates.loop (ih.forTest depth inner test htest)
      (Evaluates.iteration settings .forLoop (ih.block depth inner body hbody))
      (ih.forUpdate depth inner update hupdate) fuel 0

theorem statements (ih : Agreement strict settings fuel) (depth : Nat) (scope : ScopeId)
    {ss : List Stmt} (hss : stmtsShaped strict ss) :
    Evaluates strict true (Rule.inOrder (evalStmt settings fuel depth scope) .null ss)
      (Raising.inOrder (Raising.stmt strict settings fuel depth scope) .null ss) :=
  Evaluates.inOrder (fun s hs => (ih.stmt depth scope s (stmtsShaped_iff.1 hss s hs)).returning) trivial

theorem block_succ (ih : Agreement strict settings fuel) (depth : Nat) (scope : ScopeId) (b : Block)
    (hb : b.Shaped strict) :
    Evaluates strict true (evalBlock settings (fuel + 1) depth scope b)
      (Raising.block strict settings (fuel + 1) depth scope b) := by
  cases b with
  | mk t ss => exact (newScope_agrees (some scope)).step fun inner _ => ih.statements depth inner hb

theorem apply_succ (ih : Agreement strict settings fuel) (depth : Nat) (f : Closure) (vs : List Value)
    (hf : Value.Clean strict (.function f)) (hvs : ∀ v ∈ vs, v.Clean strict) :
    Evaluates strict false (applyFunction settings (fuel + 1) depth f vs)
      (Raising.apply strict settings (fuel + 1) depth f vs) := by
  refine Evaluates.application settings depth (fun scope => ?_) hf.1 hvs
  have hbody : stmtsShaped strict f.body.statements := by
    have hshaped := hf.2
    cases hmk : f.body with
    | mk t ss => rwa [hmk] at hshaped
  exact ih.statements (depth + 1) scope hbody

/-- By induction on the bound: each construct hands a smaller one to its parts. -/
theorem all (strict : Bool) (settings : Settings) (fuel : Nat) : Agreement strict settings fuel := by
  induction fuel with
  | zero => exact zero
  | succ fuel ih => exact ⟨ih.expr_succ, ih.stmt_succ, ih.block_succ, ih.apply_succ⟩

end Agreement

/-! ## Nodes -/

/-- How a run ended, and what it left in the scopes and in the output. -/
structure Observation where
  result : Except Halt Value
  heap : Heap
  output : String

/-- What is seen of a run with signals. -/
def Eval.observed : EStateM.Result Halt Machine Value → Observation
  | .ok v m => ⟨.ok v, m.heap, m.output⟩
  | .error h m => ⟨.error h, m.heap, m.output⟩

/-- What is seen of a run with exceptions: the signal that ended it is its result. -/
def Raising.observed : EStateM.Result Abort Machine Value → Observation
  | .ok v m => ⟨.ok v, m.heap, m.output⟩
  | .error (.halt h) m => ⟨.error h, m.heap, m.output⟩
  | .error (.signal (.error e)) m => ⟨.ok (.error e), m.heap, m.output⟩
  | .error (.signal (.returned v)) m => ⟨.ok (.returned v), m.heap, m.output⟩

theorem Matches.observed {strict returns : Bool} {r : EStateM.Result Halt Machine Value}
    {r' : EStateM.Result Abort Machine Value}
    (h : Matches strict returns Value.raised (Value.Clean strict) r r') :
    Eval.observed r = Raising.observed r' := by
  cases h with
  | @value a b m m' hview _ halike _ =>
    obtain ⟨rfl, -⟩ := Value.raised_ok hview
    rw [Eval.observed, Raising.observed, halike.heap, halike.output]
  | @signal a s m m' hview _ halike _ =>
    cases a with
    | error e =>
      cases hview
      rw [Eval.observed, Raising.observed, halike.heap, halike.output]
    | returned v =>
      cases hview
      rw [Eval.observed, Raising.observed, halike.heap, halike.output]
    | int n | float x | bool b | str s | null | function f => contradiction
  | halt halike => rw [Eval.observed, Raising.observed, halike.heap, halike.output]

/-- A program ends with the value of a `return` outside every function. -/
theorem evaluates_program (strict : Bool) (settings : Settings) (fuel : Nat) (scope : ScopeId) {p : Program}
    (hp : stmtsShaped strict p.statements) :
    Evaluates strict true (evalProgram settings fuel scope p)
      (Raising.node strict settings fuel scope (some (.program p))) := by
  have hstatements := (Agreement.all strict settings fuel).statements 0 scope hp
  have hbind : Evaluates strict true (evalProgram settings fuel scope p)
      (Raising.node strict settings fuel scope (some (.program p)) >>= pure) := by
    refine Agrees.bind hstatements.upToReturn (fun v w hview hw => ?_) fun v s hview _ => ?_
    · cases Value.unwrapped_ok hview
      exact Evaluates.value hw
    · obtain ⟨e, rfl, rfl⟩ := Value.unwrapped_error hview
      exact ⟨trivial, fun n => ⟨.error e, n, rfl, ⟨rfl, rfl⟩, rfl⟩⟩
  rwa [bind_pure] at hbind

theorem evaluates_node (strict : Bool) (settings : Settings) (fuel : Nat) (scope : ScopeId)
    {node : Option Node} (hnode : ∀ n ∈ node, n.Shaped strict) :
    Evaluates strict true (evalNode settings fuel scope node)
      (Raising.node strict settings fuel scope node) := by
  cases node with
  | none => exact Evaluates.value trivial
  | some n =>
    have hn := hnode n rfl
    cases n with
    | program p => exact evaluates_program strict settings fuel scope hn
    | stmt s => exact ((Agreement.all strict settings fuel).stmt 0 scope s hn).returning
    | expr e => exact ((Agreement.all strict settings fuel).expr 0 scope e hn).returning
    | typeName t | parameter p => exact Agrees.raise rfl trivial

/-! ## Parameters that repeat a name -/

/-- Every argument conforms to the type of its parameter. -/
def Accepted (function : String) (ps : List Parameter) (vs : List Value) : Prop :=
  vs.length = ps.length ∧ ∀ q ∈ ps.zip vs, ∃ w : Value, w.Clean true ∧
    checkArgument function q.1.name.text q.1.declared.name q.2 = .ok w

section Repeated

variable {function : String} {p : Parameter} {ps : List Parameter} {v : Value} {vs : List Value}
  {scope : ScopeId} {heap : Heap} {output : String} {trace : Array TraceEvent}

theorem Accepted.of_cons (h : Accepted function (p :: ps) (v :: vs)) :
    (∃ w : Value, w.Clean true ∧ checkArgument function p.name.text p.declared.name v = .ok w) ∧
      Accepted function ps vs := by
  obtain ⟨hlength, hall⟩ := h
  refine ⟨hall (p, v) List.mem_cons_self, by simpa using hlength, fun q hq => ?_⟩
  exact hall q (List.mem_cons_of_mem _ hq)

/-- The evaluator binds arguments that conform, whatever the names are. -/
theorem bindArguments_accepted (h : Accepted function ps vs) :
    ∃ heap', Rule.bindArguments function scope ps vs ⟨heap, output, trace⟩ =
      .ok none ⟨heap', output, trace⟩ := by
  induction ps generalizing vs heap with
  | nil => exact ⟨heap, rfl⟩
  | cons p ps ih =>
    cases vs with
    | nil => exact ⟨heap, rfl⟩
    | cons v vs =>
      obtain ⟨⟨w, hw, hcheck⟩, hrest⟩ := h.of_cons
      rw [bindArguments_cons hcheck hw]
      exact ih hrest

theorem Bindable.of_define (hscope : scope < heap.scopes.size) (w : Value)
    (hnew : heap.binding? scope p.name.text = none)
    (h : Bindable scope ps (heap.define scope p.name.text w false).2) :
    Bindable scope (p :: ps) heap := by
  obtain ⟨hrest, hnodup⟩ := h
  have hself : (heap.define scope p.name.text w false).2.binding? scope p.name.text = some ⟨w, false⟩ :=
    Heap.binding?_define_self hscope hnew
  refine ⟨List.forall_mem_cons.2 ⟨hnew, fun q hq => ?_⟩, ?_⟩
  · cases hb : heap.binding? scope q.name.text with
    | none => rfl
    | some b =>
      have hold := hrest q hq
      rw [Heap.binding?_define_old hb] at hold
      contradiction
  · rw [List.map_cons, List.nodup_cons]
    refine ⟨fun hmem => ?_, hnodup⟩
    obtain ⟨q, hq, hname⟩ := List.mem_map.1 hmem
    have hbound := hrest q hq
    rw [hname, hself] at hbound
    contradiction

/-- Exceptions end the binding of a parameter that repeats a name. -/
theorem raising_bindArguments_repeated (h : Accepted function ps vs) (hscope : scope < heap.scopes.size)
    (hrepeated : ¬ Bindable scope ps heap) :
    ∃ name m, Raising.bindArguments true function scope ps vs ⟨heap, output, trace⟩ =
      .error (.signal (.error (.redeclared name))) m := by
  induction ps generalizing vs heap with
  | nil => exact absurd ⟨fun p hp => (nomatch hp), List.nodup_nil⟩ hrepeated
  | cons p ps ih =>
    cases vs with
    | nil => exact absurd h.1 (by simp)
    | cons v vs =>
      obtain ⟨⟨w, hw, hcheck⟩, hrest⟩ := h.of_cons
      rcases heap.define_cases scope p.name.text w false with ⟨-, hrefused⟩ | ⟨hnew, -⟩
      · -- the name is bound already, so this is the declaration that fails
        refine ⟨p.name.text, ⟨heap, output, trace⟩, ?_⟩
        have hdefine : Raising.defineParameter true scope p.name.text w ⟨heap, output, trace⟩ =
            .error (.signal (.error (.redeclared p.name.text))) ⟨heap, output, trace⟩ := by
          show Raising.raise (heap.define scope p.name.text w false).1
            ⟨(heap.define scope p.name.text w false).2, output, trace⟩ = _
          rw [hrefused]
          rfl
        rw [raising_bindArguments_bound hcheck hw]
        show EStateM.bind _ _ _ = _
        unfold EStateM.bind
        rw [hdefine]
      · -- the name is new, so what repeats a name comes later
        rw [raising_bindArguments_cons hcheck hw fun _ => hnew]
        refine ih hrest (by rwa [Heap.size_define]) fun hb => hrepeated ?_
        exact hb.of_define hscope w hnew

end Repeated

/-- A function without statements whose parameters repeat a name: its call has a value, and with
    exceptions it has none. -/
theorem applyFunction_ne_raising {settings : Settings} {f : Closure} {vs : List Value} {depth : Nat}
    (htrace : settings.traceLevel < 2) (hdepth : depth < settings.callLimit)
    (hbody : f.body.statements = []) (haccepted : Accepted f.displayName f.parameters vs)
    (hrepeated : ¬ (f.parameters.map (·.name.text)).Nodup) (fuel : Nat) (m : Machine) :
    Eval.observed (applyFunction settings (fuel + 1) depth f vs m) ≠
      Raising.observed (Raising.apply true settings (fuel + 1) depth f vs m) := by
  obtain ⟨heap, output, trace⟩ := m
  have harity : ¬ vs.length ≠ f.parameters.length := fun h => h haccepted.1
  have hlimit : ¬ settings.callLimit ≤ depth := by omega
  obtain ⟨heap', hbind⟩ : ∃ heap', Rule.bindArguments f.displayName heap.scopes.size f.parameters vs
      ⟨(heap.alloc (some f.scope)).2, output, trace⟩ = .ok none ⟨heap', output, trace⟩ :=
    bindArguments_accepted haccepted
  -- With signals the refused declaration is overlooked and the empty body is run.
  have hsignals : applyFunction settings (fuel + 1) depth f vs ⟨heap, output, trace⟩ =
      .ok .null ⟨heap', output, trace⟩ := by
    unfold applyFunction Rule.application
    rw [Rule.enter_bind, if_neg harity]
    refine (Eval.bind_of_ok hbind _).trans ?_
    rw [Rule.record_bind, note_above htrace, pure_bind, Rule.proceed, if_neg hlimit, hbody]
    show (Eval.note settings 2 _ >>= fun _ => pure Value.null) _ = _
    rw [note_above htrace]
    rfl
  -- With exceptions the call ends at the first name that is bound already.
  have hnotBindable : ¬ Bindable heap.scopes.size f.parameters (heap.alloc (some f.scope)).2 :=
    fun h => hrepeated h.2
  have hsize : heap.scopes.size < (heap.alloc (some f.scope)).2.scopes.size := by
    show heap.scopes.size < (heap.scopes.push _).size
    rw [Array.size_push]
    exact Nat.lt_succ_self _
  obtain ⟨name, m, hraise⟩ : ∃ name m, Raising.bindArguments true f.displayName heap.scopes.size
      f.parameters vs ⟨(heap.alloc (some f.scope)).2, output, trace⟩ =
      .error (.signal (.error (.redeclared name))) m :=
    raising_bindArguments_repeated haccepted hsize hnotBindable
  have hexceptions : Raising.apply true settings (fuel + 1) depth f vs ⟨heap, output, trace⟩ =
      .error (.signal (.error (.redeclared name))) m := by
    unfold Raising.apply Raising.application
    rw [if_neg harity]
    show EStateM.bind (Raising.bindArguments _ _ _ _ _) _
      ⟨(heap.alloc (some f.scope)).2, output, trace⟩ = _
    unfold EStateM.bind
    rw [hraise]
  rw [hsignals, hexceptions]
  intro h
  have hresult : Except.ok Value.null = Except.ok (Value.error (.redeclared name)) :=
    congrArg Observation.result h
  cases hresult

/-! ## The whole -/

/-- Evaluation agrees with the evaluation that errors and `return`s end at once, on result, scopes and
    output: with `strict` for trees and heaps in which no function repeats the name of a parameter, and
    without for all of the shape that sources have.  The condition on names is exact: for parameters that
    repeat a name, whatever their types, a function without statements is called to a value where the
    redeclaration should have been the result. -/
theorem signals_like_exceptions (settings : Settings) :
    (∀ (strict : Bool) (fuel : Nat) (scope : ScopeId) (node : Option Node) (m : Machine),
      (∀ n ∈ node, n.Shaped strict) → m.heap.Clean strict →
      Eval.observed (evalNode settings fuel scope node m) =
        Raising.observed (Raising.node strict settings fuel scope node m)) ∧
    (∀ (source : String) (parsed : Parsed), parse source = .ok parsed →
      (Node.program parsed.program).Shaped false) ∧
    ∀ (f : Closure) (vs : List Value) (fuel depth : Nat) (m : Machine), settings.traceLevel < 2 →
      depth < settings.callLimit → f.body.statements = [] → Accepted f.displayName f.parameters vs →
      ¬ (f.parameters.map (·.name.text)).Nodup →
      Eval.observed (applyFunction settings (fuel + 1) depth f vs m) ≠
        Raising.observed (Raising.apply true settings (fuel + 1) depth f vs m) := by
  refine ⟨fun strict fuel scope node m hnode hclean => ?_, fun source parsed h => parse_shaped h, ?_⟩
  · exact (evaluates_node strict settings fuel scope hnode m m ⟨rfl, rfl⟩ hclean).observed
  · intro f vs fuel depth m htrace hdepth hbody haccepted hrepeated
    exact applyFunction_ne_raising htrace hdepth hbody haccepted hrepeated fuel m

theorem clean_fresh (strict : Bool) : Machine.fresh.heap.Clean strict := by
  have hempty : Heap.empty.Clean strict := by
    intro id name b hb
    rw [Heap.binding?, Heap.empty, Array.getElem?_empty] at hb
    contradiction
  exact hempty.alloc none

/-- `fn f(a: int, b: int) { while (true) { display(a); return a / b; } } display(f(2, 1), f(1, 0));`
    stops at the second argument.  The same function with two parameters `a` and no statements is called
    without an error. -/
theorem signals_like_exceptions_division :
    let t : Token := ⟨.ident, "", 1, 1⟩
    let name (x : String) : Name := ⟨t, x⟩
    let int (x : String) : Parameter := ⟨t, name x, ⟨t, "int"⟩⟩
    let quotient : Expr := .binary t (.name (name "a")) "/" (.name (name "b"))
    let body : Block := .mk t [.whileLoop t (.bool t true)
      (.mk t [.display t [.name (name "a")], .ret t (some quotient)])]
    let call (x y : Int) : Expr := .call t (.name (name "f")) [.int t x, .int t y]
    let p : Program := ⟨t, [.function t (name "f") [int "a", int "b"] ⟨t, "int"⟩ body,
      .display t [call 2 1, call 1 0]]⟩
    let f : Closure := ⟨0, none, [int "a", int "a"], ⟨t, "int"⟩, .mk t [], 0⟩
    ((Node.program p).Shaped true ∧ Machine.fresh.heap.Clean true ∧
      Eval.observed (evalNode {} 100 0 (some (.program p)) .fresh) =
        Raising.observed (Raising.node true {} 100 0 (some (.program p)) .fresh)) ∧
    (Accepted f.displayName f.parameters [.int 1, .int 2] ∧
      ¬ (f.parameters.map (·.name.text)).Nodup ∧
      Eval.observed (applyFunction {} 1 0 f [.int 1, .int 2] .fresh) ≠
        Raising.observed (Raising.apply true {} 1 0 f [.int 1, .int 2] .fresh)) := by
  intro t name int quotient body call p f
  have hshaped : (Node.program p).Shaped true := by
    refine ⟨⟨fun _ => by decide, ⟨trivial, ⟨trivial, trivial⟩, ⟨trivial, trivial⟩, trivial⟩, trivial⟩, ?_, trivial⟩
    exact ⟨⟨trivial, trivial, trivial, trivial⟩, ⟨trivial, trivial, trivial, trivial⟩, trivial⟩
  have haccepted : Accepted f.displayName f.parameters [.int 1, .int 2] := by
    refine ⟨rfl, fun q hq => ?_⟩
    rcases List.mem_cons.1 hq with rfl | hq
    · exact ⟨.int 1, trivial, rfl⟩
    · rw [List.mem_singleton.1 hq]
      exact ⟨.int 2, trivial, rfl⟩
  have hrepeated : ¬ (f.parameters.map (·.name.text)).Nodup := by decide
  refine ⟨⟨hshaped, clean_fresh true, ?_⟩, haccepted, hrepeated, ?_⟩
  · refine (signals_like_exceptions {}).1 true 100 0 (some (.program p)) .fresh (fun n hn => ?_)
      (clean_fresh true)
    cases hn
    exact hshaped
  · exact (signals_like_exceptions {}).2.2 f [.int 1, .int 2] 0 0 .fresh (by decide) (by decide) rfl
      haccepted hrepeated

end ScriptLang
