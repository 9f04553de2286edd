import ScriptLang.Proofs.Eval.Keeping

/-!
  Programs without floats.

  A program that has no float literal and no parameter declared a float, in a scope from which neither a
  float nor a function with such a thing can be reached, does without floats from its start to its end.
  Then no integer is ever converted and no remainder of an infinite number is asked for.  A quotient by
  zero is an error of the language.  What is left to fail is an integer with too many digits to be shown.
-/

namespace ScriptLang

/-- A float can be seen: a part has come to it, or one of the scopes binds it. -/
def FloatSeen (scopes : ScopeId → Prop) (s : Sight) (m : Machine) : Prop :=
  (∃ v, s = .value v ∧ v.unwrap.isFloat = true) ∨
    ∃ id name b, scopes id ∧ m.heap.binding? id name = some b ∧ b.value.unwrap.isFloat = true

theorem Value.Within.isFloat_eq_false {v : Value} (h : v.Within .withoutFloats) : v.isFloat = false :=
  Bool.eq_false_iff.2 fun hfloat => Bool.false_ne_true (h.allowed hfloat)

/-- Where a run has kept to values without floats, none can be seen. -/
theorem Start.Keeps.not_floatSeen {S : Start} {m : Machine} (hS : S.features = .withoutFloats)
    (hkeeps : S.Keeps m.heap) {s : Sight} (hs : ∀ v, s = .value v → S.Admits v) :
    ¬ FloatSeen (S.heap.Usable S.Own) s m := by
  have hwithin {v : Value} (hv : S.Admits v) : v.unwrap.isFloat = false := by
    have hv' : v.Within S.features := hv.1
    rw [hS] at hv'
    exact hv'.unwrap.isFloat_eq_false
  rintro (⟨v, heq, hfloat⟩ | ⟨id, name, b, hid, hb, hfloat⟩)
  · rw [hwithin (hs v heq)] at hfloat
    cases hfloat
  · rw [hwithin (hkeeps.admits hid hb)] at hfloat
    cases hfloat

/-! ## Quotients by zero -/

section Quotients

variable {settings : Settings} {fuel depth : Nat} {scope : ScopeId} {l r : Expr} {m m₁ m₂ : Machine}

theorem unlessError_of_ok {x : Eval Value} {next : Value → Eval Value} {v : Value} (hx : x m = .ok v m₁)
    (hv : v.isError = false) : Rule.unlessError x next m = next v m₁ := by
  unfold Rule.unlessError
  rw [Eval.bind_of_ok hx]
  cases v with
  | error e => cases hv
  | int n | float x | bool b | str s | null | function f | returned w => rfl

/-- An operator with operands that are integers. -/
theorem evalExpr_integers {op : String} {x y : Int} {w : Value} (hand : op ≠ "&&") (hor : op ≠ "||")
    (hl : evalExpr settings fuel depth scope l m = .ok (.int x) m₁)
    (hr : evalExpr settings fuel depth scope r m₁ = .ok (.int y) m₂)
    (hw : binaryOp op (.int x) (.int y) = .ok w) (t : Token) :
    evalExpr settings (fuel + 1) depth scope (.binary t l op r) m = .ok w m₂ := by
  show Rule.binary op (evalExpr settings fuel depth scope l) (evalExpr settings fuel depth scope r) m = .ok w m₂
  rw [Rule.binary_of_ne hand hor, unlessError_of_ok hl rfl, unlessError_of_ok hr rfl, hw]
  rfl

end Quotients

/-- A program without floats, in a scope from which none can be reached, never comes to a float and never
    binds one.  No other fault can end it than that of an integer with too many digits to be shown: a
    quotient or remainder by zero is an error of the language. -/
theorem integers_stay_integers (settings : Settings) (fuel : Nat) {scope : ScopeId} {p : Program} {m : Machine}
    (hp : p.Within .withoutFloats)
    (hreach : ∀ id name b, m.heap.Reaches (· = scope) id → m.heap.binding? id name = some b →
      b.value.Within .withoutFloats) :
    NeverSees (FloatSeen (m.heap.Usable (m.heap.Reaches (· = scope)))) settings fuel scope p m ∧
    (∀ v, (m.step (runProgram settings fuel scope p)).1 = .ok v → v.isFloat = false ∧ v.Within .withoutFloats) ∧
    (∀ f, (m.step (runProgram settings fuel scope p)).1 = .error (.fault f) → f = .textDigits) ∧
    (∀ id name b, m.heap.Usable (m.heap.Reaches (· = scope)) id →
      (m.step (runProgram settings fuel scope p)).2.heap.binding? id name = some b →
      b.value.isFloat = false ∧ b.value.Within .withoutFloats) ∧
    (∀ t l r n depth scope m m₁ m₂ x, evalExpr settings n depth scope l m = .ok (.int x) m₁ →
      evalExpr settings n depth scope r m₁ = .ok (.int 0) m₂ →
      evalExpr settings (n + 1) depth scope (.binary t l "/" r) m = .ok (.error .divisionByZero) m₂ ∧
      evalExpr settings (n + 1) depth scope (.binary t l "%" r) m = .ok (.error .moduloByZero) m₂) := by
  let S := Start.reaching m.heap scope .withoutFloats .unlimited
  have hkeeps : S.Keeps m.heap := Start.keeps_reaching hreach fun _ _ _ _ _ _ _ => trivial
  have hrun : S.KeptRun settings fuel scope p m :=
    Start.runProgram_keeps (fun _ _ => trivial) hp (fun _ _ => trivial) hkeeps
  refine ⟨fun watch hwatch => ?_, fun v hv => ?_, fun f hf => ?_, fun id name b hid hb => ?_, ?_⟩
  -- what is there as long as the run keeps to its start is no sight of a float, so the watch is lenient
  · have hvalue {v : Value} {m' : Machine} (hv : S.Admits v) (hm : S.Keeps m'.heap) :
        watch (.value v) m' = .ok () m' := by
      refine hwatch _ m' (hm.not_floatSeen rfl ?_)
      rintro _ ⟨⟩
      exact hv
    have hcall {depth : Nat} {f : Closure} {id : ScopeId} {m' : Machine} (hm : S.Keeps m'.heap) :
        watch (.call depth f id) m' = .ok () m' := hwatch _ m' (hm.not_floatSeen rfl nofun)
    exact hrun.watched ⟨watch, hvalue, fun _ _ hm => hcall hm⟩
  · have hwithin : v.Within .withoutFloats := (hrun.value v hv).1
    exact ⟨hwithin.isFloat_eq_false, hwithin⟩
  · rcases hrun.halt _ hf with hfloats | htext
    · cases hfloats
    · exact htext
  · have hwithin : b.value.Within .withoutFloats := (hrun.keeps.admits hid hb).1
    exact ⟨hwithin.isFloat_eq_false, hwithin⟩
  · intro t l r n depth scope m m₁ m₂ x hl hr
    constructor
    · exact evalExpr_integers (by decide) (by decide) hl hr rfl t
    · exact evalExpr_integers (by decide) (by decide) hl hr rfl t

/-- Ends a run at a float that a part comes to. -/
def Watch.atFloat : Watch
  | .value v => if v.unwrap.isFloat then throw .outOfFuel else pure ()
  | .call .. => pure ()

theorem Watch.atFloat_of_not_seen {scopes : ScopeId → Prop} {s : Sight} {m : Machine}
    (h : ¬ FloatSeen scopes s m) : atFloat s m = .ok () m := by
  cases s with
  | call depth f scope => rfl
  | value v =>
    have hv : ¬ v.unwrap.isFloat = true := fun hfloat => h (Or.inl ⟨v, rfl, hfloat⟩)
    exact congrArg (fun x : Eval Unit => x m) (if_neg hv)

/-- `fn f(a: int, b: int): int { return a / b; } f(1, 0);` comes to an error, and no float is seen.  A
    program that is a float literal has it seen. -/
theorem integers_stay_integers_division :
    let t : Token := ⟨.ident, "", 1, 1⟩
    let name (x : String) : Name := ⟨t, x⟩
    let int (x : String) : Parameter := ⟨t, name x, ⟨t, "int"⟩⟩
    let body : Block := .mk t [.ret t (some (.binary t (.name (name "a")) "/" (.name (name "b"))))]
    let p : Program := ⟨t, [.function t (name "f") [int "a", int "b"] ⟨t, "int"⟩ body,
      .expr t (.call t (.name (name "f")) [.int t 1, .int t 0])]⟩
    let scopes := Machine.fresh.heap.Usable (Machine.fresh.heap.Reaches (· = 0))
    (p.Within .withoutFloats ∧
      (∀ id name b, Machine.fresh.heap.Reaches (· = 0) id → Machine.fresh.heap.binding? id name = some b →
        b.value.Within .withoutFloats) ∧
      NeverSees (FloatSeen scopes) {} 10 0 p .fresh ∧
      (Machine.fresh.step (runProgram {} 10 0 p)).1 = .ok (.error .divisionByZero)) ∧
    ∀ x, ¬ NeverSees (FloatSeen scopes) {} 10 0 ⟨t, [.expr t (.float t x)]⟩ .fresh := by
  intro t name int body p scopes
  have hint (x : String) : (int x).Within .withoutFloats := fun h =>
    absurd (show "int" = "float" from h) (by decide)
  have hp : p.Within .withoutFloats := by
    have hparameters : ∀ q ∈ [int "a", int "b"], q.Within .withoutFloats :=
      List.forall_mem_cons.2 ⟨hint "a", List.forall_mem_singleton.2 (hint "b")⟩
    exact ⟨⟨hparameters, ⟨trivial, trivial⟩, trivial⟩, ⟨trivial, trivial, trivial, trivial⟩, trivial⟩
  have hinside := integers_stay_integers {} 10 hp (fresh_within .withoutFloats)
  refine ⟨⟨hp, fresh_within .withoutFloats, hinside.1, rfl⟩, fun x hnever => ?_⟩
  have hrun := hnever .atFloat fun s m' h => Watch.atFloat_of_not_seen h
  cases hrun

end ScriptLang
