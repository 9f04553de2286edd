import ScriptLang.Proofs.Tree.Tokens
import ScriptLang.Proofs.Value.Within

/-!
  The values of several runs.

  One tree is run several times: in heaps whose scopes and functions have other numbers, with other tokens
  in it, under other settings.  A `Frame` says which scopes and which functions of these runs belong
  together; a family `v : ι → Value` gives the value of each run.  The values of a family belong together
  if they are one number, string, boolean, `null` or error, or are functions with one text whose numbers
  and scopes belong together, or are returns of such values.

  Nothing that is done with values tells the members of such a family apart: they are shown alike, count
  alike as true, and operators and parameters treat them alike.  The crux is `==`, which compares
  functions by their numbers; therefore numbers that belong together are the same in all runs or in none.
-/

namespace ScriptLang

variable {ι α : Type}

/-- How much is left of the bound on steps. -/
structure Budget where
  /-- The bound does for a tree of this height inside `depth` calls. -/
  Enough : (fuel depth height : Nat) → Prop
  /-- Functions may have bodies of this height. -/
  Short : Nat → Prop
  /-- A call inside `depth` others may run its body. -/
  Calls : Nat → Prop
  short : ∀ {fuel depth height}, Enough fuel depth height → Short height
  short_of_le : ∀ {height height'}, Short height → height' ≤ height → Short height'
  part : ∀ {fuel depth height height'}, Enough (fuel + 1) depth height → height' < height →
    Enough fuel depth height'
  body : ∀ {fuel depth height}, Enough (fuel + 1) depth 1 → Calls depth → Short height →
    Enough fuel (depth + 1) height

/-- Runs that may be cut off anywhere. -/
def Budget.unlimited : Budget where
  Enough _ _ _ := True
  Short _ := True
  Calls _ := True
  short _ := trivial
  short_of_le _ _ := trivial
  part _ _ := trivial
  body _ _ _ := trivial

/-- What belongs together in several runs, and what trees and values they have to do with. -/
structure Frame (ι : Type) where
  /-- Any one of the runs. -/
  origin : ι
  /-- What is known of scopes and functions at some point of the runs. -/
  World : Type
  Later : World → World → Prop
  later_trans : ∀ {w w' w''}, Later w w' → Later w' w'' → Later w w''
  /-- The scopes that names may be read and assigned from. -/
  Sees : World → (ι → ScopeId) → Prop
  /-- The scopes that names may be declared in. -/
  Owns : World → (ι → ScopeId) → Prop
  /-- The numbers of one function. -/
  Same : World → (ι → Nat) → Prop
  owns_sees : ∀ {w scope}, Owns w scope → Sees w scope
  sees_later : ∀ {w w' scope}, Sees w scope → Later w w' → Sees w' scope
  owns_later : ∀ {w w' scope}, Owns w scope → Later w w' → Owns w' scope
  same_later : ∀ {w w' number}, Same w number → Later w w' → Same w' number
  same_iff : ∀ {w number number'}, Same w number → Same w number' →
    ∀ i j, number i = number' i ↔ number j = number' j
  /-- What each run has in the place of a token. -/
  tokens : ι → Token → Token
  features : Features
  budget : Budget
  /-- The values that scopes may hold. -/
  Stored : (ι → Value) → Prop
  stored_plain : ∀ {v}, v.Plain → v.isError = false → Stored fun _ => v
  stored_function : ∀ f : ι → Closure, Stored fun i => .function (f i)
  stored_returned : ∀ {v}, Stored (fun i => .returned (v i)) → Stored v

/-- The same function with other tokens, under another number and in another scope. -/
def Closure.copy (f : Closure) (τ : Token → Token) (id : Nat) (scope : ScopeId) : Closure :=
  ⟨id, f.name, f.parameters.map (Parameter.retoken τ), f.returns.retoken τ, f.body.retoken τ, scope⟩

namespace Closure

variable (f : Closure) (τ : Token → Token) (number : Nat) (scope : ScopeId)

theorem signature_copy : (f.copy τ number scope).signature = f.signature := declaredSignature_retoken τ _ _

theorem text_copy : (f.copy τ number scope).text = f.text := by
  unfold Closure.text
  rw [show (f.copy τ number scope).parameters = f.parameters.map (Parameter.retoken τ) from rfl, List.map_map]
  rfl

theorem copy_id : f.copy (fun t => t) number scope = { f with id := number, scope := scope } := by
  have hparameters : f.parameters.map (Parameter.retoken fun t => t) = f.parameters := List.map_id _
  have hbody : f.body.retoken (fun t => t) = f.body := f.body.retoken_id
  unfold Closure.copy
  rw [hparameters, hbody]
  rfl

end Closure

/-! ## How values are compared -/

section Compared

variable {u : Value} (v : Value) (f : Closure)

theorem Value.equal_returned_left :
    (Value.returned u).equal v = do return (← (Value.returned u).text) == (← v.text) := by
  cases v <;> rfl

theorem Value.equal_returned_right :
    v.equal (.returned u) = do return (← v.text) == (← (Value.returned u).text) := by
  cases v <;> rfl

theorem Value.equal_function_left (hu : u.Plain) :
    (Value.function f).equal u = do return (← (Value.function f).text) == (← u.text) := by
  cases u with
  | function f | returned u => exact hu.elim
  | int n | float x | bool b | str s | null | error e => rfl

theorem Value.equal_function_right (hu : u.Plain) :
    u.equal (.function f) = do return (← u.text) == (← (Value.function f).text) := by
  cases u with
  | function f | returned u => exact hu.elim
  | int n | float x | bool b | str s | null | error e => rfl

end Compared

/-! ## Families -/

namespace Frame

/-- Functions that belong together: copies of one. -/
inductive Closures (F : Frame ι) (w : F.World) : (ι → Closure) → Prop
  | copies {f : Closure} {number : ι → Nat} {scope : ι → ScopeId} : F.Same w number → F.Sees w scope →
      f.Within F.features → F.budget.Short f.body.height →
      F.Closures w fun i => f.copy (F.tokens i) (number i) (scope i)

/-- Values that belong together. -/
inductive Values (F : Frame ι) (w : F.World) : (ι → Value) → Prop
  | plain {v : Value} : v.Plain → v.Allowed F.features → F.Values w fun _ => v
  | function {f : ι → Closure} : F.Closures w f → F.Values w fun i => .function (f i)
  | returned {v : ι → Value} : F.Values w v → F.Values w fun i => .returned (v i)

/-- Values that may be stored. -/
structure Kept (F : Frame ι) (w : F.World) (v : ι → Value) : Prop where
  values : F.Values w v
  stored : F.Stored v

/-- What a part of a tree comes to: values that may be stored, or an error.  A statement may also come to
    a `return` of values that may be stored, if `returns` allows for one. -/
inductive Outcome (F : Frame ι) (returns : Bool) (w : F.World) : (ι → Value) → Prop
  | kept {v : ι → Value} : F.Kept w v → F.Outcome returns w v
  | error (e : RuntimeError) : F.Outcome returns w fun _ => .error e
  | returned {v : ι → Value} : returns = true → F.Kept w v → F.Outcome returns w fun i => .returned (v i)

/-- What a name is bound to, if it is. -/
inductive Found (F : Frame ι) (w : F.World) : (ι → Option Value) → Prop
  | none : F.Found w fun _ => Option.none
  | some {v : ι → Value} : F.Kept w v → F.Found w fun i => Option.some (v i)

/-- What the test of a loop says. -/
inductive Decided (F : Frame ι) (w : F.World) : (ι → Rule.Verdict) → Prop
  | leave {v : Value} : v.Plain → v.Allowed F.features → F.Decided w fun _ => .leave v
  | goOn : F.Decided w fun _ => .goOn

end Frame

/-- Lists of several runs whose members belong together one by one. -/
inductive Aligned (P : (ι → α) → Prop) : (ι → List α) → Prop
  | nil : Aligned P fun _ => []
  | cons {a : ι → α} {as : ι → List α} : P a → Aligned P as → Aligned P fun i => a i :: as i

theorem Aligned.imp {P Q : (ι → α) → Prop} {as : ι → List α} (h : Aligned P as) (hPQ : ∀ a, P a → Q a) :
    Aligned Q as := by
  induction h with
  | nil => exact .nil
  | cons ha _ ih => exact .cons (hPQ _ ha) ih

theorem Aligned.length {P : (ι → α) → Prop} {as : ι → List α} (h : Aligned P as) (i j : ι) :
    (as i).length = (as j).length := by
  induction h with
  | nil => rfl
  | cons _ _ ih => exact congrArg (· + 1) ih

namespace Frame

variable {F : Frame ι} {w w' : F.World} {v a b : ι → Value} {returns : Bool}

/-! ## Later worlds -/

theorem Closures.later {f : ι → Closure} (h : F.Closures w f) (hw : F.Later w w') : F.Closures w' f := by
  obtain ⟨hnumber, hscope, hwithin, hshort⟩ := h
  exact .copies (F.same_later hnumber hw) (F.sees_later hscope hw) hwithin hshort

theorem Values.later (h : F.Values w v) (hw : F.Later w w') : F.Values w' v := by
  induction h with
  | plain hv hallowed => exact .plain hv hallowed
  | function hf => exact .function (hf.later hw)
  | returned _ ih => exact .returned ih

theorem Kept.later (h : F.Kept w v) (hw : F.Later w w') : F.Kept w' v := ⟨h.values.later hw, h.stored⟩

theorem Outcome.later (h : F.Outcome returns w v) (hw : F.Later w w') : F.Outcome returns w' v := by
  cases h with
  | kept hv => exact .kept (hv.later hw)
  | error e => exact .error e
  | returned hr hv => exact .returned hr (hv.later hw)

theorem Found.later {o : ι → Option Value} (h : F.Found w o) (hw : F.Later w w') : F.Found w' o := by
  cases h with
  | none => exact .none
  | some hv => exact .some (hv.later hw)

/-! ## Outcomes -/

theorem values_error (e : RuntimeError) : F.Values w fun _ => .error e := .plain trivial nofun

theorem Outcome.values (h : F.Outcome returns w v) : F.Values w v := by
  cases h with
  | kept hv => exact hv.values
  | error e => exact values_error e
  | returned _ hv => exact .returned hv.values

/-- Without a `return` only an error cannot be stored. -/
theorem Outcome.kept_of_not_error (h : F.Outcome false w v) (hv : (v F.origin).isError = false) :
    F.Kept w v := by
  cases h with
  | kept h => exact h
  | error e => cases hv
  | returned hr _ => cases hr

theorem Outcome.of_answer (h : F.Outcome false w v) : F.Outcome returns w v := by
  cases h with
  | kept h => exact .kept h
  | error e => exact .error e
  | returned hr _ => cases hr

/-- Numbers, strings, booleans, `null` and errors. -/
theorem outcome_plain {v : Value} (hv : v.Plain) (hallowed : v.Allowed F.features) :
    F.Outcome returns w fun _ => v := by
  cases herror : v.isError with
  | false => exact .kept ⟨.plain hv hallowed, F.stored_plain hv herror⟩
  | true =>
    cases v with
    | error e => exact .error e
    | int n | float x | bool b | str s | null | function f | returned u => cases herror

theorem outcome_null : F.Outcome returns w fun _ => .null := outcome_plain trivial nofun

theorem outcome_bool (b : Bool) : F.Outcome returns w fun _ => .bool b := outcome_plain trivial nofun

theorem outcome_function {f : ι → Closure} (hf : F.Closures w f) : F.Kept w fun i => .function (f i) :=
  ⟨.function hf, F.stored_function f⟩

/-- A call comes to what its body returns. -/
theorem Outcome.unwrap (h : F.Outcome returns w v) : F.Outcome false w fun i => (v i).unwrap := by
  cases h with
  | error e => exact .error e
  | returned _ hv => exact .kept hv
  | kept hv =>
    obtain ⟨hvalues, hstored⟩ := hv
    cases hvalues with
    | @plain u hu hallowed =>
      have hsame : u.unwrap = u := by
        cases u with
        | function f | returned u => exact hu.elim
        | int n | float x | bool b | str s | null | error e => rfl
      simp only [hsame]
      exact outcome_plain hu hallowed
    | function hf => exact .kept ⟨.function hf, hstored⟩
    | returned hvalues => exact .kept ⟨hvalues, F.stored_returned hstored⟩

/-! ## What values show -/

namespace Values

theorem allowed (h : F.Values w v) (i : ι) : (v i).Allowed F.features := by
  cases h with
  | plain _ hallowed => exact hallowed
  | function _ | returned _ => exact nofun

theorem truthy (h : F.Values w v) (i j : ι) : (v i).truthy = (v j).truthy := by cases h <;> rfl

theorem isSignal (h : F.Values w v) (i j : ι) : (v i).isSignal = (v j).isSignal := by cases h <;> rfl

theorem typeName (h : F.Values w v) (i j : ι) : (v i).typeName = (v j).typeName := by cases h <;> rfl

theorem isText (h : F.Values w v) (i j : ι) : (v i).isText = (v j).isText := by cases h <;> rfl

theorem text (h : F.Values w v) (i j : ι) : (v i).text = (v j).text := by
  induction h with
  | plain _ _ => rfl
  | function hf =>
    obtain @⟨f, number, scope⟩ := hf
    show Except.ok (f.copy (F.tokens i) (number i) (scope i)).text =
      Except.ok (f.copy (F.tokens j) (number j) (scope j)).text
    rw [f.text_copy, f.text_copy]
  | returned _ ih => exact ih

/-! ## Operators -/

theorem stepped (h : F.Values w v) (op : String) (i j : ι) :
    Rule.stepped op (v i) = Rule.stepped op (v j) := by
  cases h <;> rfl

theorem unaryOp (h : F.Values w v) (op : String) (i j : ι) :
    unaryOp op (v i) = ScriptLang.unaryOp op (v j) := by
  cases h <;> rfl

theorem concat (ha : F.Values w a) (hb : F.Values w b) (i j : ι) :
    (a i).concat (b i) = (a j).concat (b j) := by
  unfold Value.concat
  rw [ha.text i j, hb.text i j]

/-- Two functions are the same in all runs or in none; else what is shown is compared. -/
theorem equal (ha : F.Values w a) (hb : F.Values w b) (i j : ι) : (a i).equal (b i) = (a j).equal (b j) := by
  have htext := ha.text i j
  have htext' := hb.text i j
  cases ha with
  | returned _ => simp only [Value.equal_returned_left, htext, htext']
  | @plain u hu _ =>
    cases hb with
    | plain _ _ => rfl
    | function _ => simp only [Value.equal_function_right _ hu, htext']
    | returned _ => simp only [Value.equal_returned_right, htext']
  | function hf =>
    cases hb with
    | returned _ => simp only [Value.equal_returned_right, htext, htext']
    | plain hu _ => simp only [Value.equal_function_left _ hu, htext]
    | function hg =>
      obtain @⟨f, number, scope, hnumber⟩ := hf
      obtain @⟨g, number', scope', hnumber'⟩ := hg
      -- functions are compared by their numbers
      have hiff : (number i == number' i) = (number j == number' j) := by
        rw [Bool.eq_iff_iff, beq_iff_eq, beq_iff_eq]
        exact F.same_iff hnumber hnumber' i j
      exact congrArg Except.ok hiff

theorem arithmeticOp (ha : F.Values w a) (hb : F.Values w b) (op : String) (i j : ι) :
    arithmeticOp op (a i) (b i) = ScriptLang.arithmeticOp op (a j) (b j) := by
  cases ha with
  | @plain u _ _ =>
    cases hb with
    | plain _ _ => rfl
    | function _ | returned _ => cases u <;> rfl
  | function _ | returned _ =>
    cases hb with
    | @plain u _ _ => cases u <;> rfl
    | function _ | returned _ => rfl

theorem binaryOp (ha : F.Values w a) (hb : F.Values w b) (op : String) (i j : ι) :
    binaryOp op (a i) (b i) = ScriptLang.binaryOp op (a j) (b j) := by
  by_cases hplus : op = "+"
  · rw [hplus, binaryOp_plus, binaryOp_plus, ha.isText i j, hb.isText i j, ha.concat hb i j,
      ha.arithmeticOp hb _ i j]
  by_cases heq : op = "=="
  · subst heq
    show (do return Value.bool (← (a i).equal (b i))) = (do return Value.bool (← (a j).equal (b j)))
    rw [ha.equal hb i j]
  by_cases hne : op = "!="
  · subst hne
    show (do return Value.bool !(← (a i).equal (b i))) = (do return Value.bool !(← (a j).equal (b j)))
    rw [ha.equal hb i j]
  rw [binaryOp_of_ne hplus heq hne, binaryOp_of_ne hplus heq hne, ha.arithmeticOp hb _ i j]

/-! ## Arguments -/

theorem typeAgainst (h : F.Values w v) (declared : String) (i j : ι) :
    (v i).typeAgainst declared = (v j).typeAgainst declared := by
  cases h with
  | plain _ _ | returned _ => rfl
  | function hf =>
    obtain @⟨f, number, scope⟩ := hf
    show (if declared.startsWith "fn(" then (f.copy _ (number i) (scope i)).signature else "function") =
      if declared.startsWith "fn(" then (f.copy _ (number j) (scope j)).signature else "function"
    rw [f.signature_copy, f.signature_copy]

/-- Values are one, or are functions, which are no integers. -/
theorem plain_or_ne_int (h : F.Values w v) : (∃ u : Value, u.Plain ∧ v = fun _ => u) ∨ ∀ i n, v i ≠ .int n := by
  cases h with
  | @plain u hu _ => exact Or.inl ⟨u, hu, rfl⟩
  | function _ | returned _ => exact Or.inr fun _ _ => nofun

/-- A parameter takes the arguments of all runs as they are, or makes the same of all of them. -/
theorem checkArgument (h : F.Values w v) (function parameter declared : String) :
    (∀ i, checkArgument function parameter declared (v i) = .ok (v i)) ∨
    (∀ i j, ScriptLang.checkArgument function parameter declared (v i) =
        ScriptLang.checkArgument function parameter declared (v j)) ∧
      ∀ i u, ScriptLang.checkArgument function parameter declared (v i) = .ok u → u.Plain := by
  rcases h.plain_or_ne_int with ⟨u, hu, rfl⟩ | hint
  · refine Or.inr ⟨fun _ _ => rfl, fun _ u' hu' => ?_⟩
    rcases checkArgument_cases hu' with rfl | hu'
    · exact hu
    · exact hu'
  have hcases (i : ι) := checkArgument_of_ne_int (hint i) function parameter declared
  have hsuits (i j : ι) : (v i).Suits declared ↔ (v j).Suits declared := by
    unfold Value.Suits
    rw [h.typeAgainst declared i j]
  by_cases hsuit : (v F.origin).Suits declared
  · exact Or.inl fun i => (hcases i).1 ((hsuits i F.origin).2 hsuit)
  · have hrefused (i : ι) := (hcases i).2 (mt (hsuits i F.origin).1 hsuit)
    refine Or.inr ⟨fun i j => ?_, fun i u hu => ?_⟩
    · rw [hrefused i, hrefused j, h.typeAgainst declared i j]
    · rw [hrefused i] at hu
      cases hu
      trivial

end Values

/-- One step up or down makes a number, the same in all runs. -/
theorem Kept.stepped {op : String} {new : Value} (h : F.Kept w v)
    (hstep : Rule.stepped op (v F.origin) = some new) : F.Kept w fun _ => new := by
  have hallowed := (h.values.allowed F.origin).stepped hstep
  rcases stepped_cases hstep with ⟨n, rfl⟩ | ⟨x, rfl⟩
  · exact ⟨.plain trivial hallowed, F.stored_plain trivial rfl⟩
  · exact ⟨.plain trivial hallowed, F.stored_plain trivial rfl⟩

end Frame

theorem Aligned.texts {F : Frame ι} {w : F.World} {returns : Bool} {vs : ι → List Value}
    (h : Aligned (F.Outcome returns w) vs) (i j : ι) : Rule.texts (vs i) = Rule.texts (vs j) := by
  induction h with
  | nil => rfl
  | cons hv _ ih =>
    unfold Rule.texts
    rw [hv.values.text i j, ih]

end ScriptLang
