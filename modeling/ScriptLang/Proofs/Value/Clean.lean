import ScriptLang.Eval.Rule
import ScriptLang.Proofs.Scope.Heap
import ScriptLang.Proofs.Tree.Shaped

/-!
  Values that are no signals, and heaps that hold no others.

  Operators make numbers, strings, booleans and errors only: `Plain`.  A value is `Clean` if it is no
  signal and, being a function, has the shape of sources.  The heap operations keep a heap clean.
-/

namespace ScriptLang

namespace Value

/-- Neither a function nor a `return`. -/
def Plain : Value → Prop
  | .function _ | .returned _ => False
  | _ => True

/-- No signal, and no function but one of the shape of sources. -/
def Clean (strict : Bool) : Value → Prop
  | .returned _ | .error _ => False
  | .function f => Parameter.Fit strict f.parameters ∧ f.body.Shaped strict
  | _ => True

/-- What an operation answers with: a clean value or an error. -/
def Answer (strict : Bool) (v : Value) : Prop := v.Clean strict ∨ ∃ e, v = .error e

variable {strict : Bool} {v : Value}

theorem Plain.answer (h : v.Plain) : v.Answer strict := by
  cases v with
  | function f | returned w => exact h.elim
  | error e => exact Or.inr ⟨e, rfl⟩
  | int n | float x | bool b | str s | null => exact Or.inl trivial

/-! ## The function in a value -/

/-- The function in a value, if there is one. -/
def closure? : Value → Option Closure
  | .function f => some f
  | .returned v => v.closure?
  | _ => none

theorem Plain.closure?_eq (h : v.Plain) : v.closure? = none := by
  cases v with
  | function f | returned w => exact h.elim
  | int n | float x | bool b | str s | null | error e => rfl

end Value

/-! ## Operators -/

theorem unaryOp_plain (op : String) (v : Value) : (unaryOp op v).Plain := by
  unfold unaryOp
  split
  · trivial
  · split <;> trivial
  · trivial

theorem stepped_cases {op : String} {v w : Value} (h : Rule.stepped op v = some w) :
    (∃ n, w = .int n) ∨ ∃ x, w = .float x := by
  cases v with
  | int n => exact Or.inl ⟨_, (Option.some.inj h).symm⟩
  | float x => exact Or.inr ⟨_, (Option.some.inj h).symm⟩
  | bool b | str s | null | function f | returned v | error e => contradiction

theorem stepped_clean {strict : Bool} {op : String} {v w : Value} (h : Rule.stepped op v = some w) :
    w.Clean strict := by
  rcases stepped_cases h with ⟨n, rfl⟩ | ⟨x, rfl⟩ <;> trivial

theorem integerOp_plain (op : String) (x y : Int) : (integerOp op x y).Plain := by
  unfold integerOp
  split
  · trivial
  · trivial
  · trivial
  · split <;> trivial
  · split <;> trivial
  · split <;> trivial

theorem operandError_plain (op : String) (a b : Value) : (operandError op a b).Plain := by
  unfold operandError
  split <;> trivial

theorem floatOp_plain {op : String} {x y : Float} {v : Value} (h : floatOp op x y = .ok v) : v.Plain := by
  unfold floatOp at h
  split at h
  · cases h; trivial
  · cases h; trivial
  · cases h; trivial
  · cases h
    split <;> trivial
  · split at h
    · cases h; trivial
    · cases hr : Number.remainder x y with
      | ok r => rw [hr] at h; cases h; trivial
      | error f => rw [hr] at h; cases h
  · split at h <;> (cases h; trivial)

theorem arithmeticOp_plain {op : String} {a b v : Value} (h : arithmeticOp op a b = .ok v) :
    v.Plain := by
  unfold arithmeticOp at h
  split at h
  · cases h
    exact integerOp_plain ..
  · split at h
    · cases h; trivial
    · cases h
      exact operandError_plain ..
  · split at h
    · rename_i x y _ _
      cases x with
      | error f => cases h
      | ok x =>
        cases y with
        | error f => cases h
        | ok y => exact floatOp_plain h
    · cases h
      exact operandError_plain ..

theorem concat_plain {a b v : Value} (h : a.concat b = .ok v) : v.Plain := by
  unfold Value.concat at h
  cases ha : a.text with
  | error f => rw [ha] at h; cases h
  | ok x =>
    cases hb : b.text with
    | error f => rw [ha, hb] at h; cases h
    | ok y => rw [ha, hb] at h; cases h; trivial

theorem binaryOp_plain {op : String} {a b v : Value} (h : binaryOp op a b = .ok v) : v.Plain := by
  unfold binaryOp at h
  split at h
  · exact concat_plain h
  · exact concat_plain h
  · cases heq : a.equal b with
    | error f => rw [heq] at h; cases h
    | ok x => rw [heq] at h; cases h; trivial
  · cases heq : a.equal b with
    | error f => rw [heq] at h; cases h
    | ok x => rw [heq] at h; cases h; trivial
  · exact arithmeticOp_plain h

/-- An argument is passed on, converted or refused. -/
theorem checkArgument_cases {function parameter declared : String} {v w : Value}
    (h : checkArgument function parameter declared v = .ok w) : w = v ∨ w.Plain := by
  unfold checkArgument at h
  split at h
  · cases h
    exact Or.inl rfl
  · split at h
    · rename_i n _
      cases hn : Number.ofInteger n with
      | error f => rw [hn] at h; cases h
      | ok x => rw [hn] at h; cases h; exact Or.inr trivial
    · dsimp only at h
      split at h
      · cases h
        exact Or.inl rfl
      · cases h
        exact Or.inr trivial

/-! ## Heaps -/

/-- Every value that is bound in some scope is clean. -/
def Heap.Clean (strict : Bool) (h : Heap) : Prop :=
  ∀ id name b, h.binding? id name = some b → b.value.Clean strict

namespace Heap.Clean

variable {strict : Bool} {h : Heap} {id : ScopeId} {name : String} {v : Value}

theorem get? (hclean : h.Clean strict) (hv : h.get? id name = some v) : v.Clean strict := by
  obtain ⟨owner, b, hb, rfl⟩ := get?_some hv
  exact hclean owner name b hb

theorem alloc (hclean : h.Clean strict) (outer : Option ScopeId) : (h.alloc outer).2.Clean strict := by
  intro i n b hb
  rw [binding?_alloc] at hb
  exact hclean i n b hb

theorem define (hclean : h.Clean strict) (hv : v.Clean strict) (constant : Bool) :
    (h.define id name v constant).2.Clean strict := by
  intro i n b hb
  rcases binding?_define hb with hold | ⟨-, rfl⟩
  · exact hclean i n b hold
  · exact hv

theorem assign (hclean : h.Clean strict) (hv : v.Clean strict) :
    (h.assign id name v).2.Clean strict := by
  intro i n b hb
  rcases binding?_assign hb with hold | hnew
  · exact hclean i n b hold
  · rwa [hnew]

end Heap.Clean

/-- A declaration answers with the value or with an error. -/
theorem Heap.define_answer {strict : Bool} {v : Value} (hv : v.Clean strict) (h : Heap) (id : ScopeId)
    (name : String) (constant : Bool) : (h.define id name v constant).1.Answer strict := by
  rcases h.define_cases id name v constant with ⟨-, heq⟩ | ⟨-, heq, -⟩
  · rw [heq]
    exact Or.inr ⟨_, rfl⟩
  · rw [heq]
    exact Or.inl hv

theorem Heap.assign_answer {strict : Bool} {v : Value} (hv : v.Clean strict) (h : Heap) (id : ScopeId)
    (name : String) : (h.assign id name v).1.Answer strict := by
  rcases h.assign_cases id name v with ⟨e, heq⟩ | ⟨owner, b, -, -, heq, -⟩
  · rw [heq]
    exact Or.inr ⟨_, rfl⟩
  · rw [heq]
    exact Or.inl hv

end ScriptLang
