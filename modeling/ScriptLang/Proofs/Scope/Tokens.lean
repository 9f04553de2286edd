import ScriptLang.Proofs.Scope.Heap
import ScriptLang.Proofs.Value.Family

/-!
  Heaps with other tokens.

  A function keeps its tree, and a scope keeps functions, so values and heaps have tokens in them.  A change
  of tokens goes through all of them.

  Specification: `get?_retoken`, `alloc_retoken`, `define_retoken` and `assign_retoken`.  Each operation
  on a changed heap gives what it gives on the heap itself, changed.  Crux: `modify_retoken`, since scopes
  are found by their number and names by their text, and a change of tokens leaves both alone.
-/

namespace ScriptLang

variable {τ : Token → Token}

/-! ## Values -/

/-- The same function with other tokens. -/
def Closure.retoken (τ : Token → Token) (f : Closure) : Closure := f.copy τ f.id f.scope

/-- Only functions have tokens in them. -/
def Value.retoken (τ : Token → Token) : Value → Value
  | .int n => .int n
  | .float x => .float x
  | .bool b => .bool b
  | .str s => .str s
  | .null => .null
  | .function f => .function (f.retoken τ)
  | .returned v => .returned (v.retoken τ)
  | .error e => .error e

theorem Value.retoken_of_plain {v : Value} (h : v.Plain) : v.retoken τ = v := by
  cases v with
  | function f | returned u => exact h.elim
  | int n | float x | bool b | str s | null | error e => rfl

theorem Value.retoken_id (v : Value) : v.retoken id = v := by
  induction v with
  | function f => exact congrArg Value.function (f.copy_id f.id f.scope)
  | returned v ih => exact congrArg Value.returned ih
  | int n | float x | bool b | str s | null | error e => rfl

/-- What is shown of a function is its signature, in which there are no tokens. -/
theorem Value.text_retoken (v : Value) : (v.retoken τ).text = v.text := by
  induction v with
  | function f => exact congrArg Except.ok (f.text_copy τ f.id f.scope)
  | returned v ih => exact ih
  | int n | float x | bool b | str s | null | error e => rfl

theorem Value.unwrap_retoken (v : Value) : (v.retoken τ).unwrap = v.unwrap.retoken τ := by cases v <;> rfl

/-! ## Scopes -/

def Binding.retoken (τ : Token → Token) (b : Binding) : Binding := ⟨b.value.retoken τ, b.constant⟩

/-- The scope around is the same, and so are the names. -/
def Scope.retoken (τ : Token → Token) (s : Scope) : Scope :=
  ⟨s.outer, s.bindings.map fun p => (p.1, p.2.retoken τ)⟩

/-- A name is looked up by its text. -/
theorem Scope.find?_retoken (s : Scope) (name : String) :
    (s.retoken τ).find? name = (s.find? name).map (Binding.retoken τ) := by
  show List.lookup name (s.bindings.map _) = (List.lookup name s.bindings).map _
  induction s.bindings with
  | nil => rfl
  | cons p rest ih =>
    rw [List.map_cons, List.lookup_cons, List.lookup_cons]
    cases name == p.1 with
    | true => rfl
    | false => exact ih

theorem Scope.update_retoken (s : Scope) (name : String) (v : Value) :
    (s.update name v).retoken τ = (s.retoken τ).update name (v.retoken τ) := by
  unfold Scope.update Scope.retoken
  simp only [List.map_map, Scope.mk.injEq, true_and]
  refine List.map_congr_left fun p _ => ?_
  show (p.1, (if p.1 = name then { p.2 with value := v } else p.2).retoken τ) = (p.1, if p.1 = name then _ else _)
  split <;> rfl

/-- No change of tokens leaves everything as it is. -/
theorem Scope.retoken_id (s : Scope) : s.retoken id = s := by
  have hbinding (p : String × Binding) : (p.1, p.2.retoken id) = p := by
    obtain ⟨name, value, constant⟩ := p
    exact congrArg (fun v => (name, (⟨v, constant⟩ : Binding))) value.retoken_id
  obtain ⟨outer, bindings⟩ := s
  exact congrArg (Scope.mk outer) (List.map_id'' hbinding bindings)

/-! ## Heaps -/

/-- Functions keep their numbers, and scopes their places. -/
def Heap.retoken (τ : Token → Token) (h : Heap) : Heap := ⟨h.scopes.map (Scope.retoken τ), h.functions⟩

theorem Heap.retoken_id (h : Heap) : h.retoken id = h := by
  have hscope : Scope.retoken id = id := funext Scope.retoken_id
  unfold Heap.retoken
  rw [hscope, Array.map_id]

namespace Heap

variable (h : Heap) (id : ScopeId) (name : String)

theorem getElem?_retoken : (h.retoken τ).scopes[id]? = h.scopes[id]?.map (Scope.retoken τ) := Array.getElem?_map

theorem binding?_retoken : (h.retoken τ).binding? id name = (h.binding? id name).map (Binding.retoken τ) := by
  unfold binding?
  rw [getElem?_retoken]
  cases h.scopes[id]? with
  | none => rfl
  | some s => exact s.find?_retoken name

/-- The scopes around a scope are the same. -/
theorem chainUpTo_retoken (fuel : Nat) : (h.retoken τ).chainUpTo fuel id = h.chainUpTo fuel id := by
  induction fuel generalizing id with
  | zero => rfl
  | succ fuel ih =>
    unfold chainUpTo
    rw [getElem?_retoken]
    cases h.scopes[id]? with
    | none => rfl
    | some s =>
      obtain ⟨outer, bindings⟩ := s
      cases outer with
      | none => rfl
      | some o => exact congrArg (id :: ·) (ih o)

/-- A name is found in the same scope. -/
theorem resolve?_retoken :
    (h.retoken τ).resolve? id name = (h.resolve? id name).map fun r => (r.1, r.2.retoken τ) := by
  have hsize : (h.retoken τ).scopes.size = h.scopes.size := Array.size_map
  unfold resolve? chain
  rw [hsize, chainUpTo_retoken, List.map_findSome?]
  congr 1
  funext s
  rw [binding?_retoken, Function.comp_apply, Option.map_map, Option.map_map]
  rfl

theorem get?_retoken : (h.retoken τ).get? id name = (h.get? id name).map (Value.retoken τ) := by
  unfold get?
  rw [resolve?_retoken, Option.map_map, Option.map_map]
  rfl

/-- A new scope has no tokens in it. -/
theorem alloc_retoken (outer : Option ScopeId) :
    (h.retoken τ).alloc outer = ((h.alloc outer).1, (h.alloc outer).2.retoken τ) := by
  show ((h.scopes.map (Scope.retoken τ)).size, _) = (h.scopes.size, _)
  rw [Array.size_map]
  show (h.scopes.size, (⟨(h.scopes.map (Scope.retoken τ)).push ⟨outer, []⟩, h.functions⟩ : Heap)) =
    (h.scopes.size, ⟨(h.scopes.push ⟨outer, []⟩).map (Scope.retoken τ), h.functions⟩)
  rw [Array.map_push]
  rfl

/-- A change of one scope before the tokens are changed is a change of that scope afterwards. -/
theorem modify_retoken {f g : Scope → Scope} (hfg : ∀ s, (f s).retoken τ = g (s.retoken τ)) :
    (h.scopes.modify id f).map (Scope.retoken τ) = (h.retoken τ).scopes.modify id g := by
  refine Array.ext_getElem? fun i => ?_
  rw [Array.getElem?_map, Array.getElem?_modify, Array.getElem?_modify, getElem?_retoken]
  split
  · rw [Option.map_map, Option.map_map]
    exact congrArg (fun k => h.scopes[i]?.map k) (funext hfg)
  · rfl

/-- A declaration that is refused changes nothing, and any other changes one scope. -/
theorem define_retoken (v : Value) (constant : Bool) : (h.retoken τ).define id name (v.retoken τ) constant =
    ((h.define id name v constant).1.retoken τ, (h.define id name v constant).2.retoken τ) := by
  unfold define
  rw [binding?_retoken, Option.isSome_map]
  cases (h.binding? id name).isSome with
  | true => rfl
  | false =>
    have hmodify : (h.scopes.modify id (·.insert name ⟨v, constant⟩)).map (Scope.retoken τ) =
        (h.retoken τ).scopes.modify id (·.insert name ⟨v.retoken τ, constant⟩) :=
      h.modify_retoken id fun _ => rfl
    exact congrArg (fun scopes => (v.retoken τ, (⟨scopes, h.functions⟩ : Heap))) hmodify.symm

theorem assign_retoken (v : Value) : (h.retoken τ).assign id name (v.retoken τ) =
    ((h.assign id name v).1.retoken τ, (h.assign id name v).2.retoken τ) := by
  unfold assign
  rw [resolve?_retoken]
  cases h.resolve? id name with
  -- an undeclared name is an error, and so is a constant
  | none => rfl
  | some r =>
    obtain ⟨owner, old, constant⟩ := r
    cases constant with
    | true => rfl
    | false =>
      have hmodify : (h.scopes.modify owner (·.update name v)).map (Scope.retoken τ) =
          (h.retoken τ).scopes.modify owner (·.update name (v.retoken τ)) :=
        h.modify_retoken owner fun s => s.update_retoken name v
      exact congrArg (fun scopes => (v.retoken τ, (⟨scopes, h.functions⟩ : Heap))) hmodify.symm

end Heap

end ScriptLang
