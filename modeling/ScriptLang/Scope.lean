import ScriptLang.Value

/-!
  Scopes and the heap that holds them.

  A scope binds names to values and has an outer scope, except for a root.  Functions keep the scope
  they were made in, so scopes are shared; they live in one heap and are known by number.  A name is
  looked up along the chain of outer scopes, and the nearest scope that binds it counts.
-/

namespace ScriptLang

/-- What a name is bound to. -/
structure Binding where
  value : Value
  constant : Bool

/-- One scope: its own bindings and the scope around it. -/
structure Scope where
  outer : Option ScopeId
  bindings : List (String × Binding)

namespace Scope

/-- The binding of a name in the scope itself. -/
def find? (s : Scope) (name : String) : Option Binding := s.bindings.lookup name

/-- Whether the scope itself binds the name. -/
def binds (s : Scope) (name : String) : Bool := (s.find? name).isSome

/-- Binds a new name. -/
def insert (s : Scope) (name : String) (b : Binding) : Scope :=
  { s with bindings := (name, b) :: s.bindings }

/-- Changes the value of a name that the scope binds. -/
def update (s : Scope) (name : String) (v : Value) : Scope :=
  { s with
    bindings := s.bindings.map fun (n, b) => (n, if n = name then { b with value := v } else b) }

@[simp] theorem outer_insert (s : Scope) (name : String) (b : Binding) :
    (s.insert name b).outer = s.outer := rfl

@[simp] theorem outer_update (s : Scope) (name : String) (v : Value) :
    (s.update name v).outer = s.outer := rfl

/-- A new binding hides every other one of its name and no other name. -/
theorem find?_insert (s : Scope) (name : String) (b : Binding) (n : String) :
    (s.insert name b).find? n = if n = name then some b else s.find? n := by
  show List.lookup n ((name, b) :: s.bindings) = _
  rw [List.lookup_cons]
  by_cases h : n = name
  · rw [if_pos h, beq_iff_eq.2 h]
  · rw [if_neg h, beq_eq_false_iff_ne.2 h]
    rfl

/-- A new value changes what one name is bound to, if it is bound, and keeps whether it is
    constant. -/
theorem find?_update (s : Scope) (name : String) (v : Value) (n : String) :
    (s.update name v).find? n =
      (s.find? n).map fun b => if n = name then { b with value := v } else b := by
  show List.lookup n (s.bindings.map _) = (List.lookup n s.bindings).map _
  induction s.bindings with
  | nil => rfl
  | cons p rest ih =>
    obtain ⟨m, b⟩ := p
    rw [List.map_cons, List.lookup_cons, List.lookup_cons]
    by_cases h : n = m
    · subst h
      rw [beq_self_eq_true n]
      rfl
    · rw [beq_eq_false_iff_ne.2 h]
      exact ih

end Scope

/-- All scopes by number, and how many functions were made so far. -/
structure Heap where
  scopes : Array Scope
  functions : Nat

namespace Heap

/-- The heap without scopes. -/
def empty : Heap := ⟨#[], 0⟩

/-- Makes a scope inside `outer`. -/
def alloc (h : Heap) (outer : Option ScopeId) : ScopeId × Heap :=
  let ⟨scopes, functions⟩ := h
  (scopes.size, ⟨scopes.push ⟨outer, []⟩, functions⟩)

/-- Reserves the identity of a new function. -/
def allocFunction (h : Heap) : Nat × Heap :=
  let ⟨scopes, functions⟩ := h
  (functions, ⟨scopes, functions + 1⟩)

/-- The scopes from `id` outwards, at most `fuel` of them. -/
def chainUpTo (h : Heap) : (fuel : Nat) → ScopeId → List ScopeId
  | 0, _ => []
  | fuel + 1, id =>
    match h.scopes[id]? with
    | none => []
    | some s =>
      match s.outer with
      | none => [id]
      | some outer => id :: h.chainUpTo fuel outer

/-- The scopes from `id` outwards.  A chain goes in no circle, so it has no more scopes than the
    heap. -/
def chain (h : Heap) (id : ScopeId) : List ScopeId := h.chainUpTo h.scopes.size id

/-- The binding of a name in one scope. -/
def binding? (h : Heap) (id : ScopeId) (name : String) : Option Binding :=
  h.scopes[id]?.bind (·.find? name)

/-- The nearest scope on the chain of `id` that binds the name, with the binding. -/
def resolve? (h : Heap) (id : ScopeId) (name : String) : Option (ScopeId × Binding) :=
  (h.chain id).findSome? fun s => (h.binding? s name).map (s, ·)

/-- The value of a name seen from a scope. -/
def get? (h : Heap) (id : ScopeId) (name : String) : Option Value :=
  (h.resolve? id name).map (·.2.value)

/-- Declares a name in a scope and gives the value back, or gives an error if the scope already
    declares it. -/
def define (h : Heap) (id : ScopeId) (name : String) (v : Value) (constant : Bool) : Value × Heap :=
  if (h.binding? id name).isSome then (.error (.redeclared name), h)
  else
    let ⟨scopes, functions⟩ := h
    (v, ⟨scopes.modify id (·.insert name ⟨v, constant⟩), functions⟩)

/-- Assigns to a name seen from a scope and gives the value back, or gives an error if the name is a
    constant or unknown. -/
def assign (h : Heap) (id : ScopeId) (name : String) (v : Value) : Value × Heap :=
  match h.resolve? id name with
  | none => (.error (.unknownTarget name), h)
  | some (owner, b) =>
    if b.constant then (.error (.constantTarget name), h)
    else
      let ⟨scopes, functions⟩ := h
      (v, ⟨scopes.modify owner (·.update name v), functions⟩)

/-- The names a scope itself binds, sorted by code points, with their bindings. -/
def bindings (h : Heap) (id : ScopeId) : List (String × Binding) :=
  match h.scopes[id]? with
  | none => []
  | some s => s.bindings.mergeSort fun a b => a.1 ≤ b.1

end Heap

end ScriptLang
