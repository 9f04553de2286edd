import ScriptLang.Scope
import ScriptLang.Trace

/-!
  The state of a running program and the steps on it.

  A run changes the heap of scopes, adds to the output and to the trace.  It ends early only by a
  fault, or when it is cut off; what it changed until then stays.

  While a program runs the host allows ten thousand frames at once.  Frames are not counted here: their
  limit is read as a limit on the calls that are under way at once, at seven frames a call, which is what
  a call takes that is an operand of a returned expression.  How deeply expressions and blocks are nested
  inside one call does not count towards it.
-/

namespace ScriptLang

/-- How a program is run. -/
structure Settings where
  /-- Events above this level of detail are not recorded; at zero and below there is no trace. -/
  traceLevel : Int := 0
  /-- Most calls that may be under way at once: the frames of the host, seven to a call. -/
  callLimit : Nat := 10000 / 7

/-- Everything a run changes. -/
structure Machine where
  heap : Heap
  output : String
  trace : Array TraceEvent

/-- A step of a run. -/
abbrev Eval := EStateM Halt Machine

namespace Eval

/-- The bound on steps is reached. -/
def outOfFuel {α : Type} : Eval α := throw .outOfFuel

/-- A result that a fault may prevent. -/
def ofExcept {α : Type} (r : Except Fault α) : Eval α :=
  match r with
  | .ok a => return a
  | .error f => throw (.fault f)

/-- Makes a scope. -/
def newScope (outer : Option ScopeId) : Eval ScopeId :=
  modifyGet fun ⟨heap, output, trace⟩ =>
    let (id, heap) := heap.alloc outer
    (id, ⟨heap, output, trace⟩)

/-- Reserves the identity of a new function. -/
def newFunction : Eval Nat :=
  modifyGet fun ⟨heap, output, trace⟩ =>
    let (id, heap) := heap.allocFunction
    (id, ⟨heap, output, trace⟩)

/-- The value of a name seen from a scope. -/
def lookup? (scope : ScopeId) (name : String) : Eval (Option Value) :=
  return (← get).heap.get? scope name

/-- Declares a name in a scope; gives the value, or an error. -/
def define (scope : ScopeId) (name : String) (v : Value) (constant : Bool) : Eval Value :=
  modifyGet fun ⟨heap, output, trace⟩ =>
    let (result, heap) := heap.define scope name v constant
    (result, ⟨heap, output, trace⟩)

/-- Assigns to a name seen from a scope; gives the value, or an error. -/
def assign (scope : ScopeId) (name : String) (v : Value) : Eval Value :=
  modifyGet fun ⟨heap, output, trace⟩ =>
    let (result, heap) := heap.assign scope name v
    (result, ⟨heap, output, trace⟩)

/-- Writes a line of output. -/
def print (line : String) : Eval Unit :=
  modify fun ⟨heap, output, trace⟩ => ⟨heap, output ++ line ++ "\n", trace⟩

/-- Records an event of the given level if the settings ask for it.  Only then the event is made,
    which can fail where a value cannot be shown. -/
def note (settings : Settings) (level : Nat) (event : Unit → Except Fault TraceEvent) : Eval Unit := do
  if (level : Int) ≤ settings.traceLevel then
    let e ← ofExcept (event ())
    modify fun ⟨heap, output, trace⟩ => ⟨heap, output, trace.push e⟩

end Eval

end ScriptLang
