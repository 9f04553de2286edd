import ScriptLang.Eval.Run
import ScriptLang.Parse.Program
import ScriptLang.Text.Newline

/-!
  Sessions: running source texts one after another.

  A session is a machine with a scope in which programs are run.  A program with diagnostics is not
  run at all.  The declarations of one program are there for the next, and the functions it made keep
  their scopes.
-/

namespace ScriptLang

/-- The bound on the steps of a run when none is asked for; no run gets near it. -/
def ampleFuel : Nat := Nat.pow 2 60

/-- How running a source text ended. -/
inductive Outcome
  | rejected (diagnostics : List Diagnostic)
  | finished (value : Value)
  | halted (h : Halt)

namespace Machine

/-- A machine with one root scope, which has the number 0. -/
def fresh : Machine := ⟨(Heap.empty.alloc none).2, "", #[]⟩

/-- The machine with its heap alone: nothing written, nothing traced. -/
def silent (m : Machine) : Machine := ⟨m.heap, "", #[]⟩

/-- Does a step of a run. -/
def step {α : Type} (m : Machine) (run : Eval α) : Except Halt α × Machine :=
  match run m with
  | .ok a m => (.ok a, m)
  | .error h m => (.error h, m)

/-- Runs a program in a scope. -/
def runProgram (m : Machine) (settings : Settings) (scope : ScopeId) (p : Program) :
    Outcome × Machine :=
  match m.step (ScriptLang.runProgram settings ampleFuel scope p) with
  | (.ok v, m) => (.finished v, m)
  | (.error h, m) => (.halted h, m)

/-- Reads a source text and runs it in a scope if nothing is wrong with it. -/
def runSource (m : Machine) (settings : Settings) (scope : ScopeId) (source : String) :
    Outcome × Machine :=
  match parse source with
  | .error h => (.halted h, m)
  | .ok parsed =>
    if parsed.diagnostics.isEmpty then m.runProgram settings scope parsed.program
    else (.rejected parsed.diagnostics, m)

end Machine

/-- Runs a source text on its own. -/
def run (settings : Settings) (source : String) : Outcome × Machine :=
  Machine.fresh.runSource settings 0 source

/-- The text of a source file: UTF-8 with any line ends; `none` if the bytes are no text. -/
def readSource? (bytes : ByteArray) : Option String :=
  (String.fromUTF8? bytes).map Text.unifyNewlines

end ScriptLang
