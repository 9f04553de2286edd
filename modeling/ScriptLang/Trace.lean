import ScriptLang.Diagnostic

/-!
  The trace of a run.

  A run can leave a trace of what it did, at one of three levels of detail: the start and the result
  of the program; declarations, calls and their results; branches and loop iterations.  Values appear
  in it as they are shown.
-/

namespace ScriptLang

/-- The three loops. -/
inductive LoopKind
  | whileLoop
  | doLoop
  | forLoop
  deriving DecidableEq, Repr

/-- What the trace calls a loop. -/
def LoopKind.word : LoopKind → String
  | whileLoop => "while"
  | doLoop => "do-while"
  | forLoop => "for"

/-- One event of a run. -/
inductive TraceEvent
  | started (statements : Nat)
  | finished (value : String)
  | declared (kind : DeclarationKind) (name type value : String)
  | defined (name signature : String)
  | called (function : String) (arguments : List String)
  | returned (function value : String)
  | branched (test : String) (taken : Bool)
  | iterated (loop : LoopKind) (count : Nat)
  deriving DecidableEq, Repr

namespace TraceEvent

/-- The least level of detail at which an event is recorded. -/
def level : TraceEvent → Nat
  | started _ | finished _ => 1
  | declared .. | defined .. | called .. | returned .. => 2
  | branched .. | iterated .. => 3

/-- The line of an event. -/
def line : TraceEvent → String
  | started statements => s!"run program ({statements} statements)"
  | finished value => s!"result: {value}"
  | declared kind name type value =>
    let word := match kind with
      | .var => "var"
      | .const => "const"
    s!"declare {word} {name}: {type} = {value}"
  | defined name signature => s!"define function {name}: {signature}"
  | called function arguments => s!"call {function}(" ++ ", ".intercalate arguments ++ ")"
  | returned function value => s!"return from {function}: {value}"
  | branched test taken => s!"if condition {test} -> " ++ (if taken then "True" else "False")
  | iterated loop count => s!"{loop.word} iteration {count}"

end TraceEvent

/-- The text of a trace: a line for each event. -/
def traceText (events : List TraceEvent) : String :=
  String.join (events.map fun e => e.line ++ "\n")

end ScriptLang
