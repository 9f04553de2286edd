import ScriptLang.CommandLine.Options
import ScriptLang.CommandLine.Path
import ScriptLang.Session
import ScriptLang.Tree.Describe

/-!
  What the command does.

  The command reads a program file and runs it, lists its tokens, or writes its tree beside it.  All
  this is a function of the options and of the files it meets; finding them and doing the writing is
  left to whoever calls it.
-/

namespace ScriptLang.CommandLine

/-- Why a file cannot be read or written. -/
inductive FileError
  | missing
  | isDirectory
  | notDirectory
  | notText
  /-- The name, or a part of it, has too many bytes. -/
  | nameTooLong
  /-- The name holds the character with the number zero. -/
  | nameWithZero
  /-- There is no name at all. -/
  | nameless
  deriving DecidableEq, Repr

/-- The files a command meets: the bytes of the program, and whether the files that it may write can
    be made. -/
structure Surroundings where
  program : Except FileError ByteArray
  traceFile : Except FileError Unit
  treeFile : Except FileError Unit

/-- How a command ended. -/
inductive Ending
  | exit (code : Nat)
  | halted (h : Halt)
  | fileError (e : FileError) (name : String)

/-- What a command did. -/
structure Report where
  output : String := ""
  errors : String := ""
  /-- Name and content of the files written. -/
  written : List (String × String) := []
  ending : Ending := .exit 0

namespace Options

/-- The name of the program file. -/
def programPath (o : Options) : Path := Path.ofString o.program

/-- The name of the file that receives the tree. -/
def treePath (o : Options) : Path := o.programPath.extend ".ast.json"

/-- The name of the file that receives the trace, if there is a trace to write. -/
def traceTarget (o : Options) (traceFile : Except FileError Unit) : Except Ending (Option String) :=
  if o.verbosity = 0 then .ok none
  else
    match o.traceFile, traceFile with
    | none, _ => .error (.fileError .nameless "")
    | some name, .error e => .error (.fileError e name)
    | some name, .ok () => .ok (some name)

end Options

/-- The report on a source with diagnostics. -/
def diagnosticReport (diagnostics : List Diagnostic) : Report where
  errors :=
    "Parser errors:\n" ++ String.join (diagnostics.map fun d => "  " ++ d.message ++ "\n")
  ending := .exit 1

/-- Lists the tokens of a source. -/
def listTokens (source : String) : Report where
  output := String.join ((tokenize source).map fun t => t.summary ++ "\n")

/-- Writes the tree of a source. -/
def writeTree (o : Options) (treeFile : Except FileError Unit) (source : String) : Report :=
  match parse source with
  | .error h => { ending := .halted h }
  | .ok parsed =>
    if !parsed.diagnostics.isEmpty then diagnosticReport parsed.diagnostics
    else
      let name := o.treePath.text
      match treeFile with
      | .error e => { ending := .fileError e name }
      | .ok () => { output := name ++ "\n", written := [(name, parsed.program.describe.text)] }

/-- Runs a source.  A trace file is made first, and only for a source without diagnostics. -/
def execute (o : Options) (traceFile : Except FileError Unit) (source : String) : Report :=
  match parse source with
  | .error h => { ending := .halted h }
  | .ok parsed =>
    if !parsed.diagnostics.isEmpty then diagnosticReport parsed.diagnostics
    else
      match o.traceTarget traceFile with
      | .error ending => { ending }
      | .ok target =>
        let (outcome, m) :=
          Machine.fresh.runProgram { traceLevel := o.verbosity } 0 parsed.program
        let written := target.toList.map (·, traceText m.trace.toList)
        match outcome with
        | .finished (.error e) =>
          { output := m.output, errors := "Runtime error: " ++ e.message ++ "\n", written,
            ending := .exit 1 }
        | .halted h => { output := m.output, written, ending := .halted h }
        | _ => { output := m.output, written }

/-- Carries out a request whose options are read.  A program under a name that leads nowhere is not
    found; one under a name that cannot be followed ends the command. -/
def Options.carryOut (o : Options) (files : Surroundings) : Report :=
  let name := o.programPath.text
  match files.program with
  | .error .isDirectory => { ending := .fileError .isDirectory name }
  | .error .nameTooLong => { ending := .fileError .nameTooLong name }
  | .error _ => { errors := s!"Error: file {name} not found\n", ending := .exit 1 }
  | .ok bytes =>
    match readSource? bytes with
    | none => { ending := .fileError .notText name }
    | some source =>
      match o.mode with
      | .tokens => listTokens source
      | .tree => writeTree o files.treeFile source
      | .run => execute o files.traceFile source

/-- The report on a command line that cannot be carried out. -/
def UsageError.report (e : UsageError) : Report where
  errors := usage ++ "rubric: error: " ++ e.message ++ "\n"
  ending := .exit 2

/-- The report on a request for help. -/
def helpReport : Report where
  output := helpText

/-- Carries out a command line; `meet` finds the files that a request with the given options meets. -/
def command {m : Type → Type} [Monad m] (meet : Options → m Surroundings) (words : List String) :
    m Report :=
  match Request.ofWords words with
  | .error e => return e.report
  | .ok .help => return helpReport
  | .ok (.execute o) => return o.carryOut (← meet o)

end ScriptLang.CommandLine
