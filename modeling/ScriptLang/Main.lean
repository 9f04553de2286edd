import ScriptLang.CommandLine.Command

/-!
  The command itself: reads the program file, carries the request out and writes what the report says.
-/

namespace ScriptLang.CommandLine

/-- The bytes of a file. -/
def readFile (name : String) : IO (Except FileError ByteArray) := do
  try
    return .ok (← IO.FS.readBinFile name)
  catch
    | .noFileOrDirectory .. => return .error .missing
    | _ => return .error .isDirectory

/-- Writes a file. -/
def writeFile (name content : String) : IO (Except FileError Unit) := do
  try
    IO.FS.writeFile name content
    return .ok ()
  catch
    | .noFileOrDirectory .. => return .error .missing
    | _ => return .error .isDirectory

/-- What is said about a command that ended early. -/
def Ending.complaint : Ending → String
  | .exit _ => ""
  | .halted (.fault f) => f.message ++ "\n"
  | .halted .outOfFuel => "out of steps\n"
  | .fileError .nameless _ => "the trace file has no name\n"
  | .fileError _ name => s!"cannot use file {name}\n"

/-- The exit code of a command. -/
def Ending.code : Ending → UInt32
  | .exit code => code.toUInt32
  | _ => 1

/-- Writes what a report says.  Files come first: if one of them cannot be written, nothing else is. -/
def Report.publish (r : Report) : IO UInt32 := do
  for (name, content) in r.written do
    if let .error e ← writeFile name content then
      IO.eprint (Ending.fileError e name).complaint
      return 1
  IO.print r.output
  IO.eprint (r.errors ++ r.ending.complaint)
  return r.ending.code

end ScriptLang.CommandLine

open ScriptLang.CommandLine

/-- Carries the command line out and exits with its code.  The files to be written are found out about
    when they are. -/
def main (words : List String) : IO UInt32 := do
  let meet (o : Options) : IO Surroundings := do
    return { program := ← readFile o.programPath.text, traceFile := .ok (), treeFile := .ok () }
  (← command meet words).publish
