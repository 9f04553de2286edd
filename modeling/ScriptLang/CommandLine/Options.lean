import ScriptLang.Text.DecimalDigit
import ScriptLang.Text.Quoted

/-!
  The words of the command line.

  Options may stand before and behind the name of the program.  A long option may be shortened as
  long as it stays unambiguous and may carry its value behind `=`; short options may be joined, as in
  `-vv`, and the first of them may have a `=` behind it.  Behind a bare `--` every word is a name.
-/

namespace ScriptLang.CommandLine

/-! ## What can be asked for -/

/-- What an option does. -/
inductive Action
  | help
  | verbose
  | traceFile
  | tokens
  | tree
  deriving DecidableEq, Repr

namespace Action

/-- The spellings of an option. -/
def names : Action → List String
  | help => ["-h", "--help"]
  | verbose => ["-v"]
  | traceFile => ["--debug-file"]
  | tokens => ["--tokens"]
  | tree => ["--emit-ast"]

/-- What messages call an option. -/
def title (a : Action) : String := "/".intercalate a.names

/-- Whether an option has a value. -/
def takesValue : Action → Bool
  | traceFile => true
  | _ => false

/-- The option that excludes this one. -/
def rival? : Action → Option Action
  | tokens => some tree
  | tree => some tokens
  | _ => none

/-- Every spelling with its option, in the order of the usage text. -/
def table : List (String × Action) :=
  [help, verbose, traceFile, tokens, tree].flatMap fun a => a.names.map (·, a)

/-- The option with the given spelling. -/
def named? (name : String) : Option Action := table.lookup name

end Action

/-- What is done with the program. -/
inductive Mode
  | run
  | tokens
  | tree
  deriving DecidableEq, Repr

/-- A command line that can be carried out. -/
structure Options where
  verbosity : Nat
  /-- The name of the trace file; none if the command line took it away. -/
  traceFile : Option String
  mode : Mode
  program : String
  deriving DecidableEq, Repr

/-- What a command line asks for. -/
inductive Request
  | help
  | execute (o : Options)
  deriving DecidableEq, Repr

/-- What is wrong with a command line. -/
inductive UsageError
  | missingProgram
  | conflict (option other : Action)
  | unrecognized (words : List String)
  | missingValue (option : Action)
  | unusedValue (option : Action) (value : String)
  | ambiguous (word : String) (matching : List String)
  deriving DecidableEq, Repr

/-- The wording of a usage error. -/
def UsageError.message : UsageError → String
  | missingProgram => "the following arguments are required: program"
  | conflict option other => s!"argument {option.title}: not allowed with argument {other.title}"
  | unrecognized words => "unrecognized arguments: " ++ " ".intercalate words
  | missingValue option => s!"argument {option.title}: expected one argument"
  | unusedValue option value =>
    s!"argument {option.title}: ignored explicit argument " ++ Text.quote value
  | ambiguous word matching =>
    s!"ambiguous option: {word} could match " ++ ", ".intercalate matching

/-- How the command is used. -/
def usage : String :=
  "usage: rubric [-h] [-v] [--debug-file DEBUG_FILE] [--tokens | --emit-ast]\n" ++
  "              program\n"

/-- What the command is for and what its options do. -/
def helpText : String :=
  usage ++
  "\nRubric language interpreter\n" ++
  "\npositional arguments:\n" ++
  "  program               Rubric program file (.rl)\n" ++
  "\noptions:\n" ++
  "  -h, --help            show this help message and exit\n" ++
  "  -v                    increase debug verbosity (can be repeated)\n" ++
  "  --debug-file DEBUG_FILE\n" ++
  "                        file that receives the debug trace\n" ++
  "  --tokens              print the token stream and exit\n" ++
  "  --emit-ast            write <program>.ast.json and exit\n"

/-! ## Kinds of words -/

/-- A word by what it can be. -/
inductive Word
  | plain (text : String)
  /-- The first bare `--`. -/
  | terminator
  /-- An option, its full spelling, and the value that stands in the same word. -/
  | option (action : Action) (name : String) (attached : Option String)
  | unknown (text : String)
  deriving DecidableEq, Repr

/-- The text before the first `=` and the one behind it, if there is a `=`. -/
def splitEquals (word : String) : String × Option String :=
  let cs := word.toList
  match cs.dropWhile (· != '=') with
  | [] => (word, none)
  | _ :: value => (String.ofList (cs.takeWhile (· != '=')), some (String.ofList value))

/-- Whether a word that starts with a dash is a negative number, and so no option.  One line end may
    follow the number. -/
def isNegativeNumber (word : String) : Bool :=
  let digits := word.toList.drop 1
  let digits := if digits.getLast? = some '\n' then digits.dropLast else digits
  match digits.dropWhile Text.isDigit with
  | [] => !digits.isEmpty
  | '.' :: fraction => !fraction.isEmpty && fraction.all Text.isDigit
  | _ => false

/-- The options that a word other than a full spelling can stand for. -/
def candidates (word : String) : List (Action × String × Option String) :=
  if word.startsWith "--" then
    let (stem, value) := splitEquals word
    Action.table.filterMap fun (name, action) =>
      if name.startsWith stem then some (action, name, value) else none
  else
    let short := String.ofList (word.toList.take 2)
    let joined := String.ofList (word.toList.drop 2)
    Action.table.filterMap fun (name, action) =>
      if name = short then some (action, name, some joined)
      else if name.startsWith word then some (action, name, none)
      else none

/-- The kind of a word in front of a bare `--`. -/
def classify (word : String) : Except UsageError Word :=
  if ¬ word.startsWith "-" then .ok (.plain word)
  else
    match Action.named? word with
    | some action => .ok (.option action word none)
    | none =>
      if word = "-" then .ok (.plain word)
      else
        match splitEquals word with
        | (name, some value) =>
          match Action.named? name with
          | some action => .ok (.option action name (some value))
          | none => shortened word
        | (_, none) => shortened word
where
  /-- The kind of a word that starts with a dash and spells no option in full. -/
  shortened (word : String) : Except UsageError Word :=
    match candidates word with
    | [(action, name, attached)] => .ok (.option action name attached)
    | [] => .ok (if isNegativeNumber word || word.contains ' ' then .plain word else .unknown word)
    | several => .error (.ambiguous word (several.map (·.2.1)))

/-- The kinds of all words. -/
def classifyAll : List String → Except UsageError (List Word)
  | [] => .ok []
  | word :: words =>
    if word = "--" then .ok (.terminator :: words.map .plain)
    else do return (← classify word) :: (← classifyAll words)

/-! ## From words to a request -/

/-- What the words so far say. -/
structure Progress where
  verbosity : Nat := 0
  traceFile : Option String := some "debug.txt"
  chosen : List Action := []
  program : Option String := none
  /-- Words that mean nothing, in order. -/
  leftover : List String := []

/-- An option that was given, with its value. -/
structure Given where
  action : Action
  value : Option String
  deriving DecidableEq, Repr

namespace Given

/-- An option without a value. -/
def flag (action : Action) : Given := ⟨action, none⟩

/-- An option with a value.  Two dashes never count as a value, so they leave it with none. -/
def withValue (action : Action) (value : String) : Given :=
  ⟨action, if value = "--" then none else some value⟩

end Given

/-- The options that are joined in one word: `action`, and one for each of the letters behind it.  No
    option of one letter has a value, so a letter that is no option is a value that nothing uses. -/
def unjoin (action : Action) : (letters : List Char) → Except UsageError (List Action)
  | [] => .ok [action]
  | c :: cs =>
    match Action.named? (String.ofList ['-', c]) with
    | some next => do return action :: (← unjoin next cs)
    | none => .error (.unusedValue action (String.ofList (c :: cs)))

/-- What an option gives, and the words left behind it.  A value stands in the same word or is the
    next one. -/
def readOption (action : Action) (name : String) (attached : Option String) (words : List Word) :
    Except UsageError (List Given × List Word) :=
  match action.takesValue, attached with
  | false, none => .ok ([.flag action], words)
  | false, some value =>
    if value = "" ∨ name.startsWith "--" then .error (.unusedValue action value)
    else do return ((← unjoin action value.toList).map .flag, words)
  | true, some value => .ok ([.withValue action value], words)
  | true, none =>
    match words with
    | .plain value :: words => .ok ([.withValue action value], words)
    | _ => .error (.missingValue action)

/-- The outcome of taking options into account: further progress, or the help that ends it all. -/
inductive Taken
  | help
  | progress (p : Progress)

/-- Takes given options into account, in order. -/
def take (p : Progress) : List Given → Except UsageError Taken
  | [] => .ok (.progress p)
  | g :: gs =>
    match g.action with
    | .help => .ok .help
    | .verbose => take { p with verbosity := p.verbosity + 1 } gs
    | .traceFile => take { p with traceFile := g.value } gs
    | action =>
      match action.rival?.filter (p.chosen.contains ·) with
      | some other => .error (.conflict action other)
      | none => take { p with chosen := action :: p.chosen } gs

/-- The name of the program at the front of the words, with the bare `--` before or behind it. -/
def programName? : List Word → Option (String × List Word)
  | .plain name :: .terminator :: words => some (name, words)
  | .plain name :: words => some (name, words)
  | .terminator :: .plain name :: words => some (name, words)
  | _ => none

/-- The words in order; `fuel` bounds their number. -/
def readWords : (fuel : Nat) → Progress → List Word → Except UsageError Taken
  | 0, p, _ => .ok (.progress p)
  | _ + 1, p, [] => .ok (.progress p)
  | fuel + 1, p, .unknown text :: words =>
    readWords fuel { p with leftover := p.leftover ++ [text] } words
  | fuel + 1, p, .option action name attached :: words => do
    let (given, words) ← readOption action name attached words
    match ← take p given with
    | .help => return .help
    | .progress p => readWords fuel p words
  | fuel + 1, p, word :: words =>
    match p.program, programName? (word :: words) with
    | none, some (name, words) => readWords fuel { p with program := some name } words
    | _, _ =>
      let text := match word with
        | .plain text => text
        | _ => "--"
      readWords fuel { p with leftover := p.leftover ++ [text] } words

/-- What the words of a command line ask for. -/
def Request.ofWords (words : List String) : Except UsageError Request := do
  match ← readWords (words.length + 1) {} (← classifyAll words) with
  | .help => return .help
  | .progress p =>
    match p.program, p.leftover with
    | none, _ => throw .missingProgram
    | some _, _ :: _ => throw (.unrecognized p.leftover)
    | some program, [] =>
      let mode :=
        if p.chosen.contains .tokens then Mode.tokens
        else if p.chosen.contains .tree then Mode.tree
        else Mode.run
      return .execute ⟨p.verbosity, p.traceFile, mode, program⟩

end ScriptLang.CommandLine
