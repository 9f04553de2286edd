import ScriptLang.Text.DecimalDigit
import ScriptLang.Text.Hidden
import ScriptLang.Text.Quoted
import ScriptLang.Text.Newline
import ScriptLang.Fault
import ScriptLang.Number.Integer
import ScriptLang.Number.Binary64
import ScriptLang.Number.Shortest
import ScriptLang.Number.FloatText
import ScriptLang.Token
import ScriptLang.Token.Scan
import ScriptLang.Json
import ScriptLang.Tree
import ScriptLang.Tree.Text
import ScriptLang.Tree.Describe
import ScriptLang.Tree.Infer
import ScriptLang.Tree.Item
import ScriptLang.Diagnostic
import ScriptLang.Parse.Cursor
import ScriptLang.Parse.Declared
import ScriptLang.Parse.Expression
import ScriptLang.Parse.Statement
import ScriptLang.Parse.Program
import ScriptLang.Value
import ScriptLang.Value.Operator
import ScriptLang.Value.Argument
import ScriptLang.Scope
import ScriptLang.Trace
import ScriptLang.Eval.Machine
import ScriptLang.Eval.Rule
import ScriptLang.Eval.Run
import ScriptLang.Session
import ScriptLang.CommandLine.Options
import ScriptLang.CommandLine.Path
import ScriptLang.CommandLine.Command
import ScriptLang.Main
import ScriptLang.Proofs.Parse.Grammar
import ScriptLang.Proofs.Parse.Path
import ScriptLang.Proofs.Parse.Sound.Declared
import ScriptLang.Proofs.Parse.Sound.Expression
import ScriptLang.Proofs.Parse.Sound.Statement
import ScriptLang.Proofs.Parse.Complete.Declared
import ScriptLang.Proofs.Parse.Complete.Expression
import ScriptLang.Proofs.Parse.Complete.Statement
import ScriptLang.Proofs.Parse.Exact
import ScriptLang.Proofs.Token.Emits
import ScriptLang.Proofs.Print.Expression
import ScriptLang.Proofs.Print.Statement
import ScriptLang.Proofs.Number.Literal
import ScriptLang.Proofs.Print.RoundTrip
import ScriptLang.Proofs.Eval.Raising
import ScriptLang.Proofs.Scope.Heap
import ScriptLang.Proofs.Tree.Shaped
import ScriptLang.Proofs.Value.Clean
import ScriptLang.Proofs.Eval.Agreement
import ScriptLang.Proofs.Eval.Signals
import ScriptLang.Proofs.Parse.Shaped
import ScriptLang.Proofs.Eval.Discipline
import ScriptLang.Proofs.Scope.Growth
import ScriptLang.Proofs.Eval.Constants
import ScriptLang.Proofs.Value.Alike
import ScriptLang.Proofs.Eval.Correspondence
import ScriptLang.Proofs.Eval.Invariant
import ScriptLang.Proofs.Eval.Declarations
import ScriptLang.Proofs.Eval.SignalFree
import ScriptLang.Proofs.Scope.Fits
import ScriptLang.Proofs.Scope.Reach
import ScriptLang.Proofs.Eval.ForLoop
import ScriptLang.Proofs.Eval.DoLoop
import ScriptLang.Proofs.Parse.Bounds
import ScriptLang.Proofs.Parse.Progress
import ScriptLang.Proofs.Parse.WellFormed
import ScriptLang.Proofs.Token.Terminal
import ScriptLang.Proofs.Token.Split
import ScriptLang.Proofs.Token.Trial
import ScriptLang.Proofs.Tree.Tokens
import ScriptLang.Proofs.Scope.Tokens
import ScriptLang.Proofs.Eval.Tokens
import ScriptLang.Proofs.Eval.Sequence
import ScriptLang.Proofs.Tree.Features
import ScriptLang.Proofs.Value.Within
import ScriptLang.Proofs.Value.Family
import ScriptLang.Proofs.Eval.Logic
import ScriptLang.Proofs.Eval.Trees
import ScriptLang.Proofs.Eval.Uniform
import ScriptLang.Proofs.Eval.Tracing
import ScriptLang.Proofs.Eval.CallLimit
import ScriptLang.Proofs.Eval.Keeping
import ScriptLang.Proofs.Eval.Integers
import ScriptLang.Proofs.Eval.Termination
import ScriptLang.Proofs.Print.Layout
import ScriptLang.Proofs.Value.Conforms
import ScriptLang.Proofs.Scope.Declare
import ScriptLang.Proofs.Eval.Entry
import ScriptLang.Proofs.Eval.Brackets
import ScriptLang.Proofs.Scope.Visible
import ScriptLang.Proofs.Print.TypeName
import ScriptLang.Proofs.Value.Equality
import ScriptLang.Proofs.Value.Division
import ScriptLang.Proofs.Eval.Inferred
import ScriptLang.Proofs.Token.LineEnds
import ScriptLang.Proofs.Print.Integer
import ScriptLang.Proofs.Tree.Faithful
