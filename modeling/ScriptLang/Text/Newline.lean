/-!
  Line ends.

  A source file may end its lines with a line feed, a carriage return, or both in that order; read as
  text, each of them is one line feed.
-/

namespace ScriptLang.Text

/-- The characters with every line end turned into a line feed. -/
def unifyLineEnds : List Char → List Char
  | [] => []
  | '\r' :: '\n' :: cs => '\n' :: unifyLineEnds cs
  | '\r' :: cs => '\n' :: unifyLineEnds cs
  | c :: cs => c :: unifyLineEnds cs

/-- The text with every line end turned into a line feed. -/
def unifyNewlines (text : String) : String := String.ofList (unifyLineEnds text.toList)

example : unifyLineEnds ['a', '\r', '\n', 'b', '\r', '\r', '\n'] = ['a', '\n', 'b', '\n', '\n'] := by
  decide

end ScriptLang.Text
