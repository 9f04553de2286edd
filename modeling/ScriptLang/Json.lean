import ScriptLang.Number.FloatText

/-!
  JSON documents and their indented text.

  Members of an object keep their order.  Each item of a nonempty list or object stands on a line of
  its own, indented by two blanks a level; characters outside ASCII are written as they are.
-/

namespace ScriptLang

/-- A JSON document. -/
inductive Json
  | null
  | bool (value : Bool)
  | int (value : Int)
  | float (value : Float)
  | str (value : String)
  | arr (items : List Json)
  | obj (members : List (String × Json))

namespace Json

/-- One character of a string: only quotes, backslashes and control characters are escaped. -/
def escapeChar (c : Char) : String :=
  match c with
  | '"' => "\\\""
  | '\\' => "\\\\"
  | '\n' => "\\n"
  | '\r' => "\\r"
  | '\t' => "\\t"
  | '\x0c' => "\\f"
  | '\x08' => "\\b"
  | c => if c.toNat < 0x20 then "\\u" ++ String.ofList (Text.hexDigits 4 c.toNat) else c.toString

/-- A string between double quotes. -/
def quote (s : String) : String := "\"" ++ String.join (s.toList.map escapeChar) ++ "\""

/-- A line break and the blanks of a level. -/
def newline (level : Nat) : String := "\n" ++ String.ofList (List.replicate (2 * level) ' ')

mutual

/-- The text of a document whose lines after the first are indented by `level`. -/
def indented (level : Nat) : Json → String
  | null => "null"
  | bool value => if value then "true" else "false"
  | int value => value.repr
  | float value => Number.floatText value
  | str value => quote value
  | arr [] => "[]"
  | arr (item :: items) =>
    "[" ++ newline (level + 1) ++
      (("," ++ newline (level + 1)).intercalate
        (item.indented (level + 1) :: indentedItems (level + 1) items)) ++
      newline level ++ "]"
  | obj [] => "\x7b\x7d"
  | obj ((key, value) :: members) =>
    "\x7b" ++ newline (level + 1) ++
      (("," ++ newline (level + 1)).intercalate
        ((quote key ++ ": " ++ value.indented (level + 1)) ::
          indentedMembers (level + 1) members)) ++
      newline level ++ "\x7d"

/-- The texts of the items of a list. -/
def indentedItems (level : Nat) : List Json → List String
  | [] => []
  | item :: items => item.indented level :: indentedItems level items

/-- The texts of the members of an object. -/
def indentedMembers (level : Nat) : List (String × Json) → List String
  | [] => []
  | (key, value) :: members =>
    (quote key ++ ": " ++ value.indented level) :: indentedMembers level members

end

/-- The text of a document. -/
def text (j : Json) : String := j.indented 0

end Json

end ScriptLang
