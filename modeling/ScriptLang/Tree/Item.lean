import ScriptLang.Tree.Describe
import ScriptLang.Value

/-!
  What can be described as JSON.

  Trees, tokens, lists of such, and plain data can be described.  Runtime values and mappings are
  refused with the name of what they are.
-/

namespace ScriptLang

/-- The description of a token. -/
def Token.toJson (t : Token) : Json :=
  .obj [("type", .str t.kind.name), ("literal", .str t.literal), ("line", .int t.line),
    ("column", .int t.column)]

/-- What a refused value is called. -/
def Value.formName : Value → String
  | .int _ => "IntegerValue"
  | .float _ => "FloatValue"
  | .bool _ => "BooleanValue"
  | .str _ => "StringValue"
  | .null => "NullValue"
  | .function _ => "FunctionValue"
  | .returned _ => "ReturnSignal"
  | .error _ => "ErrorSignal"

/-- Something that may be described. -/
inductive Item
  /-- A number, a string, a boolean or nothing. -/
  | scalar (data : Json)
  | token (t : Token)
  | node (n : Node)
  | list (items : List Item)
  | mapping
  | value (v : Value)

/-- The name of something that has no description. -/
structure Undescribable where
  name : String
  deriving DecidableEq, Repr

/-- The wording of a refusal. -/
def Undescribable.message (u : Undescribable) : String := s!"cannot serialize {u.name} to JSON"

mutual

/-- The description of an item. -/
def Item.describe : Item → Except Undescribable Json
  | .scalar data => .ok data
  | .token t => .ok t.toJson
  | .node n => .ok n.describe
  | .list items => do return .arr (← describeItems items)
  | .mapping => .error ⟨"dict"⟩
  | .value v => .error ⟨v.formName⟩

/-- The descriptions of several items. -/
def describeItems : List Item → Except Undescribable (List Json)
  | [] => .ok []
  | item :: items => do return (← item.describe) :: (← describeItems items)

end

end ScriptLang
