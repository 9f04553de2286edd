/-!
  Tokens of the language.

  A token is a piece of source text with the kind it was recognised as and the place where it
  starts.  Kinds have a name, used by diagnostics, and a spelling: the symbol itself for operators
  and punctuation, the name for the rest.
-/

namespace ScriptLang

/-- What a token was recognised as.  The kinds that end in `Word` are the reserved words. -/
inductive TokenKind
  | illegal
  | eof
  | ident
  | int
  | float
  | string
  | boolean
  | assign
  | plus
  | minus
  | bang
  | asterisk
  | slash
  | percent
  | lt
  | gt
  | ltEq
  | gtEq
  | eq
  | notEq
  | and
  | or
  | increment
  | decrement
  | question
  | arrow
  | comma
  | semicolon
  | colon
  | lparen
  | rparen
  | lbrace
  | rbrace
  | varWord
  | constWord
  | fnWord
  | returnWord
  | ifWord
  | elseWord
  | forWord
  | whileWord
  | doWord
  | displayWord
  | intWord
  | floatWord
  | stringWord
  | booleanWord
  | voidWord
  deriving DecidableEq, Repr

namespace TokenKind

/-- The name diagnostics call a kind by. -/
def name : TokenKind → String
  | illegal => "ILLEGAL"
  | eof => "EOF"
  | ident => "IDENT"
  | int => "INT"
  | float => "FLOAT"
  | string => "STRING"
  | boolean => "BOOLEAN"
  | assign => "ASSIGN"
  | plus => "PLUS"
  | minus => "MINUS"
  | bang => "BANG"
  | asterisk => "ASTERISK"
  | slash => "SLASH"
  | percent => "PERCENT"
  | lt => "LT"
  | gt => "GT"
  | ltEq => "LT_EQ"
  | gtEq => "GT_EQ"
  | eq => "EQ"
  | notEq => "NOT_EQ"
  | and => "AND"
  | or => "OR"
  | increment => "INCREMENT"
  | decrement => "DECREMENT"
  | question => "QUESTION"
  | arrow => "ARROW"
  | comma => "COMMA"
  | semicolon => "SEMICOLON"
  | colon => "COLON"
  | lparen => "LPAREN"
  | rparen => "RPAREN"
  | lbrace => "LBRACE"
  | rbrace => "RBRACE"
  | varWord => "VAR"
  | constWord => "CONST"
  | fnWord => "FUNCTION"
  | returnWord => "RETURN"
  | ifWord => "IF"
  | elseWord => "ELSE"
  | forWord => "FOR"
  | whileWord => "WHILE"
  | doWord => "DO"
  | displayWord => "DISPLAY"
  | intWord => "TYPE_INT"
  | floatWord => "TYPE_FLOAT"
  | stringWord => "TYPE_STRING"
  | booleanWord => "TYPE_BOOLEAN"
  | voidWord => "TYPE_VOID"

/-- The symbol of an operator or a punctuation mark. -/
def symbol? : TokenKind → Option String
  | assign => some "="
  | plus => some "+"
  | minus => some "-"
  | bang => some "!"
  | asterisk => some "*"
  | slash => some "/"
  | percent => some "%"
  | lt => some "<"
  | gt => some ">"
  | ltEq => some "<="
  | gtEq => some ">="
  | eq => some "=="
  | notEq => some "!="
  | and => some "&&"
  | or => some "||"
  | increment => some "++"
  | decrement => some "--"
  | question => some "?"
  | arrow => some "=>"
  | comma => some ","
  | semicolon => some ";"
  | colon => some ":"
  | lparen => some "("
  | rparen => some ")"
  | lbrace => some "\x7b"
  | rbrace => some "\x7d"
  | _ => none

/-- The symbol of a kind that has one, else its name. -/
def spelling (k : TokenKind) : String := k.symbol?.getD k.name

/-- The kind of a word: its own for a reserved word, `ident` for every other. -/
def ofWord (word : String) : TokenKind :=
  match word with
  | "var" => varWord
  | "const" => constWord
  | "fn" => fnWord
  | "return" => returnWord
  | "if" => ifWord
  | "else" => elseWord
  | "for" => forWord
  | "while" => whileWord
  | "do" => doWord
  | "display" => displayWord
  | "true" => boolean
  | "false" => boolean
  | "int" => intWord
  | "float" => floatWord
  | "string" => stringWord
  | "boolean" => booleanWord
  | "void" => voidWord
  | _ => ident

/-- Every kind, once. -/
def all : List TokenKind :=
  [illegal, eof, ident, int, float, string, boolean, assign, plus, minus, bang, asterisk, slash,
   percent, lt, gt, ltEq, gtEq, eq, notEq, and, or, increment, decrement, question, arrow, comma,
   semicolon, colon, lparen, rparen, lbrace, rbrace, varWord, constWord, fnWord, returnWord, ifWord,
   elseWord, forWord, whileWord, doWord, displayWord, intWord, floatWord, stringWord, booleanWord,
   voidWord]

/-- The kind with the given name. -/
def ofName? (name : String) : Option TokenKind := all.find? (·.name == name)

/-- The kinds that name a type on their own: the built-in types and any identifier. -/
def isTypeWord : TokenKind → Bool
  | intWord | floatWord | stringWord | booleanWord | voidWord | ident => true
  | _ => false

end TokenKind

/-- A piece of source text, what it was recognised as, and the line and column (both from 1) of its
    first character.  The literal of a string leaves out the quotes. -/
structure Token where
  kind : TokenKind
  literal : String
  line : Nat
  column : Nat
  deriving DecidableEq, Repr

/-- One line that describes a token. -/
def Token.summary (t : Token) : String :=
  s!"Type: {t.kind.name}, Literal: \"{t.literal}\", Line: {t.line}, Col: {t.column}"

end ScriptLang
