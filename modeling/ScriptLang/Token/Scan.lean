import ScriptLang.Token
import ScriptLang.Text.DecimalDigit

/-!
  From source text to tokens.

  `scan` reads one lexeme off the front of a nonempty text: a run of blanks, a comment, a number, a
  word, a string, a symbol, or a single character that starts none of these.  Where two of them
  start alike the longer one is taken, so `<=` is one symbol and `1.5` one number.  `tokenize` reads
  lexeme after lexeme, drops blanks and comments, and ends with one `eof` token that carries the
  position of the end of the text.
-/

namespace ScriptLang

/-! ## Positions -/

/-- A line and a column, both counted from 1. -/
structure Position where
  line : Nat
  column : Nat
  deriving DecidableEq, Repr

namespace Position

/-- The start of a text. -/
def start : Position := ⟨1, 1⟩

/-- The position after one character: only a line feed starts a new line. -/
def next (p : Position) (c : Char) : Position :=
  if c = '\n' then ⟨p.line + 1, 1⟩ else ⟨p.line, p.column + 1⟩

/-- The position after a text. -/
def after (p : Position) (cs : List Char) : Position := cs.foldl next p

end Position

/-! ## Character classes -/

namespace Scan

/-- Space, tab, form feed, carriage return and line feed. -/
def isBlank (c : Char) : Bool :=
  c = ' ' || c = '\t' || c = '\x0c' || c = '\r' || c = '\n'

/-- An ASCII letter or an underscore. -/
def isWordStart (c : Char) : Bool := c.isAlpha || c = '_'

/-- An ASCII letter, an ASCII digit or an underscore. -/
def isWordChar (c : Char) : Bool := c.isAlphanum || c = '_'

/-! ## Lexemes -/

/-- What a lexeme is: layout that is dropped, a word whose kind depends on its spelling, a quoted
    string, or the text of a token of a fixed kind. -/
inductive Shape
  | layout
  | word
  | quoted
  | plain (kind : TokenKind)
  deriving DecidableEq, Repr

/-- A piece of text off the front of the source. -/
structure Lexeme where
  shape : Shape
  text : List Char
  deriving DecidableEq, Repr

/-- The kind of a symbol of two characters. -/
def pairKind? : Char → Char → Option TokenKind
  | '=', '=' => some .eq
  | '!', '=' => some .notEq
  | '<', '=' => some .ltEq
  | '>', '=' => some .gtEq
  | '&', '&' => some .and
  | '|', '|' => some .or
  | '+', '+' => some .increment
  | '-', '-' => some .decrement
  | '=', '>' => some .arrow
  | _, _ => none

/-- The kind of a character on its own: `illegal` unless it is a symbol. -/
def singleKind : Char → TokenKind
  | '=' => .assign
  | '!' => .bang
  | '+' => .plus
  | '-' => .minus
  | '*' => .asterisk
  | '/' => .slash
  | '%' => .percent
  | '<' => .lt
  | '>' => .gt
  | '?' => .question
  | ':' => .colon
  | ';' => .semicolon
  | ',' => .comma
  | '(' => .lparen
  | ')' => .rparen
  | '\x7b' => .lbrace
  | '\x7d' => .rbrace
  | _ => .illegal

/-- The number that starts with the digit `c`: digits, and a fraction if a point with a digit after
    it follows. -/
def number (c : Char) (cs : List Char) : Lexeme :=
  let whole := c :: cs.takeWhile Text.isDigit
  match cs.dropWhile Text.isDigit with
  | '.' :: d :: ds =>
    if Text.isDigit d then ⟨.plain .float, whole ++ '.' :: d :: ds.takeWhile Text.isDigit⟩
    else ⟨.plain .int, whole⟩
  | _ => ⟨.plain .int, whole⟩

/-- The string that opens with the quote `q`.  Without a closing quote the opening one is an illegal
    character and nothing after it is taken. -/
def quoted (q : Char) (cs : List Char) : Lexeme :=
  match cs.dropWhile (· != q) with
  | [] => ⟨.plain .illegal, [q]⟩
  | _ :: _ => ⟨.quoted, q :: cs.takeWhile (· != q) ++ [q]⟩

/-- The symbol or illegal character at the front of `c :: cs`. -/
def symbol (c : Char) (cs : List Char) : Lexeme :=
  match cs with
  | [] => ⟨.plain (singleKind c), [c]⟩
  | d :: _ =>
    match pairKind? c d with
    | some kind => ⟨.plain kind, [c, d]⟩
    | none => ⟨.plain (singleKind c), [c]⟩

/-- The lexeme at the front of `c :: cs`. -/
def lexeme (c : Char) (cs : List Char) : Lexeme :=
  if isBlank c then ⟨.layout, c :: cs.takeWhile isBlank⟩
  else if c = '/' ∧ cs.head? = some '/' then ⟨.layout, c :: cs.takeWhile (· != '\n')⟩
  else if Text.isDigit c then number c cs
  else if isWordStart c then ⟨.word, c :: cs.takeWhile isWordChar⟩
  else if c = '"' ∨ c = '\'' then quoted c cs
  else symbol c cs

/-- A lexeme takes at least the first character. -/
theorem lexeme_text_ne_nil (c : Char) (cs : List Char) : (lexeme c cs).text ≠ [] := by
  unfold lexeme number quoted symbol
  repeat' split
  all_goals simp

/-- A number is a piece of the text it is read from. -/
theorem number_text_prefix (c : Char) (cs : List Char) : (number c cs).text <+: c :: cs := by
  have split : cs = cs.takeWhile Text.isDigit ++ cs.dropWhile Text.isDigit :=
    (List.takeWhile_append_dropWhile).symm
  have whole : c :: cs.takeWhile Text.isDigit <+: c :: cs :=
    List.prefix_cons_inj c |>.2 (List.takeWhile_prefix _)
  unfold number
  split
  · rename_i d ds h
    split
    · obtain ⟨rest, hrest⟩ := List.takeWhile_prefix (l := ds) Text.isDigit
      refine ⟨rest, ?_⟩
      rw [h] at split
      show (c :: cs.takeWhile Text.isDigit ++ '.' :: d :: ds.takeWhile Text.isDigit) ++ rest = _
      conv => rhs; rw [split, ← hrest]
      simp
    · exact whole
  · exact whole

/-- A string is a piece of the text it is read from. -/
theorem quoted_text_prefix (q : Char) (cs : List Char) : (quoted q cs).text <+: q :: cs := by
  have split : cs = cs.takeWhile (· != q) ++ cs.dropWhile (· != q) :=
    (List.takeWhile_append_dropWhile).symm
  unfold quoted
  split
  · exact ⟨cs, rfl⟩
  · rename_i d ds h
    have hd : d = q := by
      have := List.head?_dropWhile_not (· != q) cs
      rw [h] at this
      simpa using this
    subst hd
    refine ⟨ds, ?_⟩
    rw [h] at split
    conv => rhs; rw [split]
    simp

/-- A symbol is a piece of the text it is read from. -/
theorem symbol_text_prefix (c : Char) (cs : List Char) : (symbol c cs).text <+: c :: cs := by
  unfold symbol
  split
  · exact List.prefix_rfl
  · rename_i d ds
    split
    · exact ⟨ds, rfl⟩
    · exact ⟨d :: ds, rfl⟩

/-- A lexeme is a piece of the text it is read from. -/
theorem lexeme_text_prefix (c : Char) (cs : List Char) : (lexeme c cs).text <+: c :: cs := by
  have run (p : Char → Bool) : c :: cs.takeWhile p <+: c :: cs :=
    List.prefix_cons_inj c |>.2 (List.takeWhile_prefix p)
  unfold lexeme
  split
  · exact run isBlank
  split
  · exact run (· != '\n')
  split
  · exact number_text_prefix c cs
  split
  · exact run isWordChar
  split
  · exact quoted_text_prefix c cs
  · exact symbol_text_prefix c cs

/-- The token a lexeme stands for, `none` for layout. -/
def Lexeme.token? (l : Lexeme) (p : Position) : Option Token :=
  let text := String.ofList l.text
  match l.shape with
  | .layout => none
  | .word => some ⟨.ofWord text, text, p.line, p.column⟩
  | .quoted => some ⟨.string, String.ofList (l.text.drop 1).dropLast, p.line, p.column⟩
  | .plain kind => some ⟨kind, text, p.line, p.column⟩

/-- The tokens of a text that starts at position `p`, the `eof` token last. -/
def tokensFrom (p : Position) : List Char → List Token
  | [] => [⟨.eof, "", p.line, p.column⟩]
  | c :: cs =>
    let l := lexeme c cs
    let rest := tokensFrom (p.after l.text) ((c :: cs).drop l.text.length)
    match l.token? p with
    | some t => t :: rest
    | none => rest
termination_by cs => cs.length
decreasing_by
  have := List.length_pos_iff.2 (lexeme_text_ne_nil c cs)
  simp only [List.length_drop, List.length_cons]
  omega

end Scan

/-- The tokens of a source text, the `eof` token last. -/
def tokenize (source : String) : List Token := Scan.tokensFrom Position.start source.toList

end ScriptLang
