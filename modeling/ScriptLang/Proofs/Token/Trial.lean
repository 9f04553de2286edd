import ScriptLang.Proofs.Token.Terminal

/-!
  The scanner as a trial of terminals in order.

  The grammar declares the terminals with priorities.  At each place of a source they are tried one after
  the other, by priority and then by the number of characters that they can match at most; the first
  that matches there is taken, with the longest text that it matches.

  Specification: `Trial ts cs T l`, where trying the terminals `ts` at the front of `cs` yields `T` with the
  text `l`.  `trial_iff_lexeme` says that this is what `lexeme` yields, for every list of the terminals
  that is in order.  How terminals of one priority and one width are ordered among themselves does not
  matter, since no two of them match at one place (`terminal_precedes`, which is the crux).
-/

namespace ScriptLang

namespace Terminal

open Scan

/-! ## The order of the terminals -/

/-- The priority that the grammar declares for a terminal. -/
def priority : Terminal → Int
  | float => 2
  | illegal => -1
  | int | string | name | symbol _ | comment | space => 0

/-- The most characters that a terminal can match, `none` if it can match any number of them. -/
def width? : Terminal → Option Nat
  | symbol kind => some (kind.symbol?.elim 0 String.length)
  | illegal => some 1
  | float | int | string | name | comment | space => none

/-- Whether the first width is the larger one. -/
def wider : Option Nat → Option Nat → Bool
  | none, some _ => true
  | some m, some n => n < m
  | _, none => false

/-- Priority and width put the first terminal in front of the second. -/
def Precedes (T T' : Terminal) : Prop :=
  T'.priority < T.priority ∨ T.priority = T'.priority ∧ wider T.width? T'.width? = true

instance (T T' : Terminal) : Decidable (T.Precedes T') :=
  inferInstanceAs (Decidable (_ ∨ _ ∧ _))

/-- The symbols of two characters. -/
def pairs : List Terminal :=
  [TokenKind.eq, .notEq, .ltEq, .gtEq, .and, .or, .increment, .decrement, .arrow].map symbol

/-- The symbols of one character. -/
def singles : List Terminal :=
  [TokenKind.assign, .bang, .plus, .minus, .asterisk, .slash, .percent, .lt, .gt, .question, .colon,
    .semicolon, .comma, .lparen, .rparen, .lbrace, .rbrace].map symbol

/-- The terminals as the grammar declares them. -/
def grammar : List Terminal :=
  [float, int, string, name] ++ pairs ++ singles ++ [comment, illegal, space]

/-- A list of the terminals in which none stands behind one that it precedes. -/
structure Ordered (ts : List Terminal) : Prop where
  perm : ts.Perm grammar
  sorted : ts.Pairwise fun T T' => ¬ T'.Precedes T

/-- There is such a list: numbers with a fraction, what has any length, pairs, single characters, and
    what is left. -/
theorem ordered_by_width :
    Ordered ([float, int, string, name, comment, space] ++ pairs ++ singles ++ [illegal]) :=
  ⟨by decide +kernel, by decide +kernel⟩

/-- Only the terminals of the grammar match anything. -/
theorem mem_grammar {T : Terminal} {l : List Char} (h : T.Matches l) : T ∈ grammar := by
  cases T with
  | symbol k => cases k <;> first | decide | cases h
  | float | int | string | name | comment | space | illegal => decide

theorem width?_of_symbol {k : TokenKind} {l : List Char} (h : (symbol k).Matches l) :
    (symbol k).width? = some l.length := by
  have hk : k.symbol? = some (String.ofList l) := h
  show some (k.symbol?.elim 0 String.length) = _
  rw [hk]
  exact congrArg some String.length_ofList

theorem precedes_illegal {T : Terminal} (h : T ≠ illegal) : T.Precedes illegal := by
  left
  cases T with
  | illegal => exact absurd rfl h
  | float => show (-1 : Int) < 2; decide
  | int | string | name | symbol k | comment | space => show (-1 : Int) < 0; decide

/-! ## The trial -/

/-- What a terminal takes off the front of a text: the longest that it matches there. -/
def Takes (T : Terminal) (cs l : List Char) : Prop :=
  T.Matches l ∧ l <+: cs ∧ ∀ l', T.Matches l' → l' <+: cs → l'.length ≤ l.length

theorem Takes.unique {T : Terminal} {cs l l' : List Char} (h : T.Takes cs l) (h' : T.Takes cs l') :
    l = l' := by
  have hle : l.length ≤ l'.length := h'.2.2 l h.1 h.2.1
  have hge : l'.length ≤ l.length := h.2.2 l' h'.1 h'.2.1
  exact (List.prefix_of_prefix_length_le h.2.1 h'.2.1 hle).eq_of_length (by omega)

/-- Trying terminals in order at the front of a text: the first that matches there takes its text. -/
inductive Trial : List Terminal → List Char → Terminal → List Char → Prop
  | hit {T : Terminal} {ts : List Terminal} {cs l : List Char} : T.Takes cs l → Trial (T :: ts) cs T l
  | next {T T' : Terminal} {ts : List Terminal} {cs l : List Char} :
      (∀ l', T.Matches l' → ¬ l' <+: cs) → Trial ts cs T' l → Trial (T :: ts) cs T' l

theorem Trial.unique {ts : List Terminal} {cs l l' : List Char} {T T' : Terminal}
    (h : Trial ts cs T l) (h' : Trial ts cs T' l') : T = T' ∧ l = l' := by
  induction h with
  | hit htakes =>
    cases h' with
    | hit htakes' => exact ⟨rfl, htakes.unique htakes'⟩
    | next hfails _ => exact absurd htakes.2.1 (hfails _ htakes.1)
  | next hfails _ ih =>
    cases h' with
    | hit htakes' => exact absurd htakes'.2.1 (hfails _ htakes'.1)
    | next _ htrial => exact ih htrial

/-- A terminal that precedes all others that match is found. -/
theorem trial_of_precedes {ts : List Terminal} {cs l : List Char} {T : Terminal} (htakes : T.Takes cs l)
    (hfirst : ∀ T' l', T'.Matches l' → l' <+: cs → T' = T ∨ T.Precedes T') (hmem : T ∈ ts)
    (hsorted : ts.Pairwise fun T T' => ¬ T'.Precedes T) : Trial ts cs T l := by
  induction ts with
  | nil => cases hmem
  | cons T₀ ts ih =>
    obtain ⟨hhead, htail⟩ := List.pairwise_cons.1 hsorted
    by_cases hT₀ : T₀ = T
    · subst hT₀
      exact .hit htakes
    · have hlater : T ∈ ts := (List.mem_cons.1 hmem).resolve_left (Ne.symm hT₀)
      refine .next (fun l' hmatches hprefix => ?_) (ih hlater htail)
      rcases hfirst T₀ l' hmatches hprefix with heq | hprecedes
      · exact hT₀ heq
      · exact hhead T hlater hprecedes

/-- The shape of a lexeme that a terminal is taken for. -/
def shape : Terminal → Shape
  | float => .plain .float
  | int => .plain .int
  | string => .quoted
  | name => .word
  | symbol kind => .plain kind
  | comment | space => .layout
  | illegal => .plain .illegal

end Terminal

/-! ## What the trial yields -/

namespace Scan

open Terminal (Trial Ordered)

theorem shape_terminal (l : Lexeme) : l.terminal.shape = l.shape := by
  obtain ⟨shape, text⟩ := l
  cases shape with
  | layout =>
    unfold Lexeme.terminal
    by_cases hslash : text.head? = some '/'
    · simp only [if_pos hslash, Terminal.shape]
    · simp only [if_neg hslash, Terminal.shape]
  | word | quoted => rfl
  | plain k => cases k <;> rfl

section Front

variable {c : Char} {cs l : List Char}

theorem number_precedes (c : Char) (cs : List Char) :
    Terminal.int = (number c cs).terminal ∨ (number c cs).terminal.Precedes .int := by
  unfold number
  split
  · split
    · right
      left
      show (0 : Int) < 2
      decide
    · exact Or.inl rfl
  · exact Or.inl rfl

/-- A single character may start a comment or a symbol of two characters, which are both wider. -/
theorem symbol_precedes {k : TokenKind} (h : (Terminal.symbol k).Matches l) (hcs : l <+: c :: cs) :
    .symbol k = (lexeme c cs).terminal ∨ (lexeme c cs).terminal.Precedes (.symbol k) := by
  have hwidth := Terminal.width?_of_symbol h
  rcases symbol?_cases h with ⟨d, hd, rfl, hk⟩ | ⟨d, hd, e, hslash, rfl, hk⟩
  · obtain ⟨rfl, -⟩ := List.cons_prefix_cons.1 hcs
    by_cases hcomment : d = '/' ∧ cs.head? = some '/'
    · obtain ⟨rfl, hhead⟩ := hcomment
      obtain ⟨ds, rfl⟩ := List.head?_eq_some_iff.1 hhead
      rw [lexeme_comment]
      exact Or.inr (Or.inr ⟨rfl, by rw [hwidth]; rfl⟩)
    · rw [lexeme_eq_symbol hd fun hd hhead => hcomment ⟨hd, hhead⟩]
      unfold symbol
      split
      · exact Or.inl (by rw [hk, terminal_of_symbol h])
      · split
        · rename_i k' hpair
          have hk' := pairKind?_symbol hpair
          rw [terminal_of_symbol hk']
          exact Or.inr (Or.inr ⟨rfl, by rw [hwidth, Terminal.width?_of_symbol hk']; rfl⟩)
        · exact Or.inl (by rw [hk, terminal_of_symbol h])
  · obtain ⟨rfl, htail⟩ := List.cons_prefix_cons.1 hcs
    obtain ⟨rest, rfl⟩ := htail
    rw [lexeme_eq_symbol hd fun hd => absurd hd hslash]
    unfold symbol
    simp only [List.singleton_append, hk]
    exact Or.inl (terminal_of_symbol h _).symm

/-- Of the terminals that match at the front of a text, the one that its lexeme is taken for precedes all
    others.  The first character tells which they are. -/
theorem terminal_precedes {T : Terminal} (h : T.Matches l) (hcs : l <+: c :: cs) :
    T = (lexeme c cs).terminal ∨ (lexeme c cs).terminal.Precedes T := by
  cases T with
  | float =>
    obtain ⟨ds, es, rfl, hds, hes⟩ := h
    obtain ⟨d, ds, rfl⟩ := List.exists_cons_of_ne_nil hds.1
    obtain ⟨e, es, rfl⟩ := List.exists_cons_of_ne_nil hes.1
    rw [List.cons_append] at hcs
    obtain ⟨rfl, htail⟩ := List.cons_prefix_cons.1 hcs
    obtain ⟨rest, rfl⟩ := htail
    rw [lexeme_fraction hds (hes.2 e List.mem_cons_self)]
    exact Or.inl rfl
  | int =>
    obtain ⟨d, ds, rfl⟩ := List.exists_cons_of_ne_nil h.1
    obtain ⟨rfl, -⟩ := List.cons_prefix_cons.1 hcs
    rw [lexeme_of_isDigit (h.2 d List.mem_cons_self)]
    exact number_precedes d cs
  | string =>
    obtain ⟨q, ds, hq, hds, rfl⟩ := h
    rw [List.cons_append] at hcs
    obtain ⟨rfl, htail⟩ := List.cons_prefix_cons.1 hcs
    obtain ⟨rest, rfl⟩ := htail
    rw [lexeme_quoted hq hds]
    exact Or.inl rfl
  | name =>
    obtain ⟨d, ds, rfl, hd, -⟩ := h
    obtain ⟨rfl, -⟩ := List.cons_prefix_cons.1 hcs
    rw [lexeme_of_isWordStart hd]
    exact Or.inl rfl
  | symbol k => exact symbol_precedes h hcs
  | comment =>
    obtain ⟨ds, rfl, -⟩ := h
    obtain ⟨rfl, htail⟩ := List.cons_prefix_cons.1 hcs
    obtain ⟨rest, rfl⟩ := htail
    rw [List.cons_append, lexeme_comment]
    exact Or.inl rfl
  | space =>
    obtain ⟨d, ds, rfl⟩ := List.exists_cons_of_ne_nil h.1
    obtain ⟨rfl, -⟩ := List.cons_prefix_cons.1 hcs
    have hblank := h.2 d List.mem_cons_self
    rw [lexeme_of_isBlank hblank, terminal_of_blank hblank]
    exact Or.inl rfl
  | illegal =>
    by_cases hillegal : (lexeme c cs).terminal = .illegal
    · exact Or.inl hillegal.symm
    · exact Or.inr (Terminal.precedes_illegal hillegal)

/-- The lexeme at the front of a text is what trying the terminals in order yields there. -/
theorem trial_iff_lexeme {ts : List Terminal} (hts : Ordered ts) {T : Terminal} :
    Trial ts (c :: cs) T l ↔ T = (lexeme c cs).terminal ∧ lexeme c cs = ⟨T.shape, l⟩ := by
  have htakes : (lexeme c cs).terminal.Takes (c :: cs) (lexeme c cs).text :=
    ⟨lexeme_matches c cs, lexeme_text_prefix c cs, fun _ => length_le_of_matches⟩
  have hmem : (lexeme c cs).terminal ∈ ts := hts.perm.mem_iff.2 (Terminal.mem_grammar (lexeme_matches c cs))
  have hfound : Trial ts (c :: cs) (lexeme c cs).terminal (lexeme c cs).text :=
    Terminal.trial_of_precedes htakes (fun _ _ => terminal_precedes) hmem hts.sorted
  constructor
  · intro h
    obtain ⟨rfl, rfl⟩ := hfound.unique h
    exact ⟨rfl, by rw [shape_terminal]⟩
  · rintro ⟨rfl, hlexeme⟩
    rw [shape_terminal] at hlexeme
    rwa [show l = (lexeme c cs).text by rw [hlexeme]]

end Front

end Scan

end ScriptLang
