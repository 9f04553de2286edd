import ScriptLang.Proofs.Token.Emits

/-!
  The terminals of the language, and that the scanner takes the longest.

  A terminal is a class of texts.  At the front of a text several of them can match, and one terminal
  in several ways: `12.5` starts with the numbers `1`, `12` and `12.5`.  `lexeme` takes a text that is
  as long as any of these, and an illegal character only where nothing else matches.  The first
  character tells which terminals come into question.
-/

namespace ScriptLang

/-- The terminals: what a source is made of.  Spaces and comments are dropped. -/
inductive Terminal
  | float
  | int
  | string
  | name
  | symbol (kind : TokenKind)
  | comment
  | space
  | illegal
  deriving DecidableEq, Repr

namespace Terminal

open Scan

/-- The texts that a terminal matches. -/
def Matches : Terminal → List Char → Prop
  | float, cs => ∃ ds es, cs = ds ++ '.' :: es ∧ IsDigits ds ∧ IsDigits es
  | int, cs => IsDigits cs
  | string, cs => ∃ q ds, (q = '"' ∨ q = '\'') ∧ q ∉ ds ∧ cs = q :: ds ++ [q]
  | name, cs => IsWord cs
  | symbol kind, cs => kind.symbol? = some (String.ofList cs)
  | comment, cs => ∃ ds, cs = '/' :: '/' :: ds ∧ '\n' ∉ ds
  | space, cs => cs ≠ [] ∧ ∀ c ∈ cs, isBlank c = true
  | illegal, cs => ∃ c, cs = [c] ∧ c ≠ '\n'

/-- The kind of the token that a terminal gives, which for a name depends on its text.  Comments and
    spaces give none. -/
def Gives : Terminal → Token → Prop
  | float, t => t.kind = .float
  | int, t => t.kind = .int
  | string, t => t.kind = .string
  | name, t => t.kind = .ofWord t.literal
  | symbol kind, t => t.kind = kind
  | illegal, t => t.kind = .illegal
  | comment, _ | space, _ => False

end Terminal

namespace Scan

/-- The terminal that a lexeme is taken for. -/
def Lexeme.terminal (l : Lexeme) : Terminal :=
  match l.shape with
  | .layout => if l.text.head? = some '/' then .comment else .space
  | .word => .name
  | .quoted => .string
  | .plain .float => .float
  | .plain .int => .int
  | .plain .illegal => .illegal
  | .plain kind => .symbol kind

/-! ## What the first character tells -/

theorem prefix_takeWhile {f : Char → Bool} {ds cs : List Char} (hds : ∀ d ∈ ds, f d = true)
    (h : ds <+: cs) : ds.length ≤ (cs.takeWhile f).length := by
  obtain ⟨rest, rfl⟩ := h
  rw [List.takeWhile_append_of_pos hds, List.length_append]
  omega

theorem lexeme_comment (cs : List Char) :
    lexeme '/' ('/' :: cs) = ⟨.layout, '/' :: '/' :: cs.takeWhile (· != '\n')⟩ := by
  unfold lexeme
  rw [if_neg (by decide), if_pos ⟨rfl, rfl⟩, List.takeWhile_cons_of_pos (by decide)]

/-- The symbols by their characters. -/
theorem symbol?_cases {k : TokenKind} {cs : List Char} (h : k.symbol? = some (String.ofList cs)) :
    (∃ c ∈ symbolStarts, cs = [c] ∧ singleKind c = k) ∨
      ∃ c ∈ symbolStarts, ∃ d, c ≠ '/' ∧ cs = [c, d] ∧ pairKind? c d = some k := by
  have hcs : k.symbol?.map String.toList = some cs := by
    rw [h, Option.map_some, String.toList_ofList]
  cases k <;> cases hcs
  all_goals
    first
    | exact Or.inl ⟨_, by decide, rfl, rfl⟩
    | exact Or.inr ⟨_, by decide, _, by decide, rfl, rfl⟩

/-! ## No terminal matches more than the lexeme -/

/-- The lexeme at the front of `c :: cs` is not illegal, and not shorter than `l`. -/
def Covers (l : List Char) (c : Char) (cs : List Char) : Prop :=
  l.length ≤ (lexeme c cs).text.length ∧ (lexeme c cs).shape ≠ .plain .illegal

theorem number_covers {c : Char} {cs ds : List Char} (hc : Text.isDigit c = true)
    (hds : ∀ d ∈ ds, Text.isDigit d = true) (hcs : ds <+: cs) : Covers (c :: ds) c cs := by
  have hwhole := prefix_takeWhile hds hcs
  unfold Covers
  rw [lexeme_of_isDigit hc]
  unfold number
  split
  · split
    · constructor
      · simp only [List.length_cons, List.length_append]
        omega
      · show Shape.plain .float ≠ _
        decide
    · constructor
      · simp only [List.length_cons]
        omega
      · show Shape.plain .int ≠ _
        decide
  · constructor
    · simp only [List.length_cons]
      omega
    · show Shape.plain .int ≠ _
      decide

/-- A number with a fraction: the digits in front of the point end there. -/
theorem lexeme_fraction {c e : Char} {ds es : List Char} (hds : IsDigits (c :: ds))
    (he : Text.isDigit e = true) (rest : List Char) :
    lexeme c (ds ++ '.' :: e :: es ++ rest) =
      ⟨.plain .float, c :: ds ++ '.' :: e :: (es ++ rest).takeWhile Text.isDigit⟩ := by
  have hdigits : ∀ x ∈ ds, Text.isDigit x = true := fun x hx => hds.2 x (List.mem_cons_of_mem _ hx)
  have hpoint : ∀ x ∈ ('.' :: e :: es ++ rest).head?, Text.isDigit x = false := by
    intro x hx
    cases hx
    decide
  rw [lexeme_of_isDigit (hds.2 c List.mem_cons_self), number, List.append_assoc,
    takeWhile_append_stop hdigits hpoint, dropWhile_append_stop hdigits hpoint]
  simp only [List.cons_append, he, if_true]

theorem fraction_covers {c : Char} {ds es cs : List Char} (hds : IsDigits (c :: ds)) (hes : IsDigits es)
    (hcs : ds ++ '.' :: es <+: cs) : Covers (c :: ds ++ '.' :: es) c cs := by
  obtain ⟨rest, rfl⟩ := hcs
  obtain ⟨e, es, rfl⟩ := List.exists_cons_of_ne_nil hes.1
  have hfraction : es.length ≤ ((es ++ rest).takeWhile Text.isDigit).length :=
    prefix_takeWhile (fun x hx => hes.2 x (List.mem_cons_of_mem _ hx)) (List.prefix_append _ _)
  unfold Covers
  rw [lexeme_fraction hds (hes.2 e List.mem_cons_self)]
  constructor
  · simp only [List.length_cons, List.length_append]
    omega
  · show Shape.plain .float ≠ _
    decide

theorem word_covers {c : Char} {cs ds : List Char} (hc : isWordStart c = true)
    (hds : ∀ d ∈ ds, isWordChar d = true) (hcs : ds <+: cs) : Covers (c :: ds) c cs := by
  unfold Covers
  rw [lexeme_of_isWordStart hc]
  constructor
  · exact Nat.succ_le_succ (prefix_takeWhile hds hcs)
  · show Shape.word ≠ _
    decide

theorem comment_covers {ds cs : List Char} (hds : '\n' ∉ ds) (hcs : ds <+: cs) :
    Covers ('/' :: '/' :: ds) '/' ('/' :: cs) := by
  have hline : ∀ d ∈ ds, (d != '\n') = true := by
    intro d hd
    rw [bne_iff_ne]
    rintro rfl
    exact hds hd
  unfold Covers
  rw [lexeme_comment]
  constructor
  · exact Nat.succ_le_succ (Nat.succ_le_succ (prefix_takeWhile hline hcs))
  · show Shape.layout ≠ _
    decide

theorem blank_covers {c : Char} {cs ds : List Char} (hc : isBlank c = true)
    (hds : ∀ d ∈ ds, isBlank d = true) (hcs : ds <+: cs) : Covers (c :: ds) c cs := by
  unfold Covers
  rw [lexeme_of_isBlank hc]
  constructor
  · exact Nat.succ_le_succ (prefix_takeWhile hds hcs)
  · show Shape.layout ≠ _
    decide

theorem lexeme_length_pos (c : Char) (cs : List Char) : 1 ≤ (lexeme c cs).text.length :=
  List.length_pos_iff.2 (lexeme_text_ne_nil c cs)

theorem pairKind?_ne_illegal {c d : Char} {k : TokenKind} (h : pairKind? c d = some k) : k ≠ .illegal := by
  rintro rfl
  have hsymbol := pairKind?_symbol h
  cases hsymbol

/-- A symbol is not illegal; if it is a single character it may start a longer symbol or a comment. -/
theorem symbol_covers {k : TokenKind} {l cs : List Char} {c : Char}
    (hl : k.symbol? = some (String.ofList l)) (hcs : l <+: c :: cs) : Covers l c cs := by
  rcases symbol?_cases hl with ⟨d, hd, rfl, hk⟩ | ⟨d, hd, e, hslash, rfl, hk⟩
  · obtain ⟨rfl, -⟩ := List.cons_prefix_cons.1 hcs
    refine ⟨lexeme_length_pos d cs, ?_⟩
    have hkind : singleKind d ≠ .illegal := by
      rw [hk]
      rintro rfl
      cases hl
    by_cases hcomment : d = '/' ∧ cs.head? = some '/'
    · unfold lexeme
      rw [if_neg (by rw [hcomment.1]; decide), if_pos hcomment]
      show Shape.layout ≠ _
      decide
    · rw [lexeme_eq_symbol hd fun h hhead => hcomment ⟨h, hhead⟩]
      unfold symbol
      split
      · exact fun h => hkind (Shape.plain.inj h)
      · split
        · rename_i hpair
          exact fun h => pairKind?_ne_illegal hpair (Shape.plain.inj h)
        · exact fun h => hkind (Shape.plain.inj h)
  · obtain ⟨rfl, htail⟩ := List.cons_prefix_cons.1 hcs
    obtain ⟨rest, rfl⟩ := htail
    have htext : lexeme d ([e] ++ rest) = ⟨.plain k, [d, e]⟩ := by
      rw [lexeme_eq_symbol hd fun h => absurd h hslash]
      unfold symbol
      simp only [List.singleton_append, hk]
    unfold Covers
    rw [htext]
    exact ⟨Nat.le_refl _, fun h => pairKind?_ne_illegal hk (Shape.plain.inj h)⟩

/-- Every terminal but the illegal character is covered by the lexeme where it matches. -/
theorem covers_of_matches {T : Terminal} {l cs : List Char} {c : Char} (h : T.Matches l)
    (hT : T ≠ .illegal) (hcs : l <+: c :: cs) : Covers l c cs := by
  cases T with
  | float =>
    obtain ⟨ds, es, rfl, hds, hes⟩ := h
    obtain ⟨d, ds, rfl⟩ := List.exists_cons_of_ne_nil hds.1
    obtain ⟨rfl, htail⟩ := List.cons_prefix_cons.1 hcs
    exact fraction_covers hds hes htail
  | int =>
    obtain ⟨d, ds, rfl⟩ := List.exists_cons_of_ne_nil h.1
    obtain ⟨rfl, htail⟩ := List.cons_prefix_cons.1 hcs
    exact number_covers (h.2 d List.mem_cons_self) (fun x hx => h.2 x (List.mem_cons_of_mem _ hx)) htail
  | string =>
    obtain ⟨q, ds, hq, hds, rfl⟩ := h
    rw [List.cons_append] at hcs
    obtain ⟨rfl, htail⟩ := List.cons_prefix_cons.1 hcs
    obtain ⟨rest, rfl⟩ := htail
    unfold Covers
    rw [lexeme_quoted hq hds]
    refine ⟨Nat.le_refl _, ?_⟩
    show Shape.quoted ≠ _
    decide
  | name =>
    obtain ⟨d, ds, rfl, hd, hds⟩ := h
    obtain ⟨rfl, htail⟩ := List.cons_prefix_cons.1 hcs
    exact word_covers hd hds htail
  | symbol k => exact symbol_covers h hcs
  | comment =>
    obtain ⟨ds, rfl, hds⟩ := h
    obtain ⟨rfl, htail⟩ := List.cons_prefix_cons.1 hcs
    obtain ⟨rest, rfl⟩ := htail
    exact comment_covers hds (List.prefix_append ds rest)
  | space =>
    obtain ⟨d, ds, rfl⟩ := List.exists_cons_of_ne_nil h.1
    obtain ⟨rfl, htail⟩ := List.cons_prefix_cons.1 hcs
    exact blank_covers (h.2 d List.mem_cons_self) (fun x hx => h.2 x (List.mem_cons_of_mem _ hx)) htail
  | illegal => exact absurd rfl hT

/-! ## A lexeme is matched by its terminal -/

section Terminals

variable {c : Char}

theorem terminal_of_symbol {k : TokenKind} {s : String} (h : k.symbol? = some s) (text : List Char) :
    (⟨.plain k, text⟩ : Lexeme).terminal = .symbol k := by
  cases k <;> first | rfl | cases h

theorem terminal_of_blank (hc : isBlank c = true) (text : List Char) :
    (⟨.layout, c :: text⟩ : Lexeme).terminal = .space := by
  refine if_neg fun h => ?_
  cases h
  exact absurd hc (by decide)

theorem number_matches (hc : Text.isDigit c = true) (cs : List Char) :
    (number c cs).terminal.Matches (number c cs).text := by
  have hrun : ∀ {d : Char} {ds : List Char}, Text.isDigit d = true →
      IsDigits (d :: ds.takeWhile Text.isDigit) := by
    intro d ds hd
    refine ⟨List.cons_ne_nil _ _, fun e he => ?_⟩
    rcases List.mem_cons.1 he with rfl | he
    · exact hd
    · exact List.mem_takeWhile_imp he
  unfold number
  split
  · split
    · rename_i hd
      exact ⟨_, _, rfl, hrun hc, hrun hd⟩
    · exact hrun hc
  · exact hrun hc

/-- A character on its own is a symbol or illegal. -/
theorem single_matches (hc : c ≠ '\n') :
    (⟨.plain (singleKind c), [c]⟩ : Lexeme).terminal.Matches [c] := by
  rcases singleKind_symbol c with hk | hsymbol
  · rw [hk]
    exact ⟨c, rfl, hc⟩
  · rw [terminal_of_symbol hsymbol]
    exact hsymbol

theorem symbol_matches (hc : c ≠ '\n') (cs : List Char) :
    (symbol c cs).terminal.Matches (symbol c cs).text := by
  unfold symbol
  split
  · exact single_matches hc
  · split
    · rename_i hpair
      rw [terminal_of_symbol (pairKind?_symbol hpair)]
      exact pairKind?_symbol hpair
    · exact single_matches hc

theorem quoted_matches (hq : c = '"' ∨ c = '\'') (cs : List Char) :
    (quoted c cs).terminal.Matches (quoted c cs).text := by
  unfold quoted
  split
  · refine ⟨c, rfl, ?_⟩
    rintro rfl
    exact absurd hq (by decide)
  · refine ⟨c, cs.takeWhile (· != c), hq, fun hmem => ?_, rfl⟩
    have hne := List.mem_takeWhile_imp hmem
    rw [bne_self_eq_false] at hne
    contradiction

theorem lexeme_matches (c : Char) (cs : List Char) :
    (lexeme c cs).terminal.Matches (lexeme c cs).text := by
  by_cases hblank : isBlank c = true
  · rw [lexeme_of_isBlank hblank, terminal_of_blank hblank]
    refine ⟨List.cons_ne_nil _ _, fun d hd => ?_⟩
    rcases List.mem_cons.1 hd with rfl | hd
    · exact hblank
    · exact List.mem_takeWhile_imp hd
  by_cases hcomment : c = '/' ∧ cs.head? = some '/'
  · obtain ⟨rfl, hhead⟩ := hcomment
    obtain ⟨ds, rfl⟩ := List.head?_eq_some_iff.1 hhead
    rw [lexeme_comment]
    exact ⟨_, rfl, fun hline => absurd (List.mem_takeWhile_imp hline) (by decide)⟩
  unfold lexeme
  rw [if_neg hblank, if_neg hcomment]
  split
  · rename_i hdigit
    exact number_matches hdigit cs
  split
  · rename_i hword
    exact ⟨c, _, rfl, hword, fun d hd => List.mem_takeWhile_imp hd⟩
  split
  · rename_i hq
    exact quoted_matches hq cs
  · refine symbol_matches ?_ cs
    rintro rfl
    exact hblank rfl

end Terminals

end Scan

/-! ## Every token is given by a terminal -/

/-- The text that a token was cut from: its literal, for a string between two quotes that are the same and
    not in it. -/
inductive Token.HasLexeme (t : Token) : List Char → Prop
  | bare : t.kind ≠ .string → t.HasLexeme t.literal.toList
  | quoted {q : Char} : t.kind = .string → q = '"' ∨ q = '\'' → q ∉ t.literal.toList →
      t.HasLexeme (q :: t.literal.toList ++ [q])

/-- The token stands at `p`, it was cut from `text`, and its kind is that of a terminal that matches
    `text`. -/
structure Token.CutAt (t : Token) (p : Position) (text : List Char) : Prop where
  line : t.line = p.line
  column : t.column = p.column
  lexeme : t.HasLexeme text
  given : ∃ T : Terminal, T.Matches text ∧ T.Gives t

namespace Scan

/-- The kind of a word is one of the word kinds. -/
theorem ofWord_ne {k : TokenKind} (hk : k ∉ wordKinds) (word : String) : TokenKind.ofWord word ≠ k := by
  rintro rfl
  exact hk (ofWord_mem word)

section Cut

variable {p : Position} {t : Token}

/-- A lexeme of a fixed kind gives a token of this kind. -/
theorem plain_gives {k : TokenKind} (text : List Char) (h : t.kind = k) :
    (⟨.plain k, text⟩ : Lexeme).terminal.Gives t := by
  cases k <;> exact h

/-- A token is cut from a lexeme that is matched by its terminal. -/
theorem Lexeme.cutAt {l : Lexeme} (hl : l.terminal.Matches l.text) (h : l.token? p = some t) :
    t.CutAt p l.text := by
  obtain ⟨shape, text⟩ := l
  have hbare {k : TokenKind} (hk : k ≠ .string) :
      (⟨k, String.ofList text, p.line, p.column⟩ : Token).HasLexeme text := by
    have hlexeme : (⟨k, String.ofList text, p.line, p.column⟩ : Token).HasLexeme
        (String.ofList text).toList := .bare hk
    rwa [String.toList_ofList] at hlexeme
  cases shape with
  | layout => cases h
  | word =>
    cases h
    exact ⟨rfl, rfl, hbare (ofWord_ne (by decide) _), .name, hl, rfl⟩
  | quoted =>
    obtain ⟨q, ds, hq, hds, rfl⟩ := hl
    have hinner : ((q :: ds ++ [q]).drop 1).dropLast = ds := by simp
    unfold Lexeme.token? at h
    simp only [hinner] at h
    cases h
    have hlexeme : (⟨.string, String.ofList ds, p.line, p.column⟩ : Token).HasLexeme
        (q :: (String.ofList ds).toList ++ [q]) :=
      .quoted rfl hq (by rw [String.toList_ofList]; exact hds)
    rw [String.toList_ofList] at hlexeme
    exact ⟨rfl, rfl, hlexeme, .string, ⟨q, ds, hq, hds, rfl⟩, rfl⟩
  | plain k =>
    cases h
    have hk : k ≠ .string := by
      rintro rfl
      cases hl
    exact ⟨rfl, rfl, hbare hk, _, hl, plain_gives text rfl⟩

/-- What is cut off the front of a text for a token. -/
theorem lexeme_cutAt {c : Char} {cs : List Char} (h : (lexeme c cs).token? p = some t) :
    t.CutAt p (lexeme c cs).text :=
  Lexeme.cutAt (lexeme_matches c cs) h

end Cut

/-- `l` is the longest text that a terminal matches at the front of `l ++ rest`.  If it became an illegal
    token, it is one character, where no other terminal matches anything. -/
def Longest (t : Token) (l rest : List Char) : Prop :=
  (∃ T : Terminal, T.Matches l ∧ T.Gives t) ∧
  (∀ T : Terminal, ∀ l', T.Matches l' → l' <+: l ++ rest → l'.length ≤ l.length) ∧
  (t.kind = .illegal → ∃ c, l = [c] ∧
    ∀ T : Terminal, T ≠ .illegal → ∀ l', T.Matches l' → ¬ l' <+: l ++ rest)

theorem shape_of_illegal {l : Lexeme} {p : Position} {t : Token} (h : l.token? p = some t)
    (ht : t.kind = .illegal) : l.shape = .plain .illegal := by
  obtain ⟨shape, text⟩ := l
  cases shape with
  | layout => cases h
  | word =>
    cases h
    exact absurd ht (ofWord_ne (by decide) _)
  | quoted =>
    cases h
    cases ht
  | plain k =>
    cases h
    exact congrArg Shape.plain ht

/-- No terminal matches more at the front of a text than its lexeme. -/
theorem length_le_of_matches {T : Terminal} {l cs : List Char} {c : Char} (h : T.Matches l)
    (hcs : l <+: c :: cs) : l.length ≤ (lexeme c cs).text.length := by
  by_cases hT : T = .illegal
  · subst hT
    obtain ⟨d, rfl, -⟩ := h
    exact lexeme_length_pos c cs
  · exact (covers_of_matches h hT hcs).1

theorem lexeme_longest {c : Char} {cs rest : List Char} {p : Position} {t : Token}
    (hrest : c :: cs = (lexeme c cs).text ++ rest) (h : (lexeme c cs).token? p = some t) :
    Longest t (lexeme c cs).text rest := by
  refine ⟨(lexeme_cutAt h).given, fun T l hmatches hprefix => ?_, fun hillegal => ?_⟩
  · exact length_le_of_matches hmatches (hrest ▸ hprefix)
  · have hshape := shape_of_illegal h hillegal
    have hmatches := lexeme_matches c cs
    unfold Lexeme.terminal at hmatches
    rw [hshape] at hmatches
    obtain ⟨d, hd, -⟩ := hmatches
    exact ⟨d, hd, fun T hT l hl hprefix => (covers_of_matches hl hT (hrest ▸ hprefix)).2 hshape⟩

end Scan

end ScriptLang
