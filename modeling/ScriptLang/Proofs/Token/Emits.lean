import Mathlib.Data.Bool.AllAny
import ScriptLang.Proofs.Token.Lexical

/-!
  Scanning a text piece by piece.

  `Emits p cs rest Q` says that scanning `cs` yields tokens with `Q` and comes to `rest`.  There is a
  rule for each kind of piece that a text can start with, and the rest of the text follows in the
  premise; a text that is put together from such pieces is scanned by one rule after the other.
  A rule asks that the piece ends where it should: a word or a number must not go on (`Loose`), and an
  operator must not join the character behind it (`Plain`).
-/

namespace ScriptLang.Scan

/-- Scanning `cs` from `p` yields tokens that satisfy `Q` and comes to `rest`. -/
def Emits (p : Position) (cs rest : List Char) (Q : List Token → Prop) : Prop :=
  ∃ ts p', tokensFrom p cs = ts ++ tokensFrom p' rest ∧ Q ts

/-- The text does not go on with a character of a word or a number. -/
def Loose : List Char → Prop
  | [] => True
  | c :: _ => isWordChar c = false ∧ Text.isDigit c = false ∧ c ≠ '.'

/-- The text does not go on with a character that an operator could join. -/
def Plain : List Char → Prop
  | [] => True
  | c :: _ => c ∉ ['=', '>', '&', '|', '+', '-', '/']

theorem loose_of_mem {c : Char} {cs : List Char}
    (h : c ∈ [' ', '\n', '(', ')', ',', ';', ':', '+', '-']) : Loose (c :: cs) := by
  have hall : ∀ c ∈ [' ', '\n', '(', ')', ',', ';', ':', '+', '-'],
      isWordChar c = false ∧ Text.isDigit c = false ∧ c ≠ '.' := List.all_iff_forall_prop.1 (by decide)
  exact hall c h

theorem plain_of_mem {c : Char} {cs : List Char} (h : c ∈ [' ', '(', ')', '"', '\'']) :
    Plain (c :: cs) := by
  have hall : ∀ c ∈ [' ', '(', ')', '"', '\''], c ∉ ['=', '>', '&', '|', '+', '-', '/'] :=
    List.all_iff_forall_prop.1 (by decide)
  exact hall c h

/-- One step of the scanner, over a lexeme whose text is known. -/
theorem tokensFrom_lexeme {c : Char} {cs rest : List Char} {shape : Shape}
    (h : lexeme c (cs ++ rest) = ⟨shape, c :: cs⟩) (p : Position) :
    tokensFrom p (c :: cs ++ rest) =
      ((⟨shape, c :: cs⟩ : Lexeme).token? p).toList ++ tokensFrom (p.after (c :: cs)) rest := by
  have hdrop : (c :: (cs ++ rest)).drop (c :: cs).length = rest := by simp
  rw [List.cons_append, tokensFrom]
  simp only [h, hdrop]
  cases (⟨shape, c :: cs⟩ : Lexeme).token? p with
  | none => rfl
  | some t => rfl

namespace Emits

variable {p : Position} {cs rest : List Char} {Q : List Token → Prop}

theorem done (h : Q []) : Emits p rest rest Q := ⟨[], p, rfl, h⟩

theorem mono {Q' : List Token → Prop} (h : Emits p cs rest Q) (himp : ∀ ts, Q ts → Q' ts) :
    Emits p cs rest Q' := by
  obtain ⟨ts, p', hts, hQ⟩ := h
  exact ⟨ts, p', hts, himp ts hQ⟩

/-- What is scanned in two parts. -/
theorem trans {ds : List Char} {P : List Token → Prop} (h : Emits p cs ds P)
    (h' : ∀ us p', P us → Emits p' ds rest fun ts => Q (us ++ ts)) : Emits p cs rest Q := by
  obtain ⟨us, p', hus, hP⟩ := h
  obtain ⟨vs, p'', hvs, hQ⟩ := h' us p' hP
  exact ⟨us ++ vs, p'', by rw [hus, hvs, List.append_assoc], hQ⟩

/-- A lexeme that stands for a token. -/
theorem lexeme {c : Char} {ds : List Char} {shape : Shape} {k : TokenKind} {text : String}
    (hlexeme : Scan.lexeme c (ds ++ cs) = ⟨shape, c :: ds⟩)
    (htoken : ∀ p : Position, (⟨shape, c :: ds⟩ : Lexeme).token? p = some ⟨k, text, p.line, p.column⟩)
    (h : ∀ t p', t.kind = k → t.literal = text → Emits p' cs rest fun ts => Q (t :: ts)) :
    Emits p (c :: ds ++ cs) rest Q := by
  obtain ⟨ts, p', hts, hQ⟩ := h ⟨k, text, p.line, p.column⟩ (p.after (c :: ds)) rfl rfl
  refine ⟨_ :: ts, p', ?_, hQ⟩
  rw [tokensFrom_lexeme hlexeme, htoken, hts]
  rfl

end Emits

/-! ## Blanks -/

theorem lexeme_of_isBlank {c : Char} (h : isBlank c = true) (cs : List Char) :
    lexeme c cs = ⟨.layout, c :: cs.takeWhile isBlank⟩ := by
  unfold lexeme
  rw [if_pos h]

theorem tokensFrom_blank {c : Char} (hc : isBlank c = true) (p : Position) (cs : List Char) :
    tokensFrom p (c :: cs) = tokensFrom (p.next c) cs := by
  -- the scanner takes a whole run of blanks at once
  have hrun : ∀ c cs p, isBlank c = true → tokensFrom p (c :: cs) =
      tokensFrom ((p.next c).after (cs.takeWhile isBlank)) (cs.dropWhile isBlank) := by
    intro c cs p hc
    have hlexeme : Scan.lexeme c (cs.takeWhile isBlank ++ cs.dropWhile isBlank) =
        ⟨.layout, c :: cs.takeWhile isBlank⟩ := by
      rw [List.takeWhile_append_dropWhile]
      exact lexeme_of_isBlank hc cs
    have hstep := tokensFrom_lexeme hlexeme p
    rw [List.cons_append, List.takeWhile_append_dropWhile] at hstep
    exact hstep
  rw [hrun c cs p hc]
  cases cs with
  | nil => rfl
  | cons d ds =>
    by_cases hd : isBlank d = true
    · rw [hrun d ds _ hd, List.takeWhile_cons_of_pos hd, List.dropWhile_cons_of_pos hd]
      rfl
    · rw [List.takeWhile_cons_of_neg hd, List.dropWhile_cons_of_neg hd]
      rfl

theorem Emits.blank {p : Position} {c : Char} {cs rest : List Char} {Q : List Token → Prop}
    (hc : isBlank c = true) (h : ∀ p', Emits p' cs rest Q) : Emits p (c :: cs) rest Q := by
  obtain ⟨ts, p', hts, hQ⟩ := h (p.next c)
  exact ⟨ts, p', by rw [tokensFrom_blank hc, hts], hQ⟩

/-! ## Symbols -/

/-- The characters that symbols start with. -/
def symbolStarts : List Char :=
  ['=', '!', '+', '-', '*', '/', '%', '<', '>', '?', ':', ';', ',', '(', ')', '\x7b', '\x7d', '&', '|']

theorem lexeme_eq_symbol {c : Char} {cs : List Char} (hc : c ∈ symbolStarts)
    (hslash : c = '/' → cs.head? ≠ some '/') : lexeme c cs = symbol c cs := by
  have hclass : ∀ c ∈ symbolStarts, isBlank c = false ∧ Text.isDigit c = false ∧
      isWordStart c = false ∧ c ≠ '"' ∧ c ≠ '\'' := List.all_iff_forall_prop.1 (by decide)
  obtain ⟨hblank, hdigit, hword, hdouble, hsingle⟩ := hclass c hc
  have hcomment : ¬ (c = '/' ∧ cs.head? = some '/') := fun h => hslash h.1 h.2
  have hquote : ¬ (c = '"' ∨ c = '\'') := not_or.2 ⟨hdouble, hsingle⟩
  unfold lexeme
  rw [hblank, hdigit, hword, if_neg (by decide), if_neg hcomment, if_neg (by decide),
    if_neg (by decide), if_neg hquote]

theorem pairKind?_eq_none {c d : Char} (hd : d ∉ ['=', '>', '&', '|', '+', '-', '/']) :
    pairKind? c d = none := by
  unfold pairKind?
  split
  all_goals
    first
    | rfl
    | exact absurd hd (by decide)

/-- A symbol of one character that the one behind it cannot join. -/
theorem symbol_single {c : Char} {cs : List Char} (h : ∀ d ∈ cs.head?, pairKind? c d = none) :
    symbol c cs = ⟨.plain (singleKind c), [c]⟩ := by
  unfold symbol
  cases cs with
  | nil => rfl
  | cons d ds => simp only [h d rfl]

/-- The symbols that no character behind them joins. -/
def marks : List (Char × TokenKind) :=
  [('?', .question), (':', .colon), (';', .semicolon), (',', .comma), ('(', .lparen), (')', .rparen),
   ('\x7b', .lbrace), ('\x7d', .rbrace)]

section Pieces

variable {p : Position} {cs rest : List Char} {Q : List Token → Prop}

/-- A punctuation mark. -/
theorem Emits.mark {c : Char} {k : TokenKind} (hc : (c, k) ∈ marks)
    (h : ∀ t p', t.kind = k → Emits p' cs rest fun ts => Q (t :: ts)) : Emits p (c :: cs) rest Q := by
  have hkind : ∀ m ∈ marks, m.1 ∈ symbolStarts ∧ m.1 ≠ '/' ∧ singleKind m.1 = m.2 := by decide
  obtain ⟨hstart, hslash, hsingle⟩ := hkind _ hc
  have hpair : ∀ d, pairKind? c d = none := by
    intro d
    simp only [marks, List.mem_cons, Prod.mk.injEq, List.not_mem_nil, or_false] at hc
    rcases hc with hc | hc | hc | hc | hc | hc | hc | hc <;> (rw [hc.1]; rfl)
  have hlexeme : Scan.lexeme c ([] ++ cs) = ⟨.plain k, [c]⟩ := by
    rw [List.nil_append, lexeme_eq_symbol hstart fun h => absurd h hslash,
      symbol_single fun d _ => hpair d]
    exact congrArg (fun k => Lexeme.mk (.plain k) [c]) hsingle
  exact Emits.lexeme hlexeme (fun _ => rfl) fun t p' hk _ => h t p' hk

theorem lexeme_operator {k : TokenKind} {text : String} (hk : k.symbol? = some text) (hcs : Plain cs) :
    ∃ c ds, text.toList = c :: ds ∧ lexeme c (ds ++ cs) = ⟨.plain k, c :: ds⟩ := by
  have hnext : ∀ d ∈ cs.head?, d ∉ ['=', '>', '&', '|', '+', '-', '/'] := by
    cases cs with
    | nil => exact fun d hd => nomatch hd
    | cons d ds =>
      intro e he
      cases he
      exact hcs
  have hsingle : ∀ c ∈ symbolStarts, lexeme c cs = ⟨.plain (singleKind c), [c]⟩ := by
    intro c hc
    rw [lexeme_eq_symbol hc fun _ hslash => hnext '/' hslash (by decide)]
    exact symbol_single fun d hd => pairKind?_eq_none (hnext d hd)
  have hpair : ∀ c d k, c ∈ symbolStarts → c ≠ '/' → pairKind? c d = some k →
      lexeme c (d :: cs) = ⟨.plain k, [c, d]⟩ := by
    intro c d k hc hslash hk
    rw [lexeme_eq_symbol hc fun h => absurd h hslash]
    unfold symbol
    simp only [hk]
  cases k <;> cases hk
  all_goals
    first
    | exact ⟨_, [], rfl, hsingle _ (by decide)⟩
    | exact ⟨_, [_], rfl, hpair _ _ _ (by decide) (by decide) rfl⟩

/-- An operator in front of a character that it cannot join. -/
theorem Emits.operator {k : TokenKind} {text : String} (hk : k.symbol? = some text) (hcs : Plain cs)
    (h : ∀ t p', t.kind = k → t.literal = text → Emits p' cs rest fun ts => Q (t :: ts)) :
    Emits p (text.toList ++ cs) rest Q := by
  obtain ⟨c, ds, htext, hlexeme⟩ := lexeme_operator hk hcs
  rw [htext]
  refine Emits.lexeme hlexeme (fun p => ?_) h
  show some (Token.mk k (String.ofList (c :: ds)) p.line p.column) = _
  rw [← htext, String.ofList_toList]

/-! ## Words, numbers and strings -/

theorem takeWhile_append_stop {f : Char → Bool} {ds cs : List Char} (hds : ∀ d ∈ ds, f d = true)
    (hcs : ∀ c ∈ cs.head?, f c = false) : (ds ++ cs).takeWhile f = ds := by
  rw [List.takeWhile_append_of_pos hds]
  cases cs with
  | nil => rw [List.takeWhile_nil, List.append_nil]
  | cons c cs => rw [List.takeWhile_cons_of_neg (by simp [hcs c rfl]), List.append_nil]

theorem dropWhile_append_stop {f : Char → Bool} {ds cs : List Char} (hds : ∀ d ∈ ds, f d = true)
    (hcs : ∀ c ∈ cs.head?, f c = false) : (ds ++ cs).dropWhile f = cs := by
  rw [List.dropWhile_append_of_pos hds]
  cases cs with
  | nil => rfl
  | cons c cs => rw [List.dropWhile_cons_of_neg (by simp [hcs c rfl])]

theorem Loose.head (h : Loose cs) :
    ∀ c ∈ cs.head?, isWordChar c = false ∧ Text.isDigit c = false ∧ c ≠ '.' := by
  intro c hc
  cases cs with
  | nil => exact nomatch hc
  | cons d ds =>
    cases hc
    exact h

theorem exists_zero_of_isDigit {c : Char} (h : Text.isDigit c = true) :
    ∃ z ∈ Text.digitZeros, z ≤ c.toNat ∧ c.toNat < z + 10 := by
  unfold Text.isDigit Text.digitValue? at h
  rw [Option.isSome_map, Option.isSome_iff_exists] at h
  obtain ⟨z, hz⟩ := h
  have hrange := List.find?_some hz
  simp only [decide_eq_true_eq] at hrange
  exact ⟨z, List.mem_of_find?_eq_some hz, hrange⟩

/-- Decimal digits are the ASCII digits or far beyond ASCII. -/
theorem toNat_of_isDigit {c : Char} (h : Text.isDigit c = true) :
    0x30 ≤ c.toNat ∧ c.toNat ≤ 0x39 ∨ 0x660 ≤ c.toNat := by
  have hzeros : ∀ z ∈ Text.digitZeros, z = 0x30 ∨ 0x660 ≤ z := by decide
  obtain ⟨z, hz, hrange⟩ := exists_zero_of_isDigit h
  have hzero := hzeros z hz
  omega

theorem ne_of_isDigit {c d : Char} (h : Text.isDigit c = true) (hd : Text.isDigit d = false) : c ≠ d := by
  rintro rfl
  rw [h] at hd
  contradiction

theorem isBlank_of_isDigit {c : Char} (h : Text.isDigit c = true) : isBlank c = false := by
  unfold isBlank
  simp [ne_of_isDigit h (show Text.isDigit ' ' = false by decide),
    ne_of_isDigit h (show Text.isDigit '\t' = false by decide),
    ne_of_isDigit h (show Text.isDigit '\x0c' = false by decide),
    ne_of_isDigit h (show Text.isDigit '\r' = false by decide),
    ne_of_isDigit h (show Text.isDigit '\n' = false by decide)]

theorem lexeme_of_isDigit {c : Char} (h : Text.isDigit c = true) (cs : List Char) :
    lexeme c cs = number c cs := by
  have hslash : ¬ (c = '/' ∧ cs.head? = some '/') := fun hc => ne_of_isDigit h (by decide) hc.1
  unfold lexeme
  rw [isBlank_of_isDigit h, if_neg (by decide), if_neg hslash, if_pos h]

theorem toNat_of_isWordStart {c : Char} (h : isWordStart c = true) : 0x41 ≤ c.toNat ∧ c.toNat < 0x7b := by
  have hclass : ((decide (c.val ≥ 'A'.val ∧ c.val ≤ 'Z'.val) ||
      (decide (c.val ≥ 'a'.val) && decide (c.val ≤ 'z'.val))) || decide (c = '_')) = true := h
  simp only [Bool.or_eq_true, Bool.and_eq_true, decide_eq_true_eq, ge_iff_le,
    UInt32.le_iff_toNat_le] at hclass
  rcases hclass with (⟨hlo, hhi⟩ | ⟨hlo, hhi⟩) | rfl
  · exact ⟨hlo, Nat.lt_of_le_of_lt hhi (by decide)⟩
  · exact ⟨Nat.le_trans (by decide) hlo, Nat.lt_of_le_of_lt hhi (by decide)⟩
  · decide

theorem lexeme_of_isWordStart {c : Char} (h : isWordStart c = true) (cs : List Char) :
    lexeme c cs = ⟨.word, c :: cs.takeWhile isWordChar⟩ := by
  have hrange := toNat_of_isWordStart h
  have hlow : ∀ d : Char, d.toNat < 0x41 → c ≠ d := by
    rintro d hd rfl
    omega
  have hblank : isBlank c = false := by
    unfold isBlank
    simp [hlow ' ' (by decide), hlow '\t' (by decide), hlow '\x0c' (by decide), hlow '\r' (by decide),
      hlow '\n' (by decide)]
  have hdigit : Text.isDigit c = false := by
    by_contra hdigit
    have := toNat_of_isDigit (Bool.not_eq_false _ ▸ hdigit)
    omega
  have hslash : ¬ (c = '/' ∧ cs.head? = some '/') := fun hc => hlow '/' (by decide) hc.1
  unfold lexeme
  rw [hblank, hdigit, if_neg (by decide), if_neg hslash, if_neg (by decide), if_pos h]

/-- A word that ends where the text goes on. -/
theorem Emits.word {word : String} (hword : IsWord word.toList) (hcs : Loose cs)
    (h : ∀ t p', t.kind = .ofWord word → t.literal = word → Emits p' cs rest fun ts => Q (t :: ts)) :
    Emits p (word.toList ++ cs) rest Q := by
  obtain ⟨c, ds, htext, hc, hds⟩ := hword
  have hlexeme : Scan.lexeme c (ds ++ cs) = ⟨.word, c :: ds⟩ := by
    rw [lexeme_of_isWordStart hc, takeWhile_append_stop hds fun c hc => (hcs.head c hc).1]
  rw [htext]
  refine Emits.lexeme hlexeme (fun p => ?_) h
  show some (Token.mk (.ofWord (String.ofList (c :: ds))) (String.ofList (c :: ds)) p.line p.column) = _
  rw [← htext, String.ofList_toList]

theorem Emits.int {text : String} (htext : IsDigits text.toList) (hcs : Loose cs)
    (h : ∀ t p', t.kind = .int → t.literal = text → Emits p' cs rest fun ts => Q (t :: ts)) :
    Emits p (text.toList ++ cs) rest Q := by
  obtain ⟨c, ds, heq⟩ := List.exists_cons_of_ne_nil htext.1
  have hdigits : ∀ d ∈ ds, Text.isDigit d = true := fun d hd =>
    htext.2 d (by rw [heq]; exact List.mem_cons_of_mem _ hd)
  have hc : Text.isDigit c = true := htext.2 c (by rw [heq]; exact List.mem_cons_self)
  have hstop : ∀ c ∈ cs.head?, Text.isDigit c = false := fun c hc => (hcs.head c hc).2.1
  have hlexeme : Scan.lexeme c (ds ++ cs) = ⟨.plain .int, c :: ds⟩ := by
    rw [lexeme_of_isDigit hc, number, takeWhile_append_stop hdigits hstop,
      dropWhile_append_stop hdigits hstop]
    split
    · exact absurd rfl (hcs.head '.' rfl).2.2
    · rfl
  rw [heq]
  refine Emits.lexeme hlexeme (fun p => ?_) h
  show some (Token.mk .int (String.ofList (c :: ds)) p.line p.column) = _
  rw [← heq, String.ofList_toList]

theorem Emits.float {text : String} {ds es : List Char} (htext : text.toList = ds ++ '.' :: es)
    (hds : IsDigits ds) (hes : IsDigits es) (hcs : Loose cs)
    (h : ∀ t p', t.kind = .float → t.literal = text → Emits p' cs rest fun ts => Q (t :: ts)) :
    Emits p (text.toList ++ cs) rest Q := by
  obtain ⟨c, ds, rfl⟩ := List.exists_cons_of_ne_nil hds.1
  obtain ⟨e, es, rfl⟩ := List.exists_cons_of_ne_nil hes.1
  have hdigits : ∀ d ∈ ds, Text.isDigit d = true := fun d hd => hds.2 d (List.mem_cons_of_mem _ hd)
  have hfraction : ∀ d ∈ es, Text.isDigit d = true := fun d hd => hes.2 d (List.mem_cons_of_mem _ hd)
  have hpoint : ∀ d ∈ (('.' :: e :: es) ++ cs).head?, Text.isDigit d = false := by
    intro d hd
    cases hd
    decide
  have hstop : ∀ c ∈ cs.head?, Text.isDigit c = false := fun c hc => (hcs.head c hc).2.1
  have hlexeme : Scan.lexeme c (ds ++ '.' :: e :: es ++ cs) =
      ⟨.plain .float, c :: (ds ++ '.' :: e :: es)⟩ := by
    rw [lexeme_of_isDigit (hds.2 c List.mem_cons_self), number, List.append_assoc,
      takeWhile_append_stop hdigits hpoint, dropWhile_append_stop hdigits hpoint]
    simp only [List.cons_append, hes.2 e List.mem_cons_self, if_true]
    rw [takeWhile_append_stop hfraction hstop]
  rw [htext]
  refine Emits.lexeme hlexeme (fun p => ?_) h
  show some (Token.mk .float (String.ofList (c :: ds ++ '.' :: e :: es)) p.line p.column) = _
  rw [← htext, String.ofList_toList]

theorem lexeme_of_quote {q : Char} (hq : q = '"' ∨ q = '\'') (cs : List Char) :
    lexeme q cs = quoted q cs := by
  have hclass : ∀ q, q = '"' ∨ q = '\'' →
      isBlank q = false ∧ q ≠ '/' ∧ Text.isDigit q = false ∧ isWordStart q = false := by
    rintro q (rfl | rfl) <;> decide
  obtain ⟨hblank, hslash, hdigit, hword⟩ := hclass q hq
  unfold lexeme
  rw [hblank, hdigit, hword, if_neg (by decide), if_neg fun hc => hslash hc.1, if_neg (by decide),
    if_neg (by decide), if_pos hq]

theorem lexeme_quoted {q : Char} {ds : List Char} (hq : q = '"' ∨ q = '\'') (hds : q ∉ ds)
    (rest : List Char) : lexeme q (ds ++ [q] ++ rest) = ⟨.quoted, q :: ds ++ [q]⟩ := by
  have hinner : ∀ d ∈ ds, (d != q) = true := by
    intro d hd
    rw [bne_iff_ne]
    rintro rfl
    exact hds hd
  have hclose : ∀ d ∈ (q :: rest).head?, (d != q) = false := by
    intro d hd
    cases hd
    exact bne_self_eq_false q
  rw [lexeme_of_quote hq, quoted, List.append_assoc, List.singleton_append,
    takeWhile_append_stop hinner hclose, dropWhile_append_stop hinner hclose]

/-- A string between quotes that it does not hold. -/
theorem Emits.quoted {q : Char} {text : String} (hq : q = '"' ∨ q = '\'') (htext : q ∉ text.toList)
    (h : ∀ t p', t.kind = .string → t.literal = text → Emits p' cs rest fun ts => Q (t :: ts)) :
    Emits p (q :: (text.toList ++ q :: cs)) rest Q := by
  have hsplit : q :: (text.toList ++ q :: cs) = q :: (text.toList ++ [q]) ++ cs := by simp
  rw [hsplit]
  refine Emits.lexeme (lexeme_quoted hq htext cs) (fun p => ?_) h
  simp [Lexeme.token?]

end Pieces

end ScriptLang.Scan
