import ScriptLang.Proofs.Print.Expression
import ScriptLang.Proofs.Token.Concat

/-!
  Layout does not matter.

  The tokens of a source are written one after the other, with blanks and comments between them as one
  likes.  A blank behind a token ends it: no word and no number goes on there, no operator joins it, and a
  string was closed before.  So the text is scanned as the same tokens, wherever they stand in it now.
-/

namespace ScriptLang

open Scan

/-! ## Writing tokens -/

/-- How a token is written: a string between quotes, any other as it is. -/
def Token.written (t : Token) : List Char :=
  if t.kind = .string then (quoteLiteral t.literal).toList else t.literal.toList

/-- What a token is, wherever it stands. -/
def Token.content (t : Token) : TokenKind × String := (t.kind, t.literal)

/-- Blanks and comments, each comment with the line feed that ends it. -/
inductive Layout : List Char → Prop
  | nothing : Layout []
  | blank {c : Char} {g : List Char} : isBlank c = true → Layout g → Layout (c :: g)
  | comment {ds g : List Char} : '\n' ∉ ds → Layout g → Layout ('/' :: '/' :: (ds ++ '\n' :: g))

/-- The layouts behind the tokens of a text: each begins with a blank, but the last may be empty. -/
inductive Spacing : List (List Char) → Prop
  | none : Spacing []
  | last : Spacing [[]]
  | behind {c : Char} {g : List Char} {gs : List (List Char)} : isBlank c = true → Layout g → Spacing gs →
      Spacing ((c :: g) :: gs)

/-- The text with layout in front of the first token and behind each. -/
def layOut (lead : List Char) (ts : List Token) (gaps : List (List Char)) : List Char :=
  lead ++ (List.zipWith (fun t g => t.written ++ g) ts gaps).flatten

/-! ## Scanning them again -/

/-- Nothing follows, or a blank. -/
def Parted (cs : List Char) : Prop := ∀ c ∈ cs.head?, isBlank c = true

theorem eq_of_isBlank {c : Char} (h : isBlank c = true) : c ∈ [' ', '\t', '\x0c', '\r', '\n'] := by
  unfold isBlank at h
  simpa [or_assoc] using h

theorem Parted.loose {cs : List Char} (h : Parted cs) : Loose cs := by
  have hall : ∀ c ∈ [' ', '\t', '\x0c', '\r', '\n'],
      isWordChar c = false ∧ Text.isDigit c = false ∧ c ≠ '.' := List.all_iff_forall_prop.1 (by decide)
  cases cs with
  | nil => trivial
  | cons c cs => exact hall c (eq_of_isBlank (h c rfl))

theorem Parted.plain {cs : List Char} (h : Parted cs) : Plain cs := by
  have hall : ∀ c ∈ [' ', '\t', '\x0c', '\r', '\n'], c ∉ ['=', '>', '&', '|', '+', '-', '/'] :=
    List.all_iff_forall_prop.1 (by decide)
  cases cs with
  | nil => trivial
  | cons c cs => exact hall c (eq_of_isBlank (h c rfl))

section Pieces

variable {p : Position} {cs rest : List Char} {Q : List Token → Prop}

/-- A comment up to its line feed is dropped. -/
theorem Scan.Emits.comment {ds : List Char} (hds : '\n' ∉ ds) (h : ∀ p', Emits p' cs rest Q) :
    Emits p ('/' :: '/' :: (ds ++ '\n' :: cs)) rest Q := by
  have hinner : ∀ d ∈ ds, (d != '\n') = true := by
    intro d hd
    rw [bne_iff_ne]
    rintro rfl
    exact hds hd
  have hlexeme : Scan.lexeme '/' (('/' :: ds) ++ '\n' :: cs) = ⟨.layout, '/' :: '/' :: ds⟩ := by
    rw [List.cons_append, lexeme_comment, takeWhile_append_stop hinner]
    intro d hd
    cases hd
    decide
  have hbehind : Emits (p.after ('/' :: '/' :: ds)) ('\n' :: cs) rest Q := Emits.blank (by decide) h
  obtain ⟨ts, p', hts, hQ⟩ := hbehind
  refine ⟨ts, p', ?_, hQ⟩
  show tokensFrom p ('/' :: ('/' :: ds) ++ '\n' :: cs) = _
  rw [tokensFrom_lexeme hlexeme, hts]
  rfl

theorem Layout.emits {g : List Char} (hg : Layout g) (h : ∀ p', Emits p' cs rest Q) :
    Emits p (g ++ cs) rest Q := by
  induction hg generalizing p with
  | nothing => exact h p
  | blank hc _ ih => exact Emits.blank hc fun p' => ih
  | @comment ds g hds _ ih =>
    have hsplit : '/' :: '/' :: (ds ++ '\n' :: g) ++ cs = '/' :: '/' :: (ds ++ '\n' :: (g ++ cs)) := by simp
    rw [hsplit]
    exact Emits.comment hds fun p' => ih

/-- A token of a source in front of a blank is scanned as itself. -/
theorem Lexical.emits {t : Token} (ht : Lexical t) (hlegal : t.kind ≠ .illegal) (heof : t.kind ≠ .eof)
    (hcs : Parted cs)
    (h : ∀ u p', u.content = t.content → Emits p' cs rest fun us => Q (u :: us)) :
    Emits p (t.written ++ cs) rest Q := by
  have hbare (hk : t.kind ≠ .string) : t.written = t.literal.toList := if_neg hk
  have hagain (u : Token) (p' : Position) (hkind : u.kind = t.kind) (hliteral : u.literal = t.literal) :
      Emits p' cs rest fun us => Q (u :: us) := h u p' (Prod.ext hkind hliteral)
  cases ht with
  | word hword hkind =>
    have hstring : t.kind ≠ .string := hkind ▸ ofWord_ne (by decide) t.literal
    rw [hbare hstring]
    exact Emits.word hword hcs.loose fun u p' hk hl => hagain u p' (hk.trans hkind.symm) hl
  | int hkind hdigits =>
    rw [hbare (by rw [hkind]; decide)]
    exact Emits.int hdigits hcs.loose fun u p' hk hl => hagain u p' (hk.trans hkind.symm) hl
  | float hkind htext hds hes =>
    rw [hbare (by rw [hkind]; decide)]
    exact Emits.float htext hds hes hcs.loose fun u p' hk hl => hagain u p' (hk.trans hkind.symm) hl
  | str hkind hq hmem =>
    have hlacks : '"' ∉ t.literal.toList ∨ '\'' ∉ t.literal.toList := (Lexical.str hkind hq hmem).lacksQuote hkind
    obtain ⟨q, hq, hmem, htext⟩ := toList_quoteLiteral hlacks
    have hwritten : t.written ++ cs = q :: (t.literal.toList ++ q :: cs) := by
      unfold Token.written
      rw [if_pos hkind, htext]
      simp
    rw [hwritten]
    exact Emits.quoted hq hmem fun u p' hk hl => hagain u p' (hk.trans hkind.symm) hl
  | symbol hsymbol =>
    have hstring : t.kind ≠ .string := by
      intro hk
      rw [hk] at hsymbol
      cases hsymbol
    rw [hbare hstring]
    exact Emits.operator hsymbol hcs.plain hagain
  | illegal hkind => exact absurd hkind hlegal
  | eof hkind => exact absurd hkind heof

end Pieces

/-- What stands behind a token is parted from it: the next token comes after a blank. -/
theorem Spacing.parted {g : List Char} {gs : List (List Char)} {ts : List Token} (h : Spacing (g :: gs)) :
    Parted (g ++ (List.zipWith (fun t g => t.written ++ g) ts gs).flatten) := by
  cases h with
  | last =>
    rw [List.zipWith_nil_right]
    exact fun c hc => nomatch hc
  | behind hc _ _ =>
    intro d hd
    cases hd
    exact hc

theorem Spacing.layout {g : List Char} {gs : List (List Char)} (h : Spacing (g :: gs)) :
    Layout g ∧ Spacing gs := by
  cases h with
  | last => exact ⟨.nothing, .none⟩
  | behind hc hg hgs => exact ⟨.blank hc hg, hgs⟩

theorem layOut_emits {lead : List Char} {ts : List Token} {gaps : List (List Char)} (hlead : Layout lead)
    (hgaps : Spacing gaps) (hlength : gaps.length = ts.length)
    (hts : ∀ t ∈ ts, Lexical t ∧ t.kind ≠ .illegal ∧ t.kind ≠ .eof) (p : Position) :
    Emits p (layOut lead ts gaps) [] fun us => us.map Token.content = ts.map Token.content := by
  refine hlead.emits fun p' => ?_
  -- by induction on the tokens, each with the layout behind it
  induction ts generalizing gaps p' with
  | nil =>
    rw [List.zipWith_nil_left]
    exact Emits.done rfl
  | cons t ts ih =>
    obtain ⟨g, gaps, rfl⟩ := List.exists_cons_of_length_eq_add_one hlength
    obtain ⟨⟨hlexical, hlegal, heof⟩, hothers⟩ := List.forall_mem_cons.1 hts
    obtain ⟨hg, hrest⟩ := hgaps.layout
    have hlength' : gaps.length = ts.length := Nat.succ.inj hlength
    rw [List.zipWith_cons_cons, List.flatten_cons, List.append_assoc]
    refine hlexical.emits hlegal heof hgaps.parted fun u p₁ hu => hg.emits fun p₂ => ?_
    refine (ih hrest hlength' hothers p₂).mono fun us hus => ?_
    rw [List.map_cons, List.map_cons, hu, hus]

/-- The tokens of a source without illegal characters, written with any layout around and between them, are
    scanned as tokens of the same kinds and texts. -/
theorem tokenize_layOut {source : String} {ts : List Token} {z : Token} (htokens : tokenize source = ts ++ [z])
    (hlegal : ∀ t ∈ ts, t.kind ≠ .illegal) {lead : List Char} {gaps : List (List Char)} (hlead : Layout lead)
    (hlength : gaps.length = ts.length) (hgaps : Spacing gaps) :
    ∃ us z', tokenize (String.ofList (layOut lead ts gaps)) = us ++ [z'] ∧
      us.map Token.content = ts.map Token.content ∧ z'.content = (.eof, "") := by
  obtain ⟨ts', z', hsource, -, honly⟩ := tokensFrom_only_eof Position.start source.toList
  have hsame : ts' = ts := (List.append_inj' (hsource.symm.trans htokens) rfl).1
  subst hsame
  have hlexical : ∀ t ∈ ts', Lexical t := by
    intro t ht
    refine tokensFrom_lexical Position.start source.toList t ?_
    rw [hsource]
    exact List.mem_append_left _ ht
  obtain ⟨us, p, hus, hcontent⟩ := layOut_emits hlead hgaps hlength
    (fun t ht => ⟨hlexical t ht, hlegal t ht, honly t ht⟩) Position.start
  refine ⟨us, ⟨.eof, "", p.line, p.column⟩, ?_, hcontent, rfl⟩
  unfold tokenize
  rw [String.toList_ofList, hus, tokensFrom]

/-- `x<=1.5` and a string with slashes and a quote in it, with a comment between them, and the same tokens
    on lines of their own with other comments. -/
theorem tokenize_layOut_comments :
    let source := "x<=1.5//'\n'a//\"b'"
    let ts : List Token :=
      [⟨.ident, "x", 1, 1⟩, ⟨.ltEq, "<=", 1, 2⟩, ⟨.float, "1.5", 1, 4⟩, ⟨.string, "a//\"b", 2, 1⟩]
    let lead := ['/', '/', '"', '\n']
    let gaps := [['\n'], ['\t', '/', '/', '\'', '\n'], ['\r', '\n'], []]
    tokenize source = ts ++ [⟨.eof, "", 2, 8⟩] ∧ (∀ t ∈ ts, t.kind ≠ .illegal) ∧ Layout lead ∧ Spacing gaps ∧
      ∃ us z, tokenize (String.ofList (layOut lead ts gaps)) = us ++ [z] ∧
        us.map Token.content = [(.ident, "x"), (.ltEq, "<="), (.float, "1.5"), (.string, "a//\"b")] ∧
        z.content = (.eof, "") := by
  intro source ts lead gaps
  have htokens : tokenize source = ts ++ [⟨.eof, "", 2, 8⟩] := by decide +kernel
  have hlegal : ∀ t ∈ ts, t.kind ≠ .illegal := by decide
  have hdouble : '\n' ∉ ['"'] := by decide
  have hsingle : '\n' ∉ ['\''] := by decide
  have hlead : Layout lead := .comment hdouble .nothing
  have hgaps : Spacing gaps :=
    .behind rfl .nothing (.behind rfl (.comment hsingle .nothing)
      (.behind rfl (.blank rfl .nothing) .last))
  exact ⟨htokens, hlegal, hlead, hgaps, tokenize_layOut htokens hlegal hlead rfl hgaps⟩

end ScriptLang
