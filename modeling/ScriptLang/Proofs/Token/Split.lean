import Mathlib.Data.List.Induction
import ScriptLang.Proofs.Token.Terminal

/-!
  The tokens of a source account for every character of it.

  A source is a gap, the text of the first token, a gap, the text of the second one, and so on up to a
  last gap, where a gap is made of blanks and comments.  `Splits` is that relation between a source and
  its tokens, with the positions that the tokens carry.  The scanner yields such tokens, and since a
  position belongs to one place of a text only, there is no other way to split a source for its tokens.
-/

namespace ScriptLang

open Scan

/-! ## Positions -/

/-- The line of the place behind a text: one more than the line feeds in it. -/
def lineBehind (cs : List Char) : Nat := 1 + cs.count '\n'

/-- The column of the place behind a text: one more than the characters after its last line feed. -/
def columnBehind (cs : List Char) : Nat := 1 + (cs.reverse.takeWhile (· != '\n')).length

theorem lineBehind_append (cs ds : List Char) : lineBehind (cs ++ ds) = lineBehind cs + ds.count '\n' := by
  unfold lineBehind
  rw [List.count_append]
  omega

theorem columnBehind_append {ds : List Char} (h : '\n' ∉ ds) (cs : List Char) :
    columnBehind (cs ++ ds) = columnBehind cs + ds.length := by
  have hline : ∀ d ∈ ds.reverse, (d != '\n') = true := by
    intro d hd
    rw [bne_iff_ne]
    rintro rfl
    exact h (List.mem_reverse.1 hd)
  unfold columnBehind
  rw [List.reverse_append, List.takeWhile_append_of_pos hline, List.length_append, List.length_reverse]
  omega

theorem columnBehind_newline (cs : List Char) : columnBehind (cs ++ ['\n']) = 1 := by
  unfold columnBehind
  rw [List.reverse_append]
  rfl

/-- Positions are counted character by character. -/
theorem Position.after_start (cs : List Char) :
    Position.start.after cs = ⟨lineBehind cs, columnBehind cs⟩ := by
  induction cs using List.reverseRecOn with
  | nil => rfl
  | append_singleton cs c ih =>
    have hnext : Position.start.after (cs ++ [c]) = (Position.start.after cs).next c := by
      unfold Position.after
      rw [List.foldl_append]
      rfl
    rw [hnext, ih, lineBehind_append]
    unfold Position.next
    by_cases hc : c = '\n'
    · rw [if_pos hc, hc, columnBehind_newline]
      rfl
    · have hcount : [c].count '\n' = 0 := by
        rw [List.count_eq_zero, List.mem_singleton]
        exact fun h => hc h.symm
      rw [if_neg hc, hcount, columnBehind_append (by rw [List.mem_singleton]; exact fun h => hc h.symm)]
      rfl

/-- Behind more text there is another position. -/
theorem eq_nil_of_position {cs ds : List Char} (hline : lineBehind (cs ++ ds) = lineBehind cs)
    (hcolumn : columnBehind (cs ++ ds) = columnBehind cs) : ds = [] := by
  have hcount : ds.count '\n' = 0 := by
    rw [lineBehind_append] at hline
    omega
  rw [columnBehind_append (List.count_eq_zero.1 hcount)] at hcolumn
  exact List.length_eq_zero_iff.1 (by omega)

/-- A position belongs to one place of a text. -/
theorem eq_of_position {before xs ys r r' : List Char} (h : xs ++ r = ys ++ r')
    (hline : lineBehind (before ++ xs) = lineBehind (before ++ ys))
    (hcolumn : columnBehind (before ++ xs) = columnBehind (before ++ ys)) : xs = ys := by
  rcases List.append_eq_append_iff.1 h with ⟨ds, rfl, -⟩ | ⟨ds, rfl, -⟩
  · rw [← List.append_assoc] at hline hcolumn
    rw [eq_nil_of_position hline.symm hcolumn.symm, List.append_nil]
  · rw [← List.append_assoc] at hline hcolumn
    rw [eq_nil_of_position hline hcolumn, List.append_nil]

/-! ## Splitting a text -/

/-- Runs of blanks and comments in front of `rest`.  A comment goes up to the next line feed or to the
    end of the text. -/
inductive Gap (rest : List Char) : List Char → Prop
  | nothing : Gap rest []
  | blanks {xs g : List Char} : Terminal.space.Matches xs → Gap rest g → Gap rest (xs ++ g)
  | comment {xs g : List Char} : Terminal.comment.Matches xs → (∀ c ∈ (g ++ rest).head?, c = '\n') →
      Gap rest g → Gap rest (xs ++ g)

/-- `Splits P before ts pieces last text`: behind the text `before`, `text` is made of the pieces, each a
    gap and the text of one of the tokens `ts`, and a last gap.  Every token carries the position of its
    text, and the last, an `eof`, that of the end.  Each token, its text and what follows satisfy `P`. -/
inductive Splits (P : Token → List Char → List Char → Prop) :
    List Char → List Token → List (List Char × List Char) → List Char → List Char → Prop
  | last {before g : List Char} {z : Token} : Gap [] g → z.kind = .eof → z.literal = "" →
      z.line = lineBehind (before ++ g) → z.column = columnBehind (before ++ g) →
      Splits P before [z] [] g g
  | token {before g l rest last : List Char} {t : Token} {ts : List Token}
      {pieces : List (List Char × List Char)} : Gap (l ++ rest) g → t.HasLexeme l →
      t.line = lineBehind (before ++ g) → t.column = columnBehind (before ++ g) → P t l rest →
      Splits P (before ++ g ++ l) ts pieces last rest →
      Splits P before (t :: ts) ((g, l) :: pieces) last (g ++ (l ++ rest))

variable {P Q : Token → List Char → List Char → Prop} {before last text : List Char} {ts : List Token}
  {pieces : List (List Char × List Char)}

theorem Splits.tokens_ne_nil (h : Splits P before ts pieces last text) : ts ≠ [] := by
  cases h with
  | last => exact List.cons_ne_nil _ _
  | token => exact List.cons_ne_nil _ _

/-- The text of a token at the front of a text is determined by the token. -/
theorem Token.HasLexeme.unique {t : Token} {l l' r r' : List Char} (h : t.HasLexeme l)
    (h' : t.HasLexeme l') (htext : l ++ r = l' ++ r') : l = l' := by
  cases h with
  | bare hk =>
    cases h' with
    | bare => rfl
    | quoted hk' => exact absurd hk' hk
  | quoted hk =>
    cases h' with
    | bare hk' => exact absurd hk hk'
    | quoted =>
      obtain ⟨rfl, -⟩ := List.cons.inj htext
      rfl

/-- A text is split for its tokens in one way. -/
theorem Splits.unique {pieces' : List (List Char × List Char)} {last' : List Char}
    (h : Splits P before ts pieces last text) (h' : Splits Q before ts pieces' last' text) :
    pieces' = pieces ∧ last' = last := by
  induction h generalizing pieces' last' with
  | last =>
    cases h' with
    | last => exact ⟨rfl, rfl⟩
    | token _ _ _ _ _ hrest => exact absurd rfl hrest.tokens_ne_nil
  | @token before g l rest last t ts pieces _ hlexeme hline hcolumn _ hrest ih =>
    generalize htext : g ++ (l ++ rest) = text' at h'
    cases h' with
    | last => exact absurd rfl hrest.tokens_ne_nil
    | @token _ g' l' rest' _ _ _ pieces' _ hlexeme' hline' hcolumn' _ hrest' =>
      have hg : g = g' := eq_of_position htext (hline.symm.trans hline') (hcolumn.symm.trans hcolumn')
      subst hg
      have htail := List.append_cancel_left htext
      have hl : l = l' := hlexeme.unique hlexeme' htail
      subst hl
      have hrests : rest = rest' := List.append_cancel_left htail
      subst hrests
      obtain ⟨rfl, rfl⟩ := ih hrest'
      exact ⟨rfl, rfl⟩

/-- Blanks or a comment in front of a text that is split belong to its first gap. -/
theorem Splits.behind {xs : List Char} (hxs : ∀ g r, g ++ r = text → Gap r g → Gap r (xs ++ g))
    (h : Splits P (before ++ xs) ts pieces last text) :
    ∃ pieces' last', Splits P before ts pieces' last' (xs ++ text) := by
  cases h with
  | last hg hkind hliteral hline hcolumn =>
    rw [List.append_assoc] at hline hcolumn
    exact ⟨[], _, Splits.last (hxs _ [] (List.append_nil _) hg) hkind hliteral hline hcolumn⟩
  | @token _ g l rest _ t ts pieces hg hlexeme hline hcolumn hP hrest =>
    refine ⟨(xs ++ g, l) :: pieces, last, ?_⟩
    rw [List.append_assoc] at hline hcolumn
    rw [← List.append_assoc xs g]
    refine Splits.token (hxs g (l ++ rest) rfl hg) hlexeme hline hcolumn hP ?_
    rwa [← List.append_assoc before xs g]

/-! ## What the scanner yields -/

namespace Scan

theorem shape_of_no_token {l : Lexeme} {p : Position} (h : l.token? p = none) : l.shape = .layout := by
  obtain ⟨shape, text⟩ := l
  cases shape with
  | layout => rfl
  | word | quoted | plain k => cases h

/-- A lexeme without a token is a run of blanks or a comment up to the end of its line. -/
theorem lexeme_layout {c : Char} {cs rest : List Char} {p : Position}
    (hrest : c :: cs = (lexeme c cs).text ++ rest) (h : (lexeme c cs).token? p = none) :
    Terminal.space.Matches (lexeme c cs).text ∨
      Terminal.comment.Matches (lexeme c cs).text ∧ ∀ d ∈ rest.head?, d = '\n' := by
  have hmatches := lexeme_matches c cs
  unfold Lexeme.terminal at hmatches
  rw [shape_of_no_token h] at hmatches
  by_cases hslash : (lexeme c cs).text.head? = some '/'
  · have hcomment : Terminal.comment.Matches (lexeme c cs).text := by simpa only [if_pos hslash] using hmatches
    refine Or.inr ⟨hcomment, fun d hd => ?_⟩
    -- a comment with any other character behind it would be a longer one
    by_contra hline
    obtain ⟨ds, htext, hds⟩ := hcomment
    obtain ⟨rest, rfl⟩ := List.head?_eq_some_iff.1 hd
    have hlonger : Terminal.comment.Matches ((lexeme c cs).text ++ [d]) := by
      refine ⟨ds ++ [d], by rw [htext]; rfl, fun hmem => ?_⟩
      rcases List.mem_append.1 hmem with hmem | hmem
      · exact hds hmem
      · exact hline (List.mem_singleton.1 hmem).symm
    have hprefix : (lexeme c cs).text ++ [d] <+: c :: cs := ⟨rest, by rw [List.append_assoc]; exact hrest.symm⟩
    have hle := length_le_of_matches hlonger hprefix
    rw [List.length_append, List.length_singleton] at hle
    omega
  · exact Or.inl (by simpa only [if_neg hslash] using hmatches)

/-- A lexeme and what follows it. -/
theorem lexeme_text_append (c : Char) (cs : List Char) :
    c :: cs = (lexeme c cs).text ++ (c :: cs).drop (lexeme c cs).text.length := by
  obtain ⟨rest, hrest⟩ := lexeme_text_prefix c cs
  generalize (lexeme c cs).text = l at hrest ⊢
  rw [← hrest, List.drop_left]

/-- Scanning splits the text, and takes the longest lexeme at every place. -/
theorem tokensFrom_splits {p : Position} (cs : List Char) :
    ∀ before, p = Position.start.after before →
      ∃ pieces last, Splits Longest before (tokensFrom p cs) pieces last cs := by
  fun_induction tokensFrom p cs with
  | case1 p =>
    rintro before rfl
    rw [Position.after_start]
    refine ⟨[], [], Splits.last Gap.nothing rfl rfl ?_ ?_⟩
    · rw [List.append_nil]
    · rw [List.append_nil]
  | case2 p c cs l rest t htoken ih =>
    rintro before rfl
    have htext := lexeme_text_append c cs
    obtain ⟨pieces, last, hsplits⟩ := ih (before ++ l.text) (List.foldl_append ..).symm
    have hcut := lexeme_cutAt htoken
    rw [Position.after_start] at hcut
    refine ⟨([], l.text) :: pieces, last, ?_⟩
    have hwhole : Splits Longest before (t :: rest) (([], l.text) :: pieces) last
        ([] ++ (l.text ++ (c :: cs).drop l.text.length)) := by
      refine Splits.token Gap.nothing hcut.lexeme ?_ ?_ (lexeme_longest htext htoken) ?_
      · rw [List.append_nil]
        exact hcut.line
      · rw [List.append_nil]
        exact hcut.column
      · rw [List.append_nil]
        exact hsplits
    rwa [List.nil_append, ← htext] at hwhole
  | case3 p c cs l rest htoken ih =>
    rintro before rfl
    have htext := lexeme_text_append c cs
    obtain ⟨pieces, last, hsplits⟩ := ih (before ++ l.text) (List.foldl_append ..).symm
    rw [htext]
    refine hsplits.behind fun g r hg hgap => ?_
    rcases lexeme_layout htext htoken with hspace | ⟨hcomment, hhead⟩
    · exact Gap.blanks hspace hgap
    · exact Gap.comment hcomment (by rw [hg]; exact hhead) hgap

end Scan

/-- The tokens of a source account for every character of it: the source is made of their texts and of gaps,
    in one way only, and the tokens carry the positions of their texts.  Each text is the longest that a
    terminal matches at its place, and an illegal character stands only where no other terminal matches. -/
theorem tokenize_splits (source : String) :
    ∃ pieces last, Splits Longest [] (tokenize source) pieces last source.toList ∧
      ∀ pieces' last', Splits (fun _ _ _ => True) [] (tokenize source) pieces' last' source.toList →
        pieces' = pieces ∧ last' = last := by
  obtain ⟨pieces, last, hsplits⟩ := Scan.tokensFrom_splits source.toList [] rfl
  exact ⟨pieces, last, hsplits, fun pieces' last' h => hsplits.unique h⟩

end ScriptLang
