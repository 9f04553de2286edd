import ScriptLang.Proofs.Token.Split
import ScriptLang.Proofs.Tree.Down

/-!
  The tokens of two texts, one below the other.

  A line feed ends whatever stands in front of it: a number, a word, an operator or a comment does not go
  on behind it, and a string has its closing quote before.  Only a quote without a closing one would look
  further, and that is an illegal character.  So a text without illegal characters is scanned alike whatever
  stands below it, and what stands below is scanned alike with its lines counted from there.
-/

namespace ScriptLang

open Scan

namespace Scan

/-! ## A lexeme in front of a line feed -/

section Runs

variable {f : Char → Bool} {x : Char}

theorem takeWhile_append_cons (hx : f x = false) (cs ds : List Char) :
    (cs ++ x :: ds).takeWhile f = cs.takeWhile f := by
  induction cs with
  | nil => exact List.takeWhile_cons_of_neg (Bool.eq_false_iff.1 hx)
  | cons c cs ih =>
    by_cases hc : f c = true
    · rw [List.cons_append, List.takeWhile_cons_of_pos hc, List.takeWhile_cons_of_pos hc, ih]
    · rw [List.cons_append, List.takeWhile_cons_of_neg hc, List.takeWhile_cons_of_neg hc]

theorem dropWhile_append_cons (hx : f x = false) (cs ds : List Char) :
    (cs ++ x :: ds).dropWhile f = cs.dropWhile f ++ x :: ds := by
  induction cs with
  | nil => exact List.dropWhile_cons_of_neg (Bool.eq_false_iff.1 hx)
  | cons c cs ih =>
    by_cases hc : f c = true
    · rw [List.cons_append, List.dropWhile_cons_of_pos hc, List.dropWhile_cons_of_pos hc, ih]
    · rw [List.cons_append, List.dropWhile_cons_of_neg hc, List.dropWhile_cons_of_neg hc,
        List.cons_append]

end Runs

section Lexemes

variable {c : Char} {cs : List Char}

theorem number_whole (h : ∀ d es, cs.dropWhile Text.isDigit = '.' :: d :: es → Text.isDigit d = false) :
    number c cs = ⟨.plain .int, c :: cs.takeWhile Text.isDigit⟩ := by
  unfold number
  split
  · rename_i d es hrest
    rw [h d es hrest, if_neg Bool.false_ne_true]
  · rfl

theorem number_fraction {d : Char} {es : List Char} (h : cs.dropWhile Text.isDigit = '.' :: d :: es)
    (hd : Text.isDigit d = true) :
    number c cs = ⟨.plain .float, c :: cs.takeWhile Text.isDigit ++ '.' :: d :: es.takeWhile Text.isDigit⟩ := by
  unfold number
  simp only [h, hd, if_true]

theorem number_append (ds : List Char) : number c (cs ++ '\n' :: ds) = number c cs := by
  have hline : Text.isDigit '\n' = false := by decide
  by_cases hfraction : ∃ d es, cs.dropWhile Text.isDigit = '.' :: d :: es ∧ Text.isDigit d = true
  · obtain ⟨d, es, hrest, hd⟩ := hfraction
    have hrest' : (cs ++ '\n' :: ds).dropWhile Text.isDigit = '.' :: d :: (es ++ '\n' :: ds) := by
      rw [dropWhile_append_cons hline, hrest, List.cons_append, List.cons_append]
    rw [number_fraction hrest hd, number_fraction hrest' hd, takeWhile_append_cons hline,
      takeWhile_append_cons hline]
  · have hwhole : ∀ d es, cs.dropWhile Text.isDigit = '.' :: d :: es → Text.isDigit d = false := by
      intro d es hrest
      by_contra hd
      exact hfraction ⟨d, es, hrest, Bool.not_eq_false _ ▸ hd⟩
    have hwhole' : ∀ d es, (cs ++ '\n' :: ds).dropWhile Text.isDigit = '.' :: d :: es →
        Text.isDigit d = false := by
      intro d es hrest
      rw [dropWhile_append_cons hline] at hrest
      generalize cs.dropWhile Text.isDigit = r at hwhole hrest
      -- the point and the character behind it stand in front of the line feed, or that is the line feed
      rcases r with _ | ⟨x, _ | ⟨y, ys⟩⟩
      · exact absurd (List.cons.inj hrest).1 (by decide)
      · obtain ⟨-, htail⟩ := List.cons.inj hrest
        rw [← (List.cons.inj htail).1]
        exact hline
      · obtain ⟨rfl, htail⟩ := List.cons.inj hrest
        obtain ⟨rfl, -⟩ := List.cons.inj htail
        exact hwhole _ _ rfl
    rw [number_whole hwhole, number_whole hwhole', takeWhile_append_cons hline]

/-- A string ends at its own quote. -/
theorem quoted_append (hlegal : (quoted c cs).shape ≠ .plain .illegal) (ds : List Char) :
    quoted c (cs ++ ds) = quoted c cs := by
  have hsplit : cs = cs.takeWhile (· != c) ++ cs.dropWhile (· != c) := List.takeWhile_append_dropWhile.symm
  cases hrest : cs.dropWhile (· != c) with
  | nil =>
    refine absurd ?_ hlegal
    unfold quoted
    simp only [hrest]
  | cons d es =>
    have hinner : ∀ x ∈ cs.takeWhile (· != c), (x != c) = true := by
      intro x hx
      have hne := List.mem_takeWhile_imp hx
      exact hne
    have hclose : ∀ x ∈ (d :: es ++ ds).head?, (x != c) = false := by
      intro x hx
      cases hx
      have hhead := List.head?_dropWhile_not (· != c) cs
      rw [hrest] at hhead
      simpa using hhead
    rw [hrest] at hsplit
    have htake : (cs ++ ds).takeWhile (· != c) = cs.takeWhile (· != c) := by
      conv => lhs; rw [hsplit, List.append_assoc]
      exact takeWhile_append_stop hinner hclose
    have hdrop : (cs ++ ds).dropWhile (· != c) = d :: es ++ ds := by
      conv => lhs; rw [hsplit, List.append_assoc]
      exact dropWhile_append_stop hinner hclose
    unfold quoted
    simp only [htake, hdrop, hrest, List.cons_append]

theorem symbol_append (ds : List Char) : symbol c (cs ++ '\n' :: ds) = symbol c cs := by
  cases cs with
  | nil =>
    have hnone : ∀ d ∈ ('\n' :: ds).head?, pairKind? c d = none := by
      intro d hd
      cases hd
      exact pairKind?_eq_none (by decide)
    exact symbol_single hnone
  | cons d es => rfl

/-- A lexeme does not go on behind a line feed, unless it is a run of blanks. -/
theorem lexeme_append (hblank : isBlank c = false) (hlegal : (lexeme c cs).shape ≠ .plain .illegal)
    (ds : List Char) : lexeme c (cs ++ '\n' :: ds) = lexeme c cs := by
  have hhead : (cs ++ '\n' :: ds).head? = some '/' ↔ cs.head? = some '/' := by
    cases cs with
    | nil => simp
    | cons d es => exact Iff.rfl
  by_cases hcomment : c = '/' ∧ cs.head? = some '/'
  · obtain ⟨rfl, hslash⟩ := hcomment
    obtain ⟨es, rfl⟩ := List.head?_eq_some_iff.1 hslash
    rw [List.cons_append, lexeme_comment, lexeme_comment, takeWhile_append_cons (by decide)]
  by_cases hdigit : Text.isDigit c = true
  · rw [lexeme_of_isDigit hdigit, lexeme_of_isDigit hdigit, number_append]
  by_cases hword : isWordStart c = true
  · rw [lexeme_of_isWordStart hword, lexeme_of_isWordStart hword, takeWhile_append_cons (by decide)]
  by_cases hquote : c = '"' ∨ c = '\''
  · rw [lexeme_of_quote hquote] at hlegal ⊢
    rw [lexeme_of_quote hquote, quoted_append hlegal]
  have hsymbol : ∀ es : List Char, ¬ (c = '/' ∧ es.head? = some '/') → lexeme c es = symbol c es := by
    intro es hes
    unfold lexeme
    rw [hblank, if_neg Bool.false_ne_true, if_neg hes, if_neg hdigit, if_neg hword, if_neg hquote]
  rw [hsymbol cs hcomment, hsymbol _ (by rw [hhead]; exact hcomment), symbol_append]

end Lexemes

/-! ## Two texts -/

/-- Blanks only move the position. -/
theorem tokensFrom_blanks {bs : List Char} (hbs : ∀ b ∈ bs, isBlank b = true) (p : Position) (cs : List Char) :
    tokensFrom p (bs ++ cs) = tokensFrom (p.after bs) cs := by
  induction bs generalizing p with
  | nil => rfl
  | cons b bs ih =>
    rw [List.cons_append, tokensFrom_blank (hbs b List.mem_cons_self),
      ih fun x hx => hbs x (List.mem_cons_of_mem _ hx)]
    rfl

/-- One step of the scanner over a text with another below it. -/
theorem tokensFrom_append_step {c : Char} {cs : List Char} (hlegal : (lexeme c cs).shape ≠ .plain .illegal)
    (p : Position) (ds : List Char) :
    tokensFrom p (c :: cs ++ '\n' :: ds) = ((lexeme c cs).token? p).toList ++
      tokensFrom (p.after (lexeme c cs).text) ((c :: cs).drop (lexeme c cs).text.length ++ '\n' :: ds) := by
  have htext := lexeme_text_append c cs
  by_cases hblank : isBlank c = true
  · rw [lexeme_of_isBlank hblank] at htext ⊢
    have hrun : ∀ b ∈ c :: cs.takeWhile isBlank, isBlank b = true :=
      List.forall_mem_cons.2 ⟨hblank, fun b hb => List.mem_takeWhile_imp hb⟩
    generalize (c :: cs).drop _ = rest at htext ⊢
    rw [htext, List.append_assoc, tokensFrom_blanks hrun]
    rfl
  · have hsame := lexeme_append (Bool.eq_false_iff.2 hblank) hlegal ds
    have hne := lexeme_text_ne_nil c cs
    generalize lexeme c cs = l at htext hsame hne ⊢
    obtain ⟨shape, text⟩ := l
    generalize (c :: cs).drop _ = rest at htext ⊢
    obtain ⟨x, xs, rfl⟩ := List.exists_cons_of_ne_nil hne
    have hcons : c :: cs = x :: (xs ++ rest) := htext
    obtain ⟨rfl, rfl⟩ := List.cons.inj hcons
    rw [List.append_assoc] at hsame
    have hstep := tokensFrom_lexeme hsame p
    rwa [← List.append_assoc] at hstep

/-- A token that is not illegal was cut by no illegal lexeme. -/
theorem shape_ne_illegal {l : Lexeme} {p : Position} (h : ∀ t ∈ l.token? p, t.kind ≠ .illegal) :
    l.shape ≠ .plain .illegal := by
  intro hshape
  obtain ⟨shape, text⟩ := l
  cases hshape
  exact h _ rfl rfl

/-- A text without illegal characters is scanned as if nothing stood below it. -/
theorem tokensFrom_append {p : Position} {cs : List Char} (hlegal : ∀ t ∈ tokensFrom p cs, t.kind ≠ .illegal)
    (ds : List Char) : tokensFrom p (cs ++ '\n' :: ds) =
      (tokensFrom p cs).dropLast ++ tokensFrom (p.after (cs ++ ['\n'])) ds := by
  -- what is left behind the first lexeme ends where the whole text does
  have hafter (p : Position) (c : Char) (cs : List Char) : (p.after (lexeme c cs).text).after
      ((c :: cs).drop (lexeme c cs).text.length ++ ['\n']) = p.after (c :: cs ++ ['\n']) := by
    unfold Position.after
    rw [← List.foldl_append, ← List.append_assoc, ← lexeme_text_append]
  fun_induction tokensFrom p cs with
  | case1 p => exact tokensFrom_blank (by decide) p ds
  | case2 p c cs l rest t htoken ih =>
    obtain ⟨ht, hrest⟩ := List.forall_mem_cons.1 hlegal
    have hshape : l.shape ≠ .plain .illegal := by
      refine shape_ne_illegal (p := p) fun u hu => ?_
      rw [htoken] at hu
      cases hu
      exact ht
    have hne : rest ≠ [] := by
      obtain ⟨ts, z, hts, -⟩ := tokensFrom_ends (p.after l.text) ((c :: cs).drop l.text.length)
      rw [show rest = ts ++ [z] from hts]
      exact List.append_ne_nil_of_right_ne_nil _ (List.cons_ne_nil _ _)
    rw [tokensFrom_append_step hshape, ih hrest, hafter, htoken, List.dropLast_cons_of_ne_nil hne]
    rfl
  | case3 p c cs l rest htoken ih =>
    have hshape : l.shape ≠ .plain .illegal := by
      refine shape_ne_illegal (p := p) fun u hu => ?_
      rw [htoken] at hu
      cases hu
    rw [tokensFrom_append_step hshape, ih hlegal, hafter, htoken]
    rfl

end Scan

/-! ## Further down -/

namespace Position

/-- The same column `k` lines further down. -/
def down (k : Nat) (p : Position) : Position := ⟨p.line + k, p.column⟩

theorem next_down (k : Nat) (p : Position) (c : Char) : (p.down k).next c = (p.next c).down k := by
  unfold next
  by_cases hc : c = '\n'
  · rw [if_pos hc, if_pos hc]
    show (⟨p.line + k + 1, 1⟩ : Position) = ⟨p.line + 1 + k, 1⟩
    rw [Nat.add_right_comm]
  · rw [if_neg hc, if_neg hc]
    rfl

theorem after_down (k : Nat) (p : Position) (cs : List Char) : (p.down k).after cs = (p.after cs).down k := by
  induction cs generalizing p with
  | nil => rfl
  | cons c cs ih =>
    show ((p.down k).next c).after cs = ((p.next c).after cs).down k
    rw [next_down, ih]

end Position

namespace Scan

theorem token?_down (l : Lexeme) (k : Nat) (p : Position) :
    l.token? (p.down k) = (l.token? p).map (Token.down k) := by
  obtain ⟨shape, text⟩ := l
  cases shape with
  | layout | word | quoted | plain _ => rfl

theorem tokensFrom_down (k : Nat) (p : Position) (cs : List Char) :
    tokensFrom (p.down k) cs = (tokensFrom p cs).map (Token.down k) := by
  fun_induction tokensFrom p cs with
  | case1 p =>
    rw [tokensFrom]
    rfl
  | case2 p c cs l rest t htoken ih =>
    have htoken' : (lexeme c cs).token? (p.down k) = some (t.down k) := by
      rw [token?_down, show (lexeme c cs).token? p = some t from htoken]
      rfl
    rw [tokensFrom]
    simp only [htoken', Position.after_down]
    rw [ih]
    rfl
  | case3 p c cs l rest htoken ih =>
    have htoken' : (lexeme c cs).token? (p.down k) = none := by
      rw [token?_down, show (lexeme c cs).token? p = none from htoken]
      rfl
    rw [tokensFrom]
    simp only [htoken', Position.after_down]
    rw [ih]

theorem kind_ne_eof {c : Char} {cs : List Char} {p : Position} {t : Token}
    (h : (lexeme c cs).token? p = some t) : t.kind ≠ .eof := by
  obtain ⟨T, hmatches, hgives⟩ := (lexeme_cutAt h).given
  intro heof
  cases T with
  | name => exact ofWord_ne (by decide) t.literal (hgives.symm.trans heof)
  | symbol k =>
    rw [show k = .eof from hgives.symm.trans heof] at hmatches
    cases hmatches
  | float | int | string | illegal => cases hgives.symm.trans heof
  | comment | space => exact hgives

/-- The last token is the only `eof`. -/
theorem tokensFrom_only_eof (p : Position) (cs : List Char) :
    ∃ ts z, tokensFrom p cs = ts ++ [z] ∧ z.kind = .eof ∧ ∀ t ∈ ts, t.kind ≠ .eof := by
  fun_induction tokensFrom p cs with
  | case1 p => exact ⟨[], _, rfl, rfl, List.forall_mem_nil _⟩
  | case2 p c cs l rest t htoken ih =>
    obtain ⟨ts, z, hts, hz, honly⟩ := ih
    exact ⟨t :: ts, z, congrArg (t :: ·) hts, hz, List.forall_mem_cons.2 ⟨kind_ne_eof htoken, honly⟩⟩
  | case3 p c cs l rest htoken ih => exact ih

end Scan

/-- The lines that a text takes up together with the line feed behind it. -/
def linesOf (source : String) : Nat := source.toList.count '\n' + 1

/-- Of two sources, one below the other, the tokens are those of the first up to its `eof` and those of the
    second as far down as the first is long, if the first has no illegal character. -/
theorem tokenize_append {s₁ : String} (hlegal : ∀ t ∈ tokenize s₁, t.kind ≠ .illegal) (s₂ : String) :
    tokenize (s₁ ++ "\n" ++ s₂) = (tokenize s₁).dropLast ++ (tokenize s₂).map (Token.down (linesOf s₁)) := by
  have htext : (s₁ ++ "\n" ++ s₂).toList = s₁.toList ++ '\n' :: s₂.toList := by
    rw [String.toList_append, String.toList_append, List.append_assoc]
    rfl
  have hbelow : Position.start.after (s₁.toList ++ ['\n']) = Position.start.down (linesOf s₁) := by
    rw [Position.after_start, columnBehind_newline, lineBehind_append]
    show (⟨1 + s₁.toList.count '\n' + 1, 1⟩ : Position) = ⟨1 + (s₁.toList.count '\n' + 1), 1⟩
    rw [Nat.add_assoc]
  unfold tokenize
  rw [htext, tokensFrom_append hlegal, hbelow, tokensFrom_down]

end ScriptLang
