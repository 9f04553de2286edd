import ScriptLang.Session
import ScriptLang.Proofs.Token.Concat

/-!
  Line ends of a source.

  A source may end its lines with a line feed alone or with a carriage return in front of it.  Read from a
  file, each such pair is one line feed.  The scanner sees the same tokens in both texts, at the same lines
  and columns: a carriage return is a blank, a comment may end in one, no other token but a string can hold
  one, and the line feed behind it starts the columns anew.  Only inside of strings the pairs can be seen.
-/

namespace ScriptLang

/-! ## Carriage returns in pairs -/

namespace Text

/-- Every carriage return stands right in front of a line feed. -/
def ReturnsPaired : List Char → Prop
  | [] => True
  | c :: cs => (c = '\r' → cs.head? = some '\n') ∧ ReturnsPaired cs

instance ReturnsPaired.decidable : (cs : List Char) → Decidable (ReturnsPaired cs)
  | [] => .isTrue trivial
  | _ :: cs => @instDecidableAnd _ _ _ (decidable cs)

namespace ReturnsPaired

variable {cs ds : List Char}

theorem tail {c : Char} (h : ReturnsPaired (c :: cs)) : ReturnsPaired cs := h.2

theorem exists_of_return (h : ReturnsPaired ('\r' :: cs)) : ∃ ds, cs = '\n' :: ds :=
  List.head?_eq_some_iff.1 (h.1 rfl)

theorem rest (h : ReturnsPaired (ds ++ cs)) : ReturnsPaired cs := by
  induction ds with
  | nil => exact h
  | cons d ds ih => exact ih h.2

/-- The front of such a text is one, unless it was cut inside of a pair. -/
theorem front (h : ReturnsPaired (ds ++ cs)) (hcs : cs.head? ≠ some '\n') : ReturnsPaired ds := by
  induction ds with
  | nil => trivial
  | cons d ds ih =>
    refine ⟨fun hd => ?_, ih h.2⟩
    have hhead := h.1 hd
    cases ds with
    | nil => exact absurd hhead hcs
    | cons e es => exact hhead

theorem of_not_mem (h : '\r' ∉ cs) : ReturnsPaired cs := by
  induction cs with
  | nil => trivial
  | cons c cs ih =>
    exact ⟨fun hc => absurd hc.symm (List.ne_of_not_mem_cons h), ih (List.not_mem_of_not_mem_cons h)⟩

theorem append (h : ReturnsPaired ds) (h' : ReturnsPaired cs) : ReturnsPaired (ds ++ cs) := by
  induction ds with
  | nil => exact h'
  | cons d ds ih =>
    refine ⟨fun hd => ?_, ih h.2⟩
    obtain ⟨es, rfl⟩ := List.head?_eq_some_iff.1 (h.1 hd)
    rfl

/-- Where there is no pair there is no carriage return. -/
theorem not_mem (h : ReturnsPaired cs) (hnone : ¬ ['\r', '\n'] <:+: cs) : '\r' ∉ cs := by
  intro hmem
  obtain ⟨xs, ys, rfl⟩ := List.append_of_mem hmem
  obtain ⟨zs, rfl⟩ := h.rest.exists_of_return
  exact hnone ⟨xs, zs, by rw [List.append_assoc]; rfl⟩

end ReturnsPaired

section Unify

variable {cs ds : List Char}

theorem unifyLineEnds_cons {c : Char} (hc : c ≠ '\r') (cs : List Char) :
    unifyLineEnds (c :: cs) = c :: unifyLineEnds cs := by
  rw [unifyLineEnds]
  · rintro ds rfl -
    exact hc rfl
  · exact hc

theorem unifyLineEnds_append (h : ReturnsPaired ds) (cs : List Char) :
    unifyLineEnds (ds ++ cs) = unifyLineEnds ds ++ unifyLineEnds cs := by
  fun_induction unifyLineEnds ds with
  | case1 => rfl
  | case2 ds ih => exact congrArg ('\n' :: ·) (ih h.tail.tail)
  | case3 ds hne =>
    obtain ⟨es, rfl⟩ := h.exists_of_return
    exact absurd rfl (hne es)
  | case4 c ds hne hc ih => rw [List.cons_append, unifyLineEnds_cons hc, ih h.tail, List.cons_append]

theorem unifyLineEnds_of_not_mem (h : '\r' ∉ cs) : unifyLineEnds cs = cs := by
  induction cs with
  | nil => rfl
  | cons c cs ih =>
    rw [unifyLineEnds_cons (List.ne_of_not_mem_cons h).symm, ih (List.not_mem_of_not_mem_cons h)]

/-- A run that stops at both characters of a line end or at none. -/
theorem takeWhile_unifyLineEnds {f : Char → Bool} (hf : f '\r' = f '\n') (h : ReturnsPaired cs) :
    (unifyLineEnds cs).takeWhile f = unifyLineEnds (cs.takeWhile f) := by
  fun_induction unifyLineEnds cs with
  | case1 => rfl
  | case2 cs ih =>
    rw [List.takeWhile_cons, List.takeWhile_cons, List.takeWhile_cons, hf, ih h.tail.tail]
    cases f '\n' with
    | true => rfl
    | false => rfl
  | case3 cs hne =>
    obtain ⟨ds, rfl⟩ := h.exists_of_return
    exact absurd rfl (hne ds)
  | case4 c cs _ hc ih =>
    rw [List.takeWhile_cons, List.takeWhile_cons, ih h.tail]
    cases f c with
    | true => exact (unifyLineEnds_cons hc _).symm
    | false => rfl

/-- What follows a run that does not stop inside of a pair, or in front of one. -/
theorem dropWhile_unifyLineEnds {f : Char → Bool} (hf : f '\n' = true → f '\r' = true) (h : ReturnsPaired cs) :
    (unifyLineEnds cs).dropWhile f = unifyLineEnds (cs.dropWhile f) := by
  fun_induction unifyLineEnds cs with
  | case1 => rfl
  | case2 cs ih =>
    rw [List.dropWhile_cons, List.dropWhile_cons, List.dropWhile_cons, ih h.tail.tail]
    cases hline : f '\n' with
    | true => rw [hf hline, if_pos rfl, if_pos rfl, if_pos rfl]
    | false =>
      cases f '\r' with
      | true => rfl
      | false => rfl
  | case3 cs hne =>
    obtain ⟨ds, rfl⟩ := h.exists_of_return
    exact absurd rfl (hne ds)
  | case4 c cs _ hc ih =>
    rw [List.dropWhile_cons, List.dropWhile_cons, ih h.tail]
    cases f c with
    | true => rfl
    | false => exact (unifyLineEnds_cons hc cs).symm

theorem unifyLineEnds_return (cs : List Char) : ∃ ds, unifyLineEnds ('\r' :: cs) = '\n' :: ds := by
  by_cases hline : ∃ ds, cs = '\n' :: ds
  · obtain ⟨ds, rfl⟩ := hline
    exact ⟨unifyLineEnds ds, rfl⟩
  · refine ⟨unifyLineEnds cs, ?_⟩
    rw [unifyLineEnds]
    exact fun ds hds => hline ⟨ds, hds⟩

/-- What is no line end stands in the unified text where it stood before. -/
theorem eq_cons_of_unifyLineEnds {c : Char} (hc : c ≠ '\n') (h : unifyLineEnds cs = c :: ds) :
    ∃ es, cs = c :: es ∧ unifyLineEnds es = ds := by
  revert h
  fun_cases unifyLineEnds cs with
  | case1 => exact nofun
  | case2 | case3 => exact fun h => absurd (List.cons.inj h).1.symm hc
  | case4 d es =>
    intro h
    obtain ⟨rfl, hds⟩ := List.cons.inj h
    exact ⟨es, rfl, hds⟩

end Unify

end Text

/-- Positions count line feeds, and columns start anew behind each of them. -/
theorem Position.after_unifyLineEnds {cs : List Char} (h : Text.ReturnsPaired cs) (p : Position) :
    p.after (Text.unifyLineEnds cs) = p.after cs := by
  fun_induction Text.unifyLineEnds cs generalizing p with
  | case1 => rfl
  | case2 cs ih => exact ih h.tail.tail _
  | case3 cs hne =>
    obtain ⟨ds, rfl⟩ := h.exists_of_return
    exact absurd rfl (hne ds)
  | case4 c cs _ hc ih => exact ih h.tail _

theorem Position.after_of_not_mem {cs : List Char} (h : '\n' ∉ cs) (p : Position) :
    p.after cs = ⟨p.line, p.column + cs.length⟩ := by
  induction cs generalizing p with
  | nil => rfl
  | cons c cs ih =>
    have hnext : p.next c = ⟨p.line, p.column + 1⟩ := if_neg (List.ne_of_not_mem_cons h).symm
    show (p.next c).after cs = _
    rw [ih (List.not_mem_of_not_mem_cons h), hnext, List.length_cons, Nat.add_assoc, Nat.add_comm 1]

/-! ## Lexemes -/

/-- The token with the line ends in its text unified, if it is a string. -/
def Token.unified (t : Token) : Token :=
  if t.kind = .string then { t with literal := Text.unifyNewlines t.literal } else t

namespace Scan

open Text

/-- `l'` is `l` with unified line ends, and none of them was cut in two. -/
structure Lexeme.Unifies (l l' : Lexeme) : Prop where
  paired : ReturnsPaired l.text
  text : l'.text = unifyLineEnds l.text
  token : ∀ p, l'.token? p = (l.token? p).map Token.unified

/-- Every lexeme but a string and layout is free of carriage returns. -/
theorem Lexeme.Unifies.of_not_mem {l : Lexeme} (hr : '\r' ∉ l.text)
    (hkind : ∀ p t, l.token? p = some t → t.kind ≠ .string) : l.Unifies l where
  paired := .of_not_mem hr
  text := (unifyLineEnds_of_not_mem hr).symm
  token p := by
    cases ht : l.token? p with
    | none => rfl
    | some t => exact congrArg some (if_neg (hkind p t ht)).symm

/-- Only a quoted text gives a string. -/
theorem kind_ne_string {l : Lexeme} {p : Position} {t : Token} (hl : l.terminal.Matches l.text)
    (hplain : ∃ k, l.shape = .plain k) (h : l.token? p = some t) : t.kind ≠ .string := by
  obtain ⟨shape, text⟩ := l
  obtain ⟨k, rfl⟩ := hplain
  cases h
  rintro rfl
  cases hl

section Lexemes

variable {c : Char} {cs : List Char}

theorem not_mem_takeWhile {f : Char → Bool} {x : Char} (hx : f x = false) (cs : List Char) :
    x ∉ cs.takeWhile f := by
  intro hmem
  rw [List.mem_takeWhile_imp hmem] at hx
  cases hx

/-- A run that no character of a line end belongs to. -/
theorem takeWhile_unifyLineEnds_eq {f : Char → Bool} (hr : f '\r' = false) (hn : f '\n' = false)
    (h : ReturnsPaired cs) : (unifyLineEnds cs).takeWhile f = cs.takeWhile f := by
  rw [takeWhile_unifyLineEnds (hr.trans hn.symm) h, unifyLineEnds_of_not_mem (not_mem_takeWhile hr cs)]

theorem return_not_mem_number (hc : Text.isDigit c = true) (cs : List Char) : '\r' ∉ (number c cs).text := by
  have hr : Text.isDigit '\r' = false := by decide
  have hfirst {d : Char} (hd : Text.isDigit d = true) : '\r' ≠ d := (ne_of_isDigit hd hr).symm
  have hrun (ds : List Char) : '\r' ∉ ds.takeWhile Text.isDigit := not_mem_takeWhile hr ds
  unfold number
  split
  · split
    · rename_i hd
      simp [hfirst hc, hfirst hd, hrun]
    · simp [hfirst hc, hrun]
  · simp [hfirst hc, hrun]

/-- A number ends in front of a line end, whichever that is. -/
theorem number_unifyLineEnds (h : ReturnsPaired cs) : number c (unifyLineEnds cs) = number c cs := by
  have hr : Text.isDigit '\r' = false := by decide
  have hn : Text.isDigit '\n' = false := by decide
  have htake := takeWhile_unifyLineEnds_eq hr hn h
  have hdrop : (unifyLineEnds cs).dropWhile Text.isDigit = unifyLineEnds (cs.dropWhile Text.isDigit) :=
    dropWhile_unifyLineEnds (fun hline => absurd (hn.symm.trans hline) Bool.false_ne_true) h
  have hpaired : ReturnsPaired (cs.dropWhile Text.isDigit) := by
    rw [← List.takeWhile_append_dropWhile (p := Text.isDigit) (l := cs)] at h
    exact h.rest
  by_cases hfraction : ∃ d es, cs.dropWhile Text.isDigit = '.' :: d :: es ∧ Text.isDigit d = true
  · obtain ⟨d, es, hrest, hd⟩ := hfraction
    rw [hrest] at hdrop hpaired
    rw [unifyLineEnds_cons (by decide), unifyLineEnds_cons (ne_of_isDigit hd hr)] at hdrop
    rw [number_fraction hrest hd, number_fraction hdrop hd, htake,
      takeWhile_unifyLineEnds_eq hr hn hpaired.tail.tail]
  · have hwhole (d : Char) (es : List Char) (hrest : cs.dropWhile Text.isDigit = '.' :: d :: es) :
        Text.isDigit d = false := by
      by_contra hd
      rw [Bool.not_eq_false] at hd
      exact hfraction ⟨d, es, hrest, hd⟩
    have hwhole' (d : Char) (es : List Char) (hrest : (unifyLineEnds cs).dropWhile Text.isDigit = '.' :: d :: es) :
        Text.isDigit d = false := by
      by_contra hd
      rw [Bool.not_eq_false] at hd
      obtain ⟨xs, hpoint, hxs⟩ := eq_cons_of_unifyLineEnds (by decide) (hdrop.symm.trans hrest)
      obtain ⟨ys, rfl, -⟩ := eq_cons_of_unifyLineEnds (ne_of_isDigit hd hn) hxs
      exact hfraction ⟨d, ys, hpoint, hd⟩
    rw [number_whole hwhole, number_whole hwhole', htake]

theorem number_plain (c : Char) (cs : List Char) : ∃ k, (number c cs).shape = .plain k := by
  unfold number
  split
  · split
    · exact ⟨_, rfl⟩
    · exact ⟨_, rfl⟩
  · exact ⟨_, rfl⟩

theorem number_unifies (hc : Text.isDigit c = true) (h : ReturnsPaired cs) :
    (number c cs).Unifies (number c (unifyLineEnds cs)) := by
  rw [number_unifyLineEnds h]
  exact .of_not_mem (return_not_mem_number hc cs) fun p t ht =>
    kind_ne_string (number_matches hc cs) (number_plain c cs) ht

theorem word_unifies (hc : isWordStart c = true) (h : ReturnsPaired cs) :
    (⟨.word, c :: cs.takeWhile isWordChar⟩ : Lexeme).Unifies
      ⟨.word, c :: (unifyLineEnds cs).takeWhile isWordChar⟩ := by
  have hr : isWordChar '\r' = false := by decide
  rw [takeWhile_unifyLineEnds_eq hr (by decide) h]
  refine .of_not_mem (fun hmem => ?_) fun p t ht => ?_
  · rcases List.mem_cons.1 hmem with rfl | hmem
    · exact absurd hc (by decide)
    · exact not_mem_takeWhile hr cs hmem
  · cases ht
    exact ofWord_ne (by decide) _

/-- A character of a line end joins no symbol. -/
theorem symbol_unifyLineEnds (c : Char) (cs : List Char) : symbol c (unifyLineEnds cs) = symbol c cs := by
  have hnone {d : Char} (hd : d = '\r' ∨ d = '\n') : pairKind? c d = none := by
    refine pairKind?_eq_none ?_
    rcases hd with rfl | rfl
    · decide
    · decide
  cases cs with
  | nil => rfl
  | cons d ds =>
    by_cases hd : d = '\r'
    · subst hd
      obtain ⟨es, hes⟩ := unifyLineEnds_return ds
      rw [hes, symbol_single (fun x hx => ?_), symbol_single fun x hx => ?_]
      · cases hx
        exact hnone (Or.inl rfl)
      · cases hx
        exact hnone (Or.inr rfl)
    · rw [unifyLineEnds_cons hd]
      rfl

theorem return_not_mem_symbol (hc : c ≠ '\r') (cs : List Char) : '\r' ∉ (symbol c cs).text := by
  unfold symbol
  split
  · simpa using hc.symm
  · rename_i d ds
    split
    · rename_i k hpair
      have hd : '\r' ≠ d := by
        rintro rfl
        rw [pairKind?_eq_none (by decide)] at hpair
        cases hpair
      simpa using ⟨hc.symm, hd⟩
    · simpa using hc.symm

theorem symbol_plain (c : Char) (cs : List Char) : ∃ k, (symbol c cs).shape = .plain k := by
  unfold symbol
  split
  · exact ⟨_, rfl⟩
  · split
    · exact ⟨_, rfl⟩
    · exact ⟨_, rfl⟩

theorem symbol_unifies (hblank : isBlank c = false) (cs : List Char) :
    (symbol c cs).Unifies (symbol c (unifyLineEnds cs)) := by
  have hne {d : Char} (hd : isBlank d = true) : c ≠ d := by
    rintro rfl
    rw [hblank] at hd
    cases hd
  rw [symbol_unifyLineEnds]
  exact .of_not_mem (return_not_mem_symbol (hne (by decide)) cs) fun p t ht =>
    kind_ne_string (symbol_matches (hne (by decide)) cs) (symbol_plain c cs) ht

theorem quoted_open (h : cs.dropWhile (· != c) = []) : quoted c cs = ⟨.plain .illegal, [c]⟩ := by
  unfold quoted
  rw [h]

theorem quoted_closed {d : Char} {ds : List Char} (h : cs.dropWhile (· != c) = d :: ds) :
    quoted c cs = ⟨.quoted, c :: cs.takeWhile (· != c) ++ [c]⟩ := by
  unfold quoted
  rw [h]

theorem token?_quoted (q : Char) (ds : List Char) (p : Position) :
    (⟨.quoted, q :: ds ++ [q]⟩ : Lexeme).token? p = some ⟨.string, String.ofList ds, p.line, p.column⟩ := by
  simp [Lexeme.token?]

/-- A string goes on behind line ends, and they are unified in it. -/
theorem quoted_unifies (hq : c = '"' ∨ c = '\'') (h : ReturnsPaired cs) :
    (quoted c cs).Unifies (quoted c (unifyLineEnds cs)) := by
  have hne : c ≠ '\r' ∧ c ≠ '\n' := by
    rcases hq with rfl | rfl
    · decide
    · decide
  have hr : ('\r' != c) = true := bne_iff_ne.2 hne.1.symm
  have hn : ('\n' != c) = true := bne_iff_ne.2 hne.2.symm
  have hdrop : (unifyLineEnds cs).dropWhile (· != c) = unifyLineEnds (cs.dropWhile (· != c)) :=
    dropWhile_unifyLineEnds (fun _ => hr) h
  have htake : (unifyLineEnds cs).takeWhile (· != c) = unifyLineEnds (cs.takeWhile (· != c)) :=
    takeWhile_unifyLineEnds (hr.trans hn.symm) h
  cases hrest : cs.dropWhile (· != c) with
  | nil =>
    rw [hrest] at hdrop
    rw [quoted_open hrest, quoted_open hdrop]
    refine .of_not_mem ?_ fun p t ht => ?_
    · simpa using hne.1.symm
    · cases ht
      exact nofun
  | cons d ds =>
    have hd : d = c := by
      have hhead := List.head?_dropWhile_not (· != c) cs
      rw [hrest] at hhead
      simpa using hhead
    subst hd
    rw [hrest, unifyLineEnds_cons hne.1] at hdrop
    -- the closing quote stands behind the last carriage return and its line feed
    have hinner : ReturnsPaired (cs.takeWhile (· != d)) := by
      rw [← List.takeWhile_append_dropWhile (p := (· != d)) (l := cs), hrest] at h
      exact h.front fun hhead => hne.2 (Option.some.inj hhead)
    have hclose : ReturnsPaired [d] := ⟨fun hd => absurd hd hne.1, trivial⟩
    rw [quoted_closed hrest, quoted_closed hdrop, htake]
    refine ⟨⟨fun hd => absurd hd hne.1, hinner.append hclose⟩, ?_, fun p => ?_⟩
    · show _ = unifyLineEnds (d :: (cs.takeWhile (· != d) ++ [d]))
      rw [unifyLineEnds_cons hne.1, unifyLineEnds_append hinner, unifyLineEnds_cons hne.1]
      rfl
    · rw [token?_quoted, token?_quoted, Option.map_some, Token.unified, if_pos rfl, unifyNewlines,
        String.toList_ofList]

/-- Where the line ends of a text are unified, they are unified in its first lexeme and nothing else
    happens to it, unless it is layout. -/
theorem lexeme_unifies (hblank : isBlank c = false) (hcomment : ¬ (c = '/' ∧ cs.head? = some '/'))
    (h : ReturnsPaired cs) : (lexeme c cs).Unifies (lexeme c (unifyLineEnds cs)) := by
  have hcomment' : ¬ (c = '/' ∧ (unifyLineEnds cs).head? = some '/') := by
    rintro ⟨hc, hhead⟩
    obtain ⟨ds, hds⟩ := List.head?_eq_some_iff.1 hhead
    obtain ⟨es, rfl, -⟩ := eq_cons_of_unifyLineEnds (by decide) hds
    exact hcomment ⟨hc, rfl⟩
  unfold lexeme
  rw [hblank, if_neg Bool.false_ne_true, if_neg Bool.false_ne_true, if_neg hcomment, if_neg hcomment']
  by_cases hdigit : Text.isDigit c = true
  · rw [if_pos hdigit, if_pos hdigit]
    exact number_unifies hdigit h
  rw [if_neg hdigit, if_neg hdigit]
  by_cases hword : isWordStart c = true
  · rw [if_pos hword, if_pos hword]
    exact word_unifies hword h
  rw [if_neg hword, if_neg hword]
  by_cases hquote : c = '"' ∨ c = '\''
  · rw [if_pos hquote, if_pos hquote]
    exact quoted_unifies hquote h
  · rw [if_neg hquote, if_neg hquote]
    exact symbol_unifies hblank cs

end Lexemes

/-! ## Scanning -/

section Scanning

variable {c : Char} {cs : List Char} {p : Position}

/-- One step of the scanner. -/
theorem tokensFrom_cons (p : Position) (c : Char) (cs : List Char) :
    tokensFrom p (c :: cs) = ((lexeme c cs).token? p).toList ++
      tokensFrom (p.after (lexeme c cs).text) ((c :: cs).drop (lexeme c cs).text.length) := by
  rw [tokensFrom]
  cases (lexeme c cs).token? p with
  | none => rfl
  | some t => rfl

/-- A line feed starts the columns anew, so that of the place in front of it does not matter. -/
theorem tokensFrom_newline (line column column' : Nat) (cs : List Char) :
    tokensFrom ⟨line, column⟩ ('\n' :: cs) = tokensFrom ⟨line, column'⟩ ('\n' :: cs) := by
  rw [tokensFrom_blank (by decide), tokensFrom_blank (by decide)]
  rfl

/-- A comment leads to the end of its line. -/
theorem tokensFrom_comment (p : Position) (cs : List Char) :
    tokensFrom p ('/' :: '/' :: cs) =
      tokensFrom ⟨p.line, p.column + (2 + (cs.takeWhile (· != '\n')).length)⟩ (cs.dropWhile (· != '\n')) := by
  have hline : '\n' ∉ '/' :: '/' :: cs.takeWhile (· != '\n') := by
    simpa using not_mem_takeWhile (f := (· != '\n')) (by decide) cs
  have hlexeme : lexeme '/' ('/' :: cs.takeWhile (· != '\n') ++ cs.dropWhile (· != '\n')) =
      ⟨.layout, '/' :: '/' :: cs.takeWhile (· != '\n')⟩ := by
    rw [List.cons_append, List.takeWhile_append_dropWhile, lexeme_comment]
  have hstep := tokensFrom_lexeme hlexeme p
  rw [List.cons_append, List.cons_append, List.takeWhile_append_dropWhile, Position.after_of_not_mem hline] at hstep
  rw [hstep, List.length_cons, List.length_cons, Nat.add_comm 2]
  rfl

/-- With its line ends unified the text has the same tokens, up to the line ends in their literals. -/
def ScansAlike (cs : List Char) : Prop :=
  ∀ p, tokensFrom p (unifyLineEnds cs) = (tokensFrom p cs).map Token.unified

theorem scansAlike_nil : ScansAlike [] := by
  intro p
  rw [unifyLineEnds, tokensFrom]
  rfl

theorem ScansAlike.pair (h : ScansAlike cs) : ScansAlike ('\r' :: '\n' :: cs) := by
  intro p
  rw [unifyLineEnds, tokensFrom_blank (by decide), tokensFrom_blank (by decide), tokensFrom_blank (by decide), ← h]
  rfl

theorem ScansAlike.blank (h : ScansAlike cs) (hc : isBlank c = true) (hreturn : c ≠ '\r') :
    ScansAlike (c :: cs) := by
  intro p
  rw [unifyLineEnds_cons hreturn, tokensFrom_blank hc, tokensFrom_blank hc, h]

/-- A carriage return at the end of a comment moves the line feed behind it by a column. -/
theorem ScansAlike.comment (h : ScansAlike (cs.dropWhile (· != '\n'))) (hcs : ReturnsPaired cs) :
    ScansAlike ('/' :: '/' :: cs) := by
  intro p
  have hdrop : (unifyLineEnds cs).dropWhile (· != '\n') = unifyLineEnds (cs.dropWhile (· != '\n')) :=
    dropWhile_unifyLineEnds (fun _ => by decide) hcs
  rw [unifyLineEnds_cons (by decide), unifyLineEnds_cons (by decide), tokensFrom_comment, tokensFrom_comment, hdrop,
    ← h]
  cases hrest : cs.dropWhile (· != '\n') with
  | nil =>
    have hreturn : '\r' ∉ cs := by
      refine hcs.not_mem fun hpair => ?_
      have hline : '\n' ∈ cs := hpair.subset (by decide)
      have hall := List.dropWhile_eq_nil_iff.1 hrest _ hline
      exact absurd hall (by decide)
    rw [unifyLineEnds_of_not_mem hreturn]
  | cons d ds =>
    obtain rfl : d = '\n' := by
      have hhead := List.head?_dropWhile_not (· != '\n') cs
      rw [hrest] at hhead
      simpa using hhead
    rw [unifyLineEnds_cons (by decide)]
    exact tokensFrom_newline _ _ _ _

/-- Every other lexeme is unified on its own, and so is what follows it. -/
theorem ScansAlike.step (h : ScansAlike ((c :: cs).drop (lexeme c cs).text.length))
    (hl : (lexeme c cs).Unifies (lexeme c (unifyLineEnds cs))) (hreturn : c ≠ '\r') :
    ScansAlike (c :: cs) := by
  intro p
  have hsplit := lexeme_text_append c cs
  have hrest : (c :: unifyLineEnds cs).drop (lexeme c (unifyLineEnds cs)).text.length =
      unifyLineEnds ((c :: cs).drop (lexeme c cs).text.length) := by
    rw [← unifyLineEnds_cons hreturn, hl.text]
    generalize (c :: cs).drop _ = rest at hsplit ⊢
    rw [hsplit, unifyLineEnds_append hl.paired, List.drop_left]
  rw [unifyLineEnds_cons hreturn, tokensFrom_cons, tokensFrom_cons, hrest, h, hl.token, hl.text,
    Position.after_unifyLineEnds hl.paired, List.map_append]
  cases (lexeme c cs).token? p with
  | none => rfl
  | some t => rfl

/-- The induction is on the length of the text. -/
theorem scansAlike (h : ReturnsPaired cs) : ScansAlike cs := by
  induction hn : cs.length using Nat.strong_induction_on generalizing cs with
  | _ n ih =>
    subst hn
    cases cs with
    | nil => exact scansAlike_nil
    | cons c cs =>
      by_cases hreturn : c = '\r'
      · subst hreturn
        obtain ⟨ds, rfl⟩ := h.exists_of_return
        have hlt : ds.length < ('\r' :: '\n' :: ds).length := by
          simp only [List.length_cons]
          omega
        exact (ih _ hlt h.tail.tail rfl).pair
      by_cases hblank : isBlank c = true
      · exact (ih _ (Nat.lt_succ_self _) h.tail rfl).blank hblank hreturn
      by_cases hcomment : c = '/' ∧ cs.head? = some '/'
      · obtain ⟨rfl, hhead⟩ := hcomment
        obtain ⟨ds, rfl⟩ := List.head?_eq_some_iff.1 hhead
        have hrest : ReturnsPaired (ds.dropWhile (· != '\n')) := by
          have hds := h.tail.tail
          rw [← List.takeWhile_append_dropWhile (p := (· != '\n')) (l := ds)] at hds
          exact hds.rest
        have hlt : (ds.dropWhile (· != '\n')).length < ('/' :: '/' :: ds).length := by
          have hle := (List.dropWhile_sublist (l := ds) (· != '\n')).length_le
          simp only [List.length_cons]
          omega
        exact (ih _ hlt hrest rfl).comment h.tail.tail
      · have hlt : ((c :: cs).drop (lexeme c cs).text.length).length < (c :: cs).length := by
          have hpos := lexeme_length_pos c cs
          rw [List.length_drop, List.length_cons]
          omega
        have hrest : ReturnsPaired ((c :: cs).drop (lexeme c cs).text.length) := by
          have hsplit := lexeme_text_append c cs
          generalize (c :: cs).drop _ = rest at hsplit ⊢
          rw [hsplit] at h
          exact h.rest
        exact (ih _ hlt hrest rfl).step (lexeme_unifies (Bool.eq_false_iff.2 hblank) hcomment h.tail) hreturn

/-- The closing quote of a string is no line feed, so no pair is cut in two by it. -/
theorem literal_returnsPaired (h : ReturnsPaired cs) :
    ∀ t ∈ tokensFrom p cs, t.kind = .string → ReturnsPaired t.literal.toList := by
  fun_induction tokensFrom p cs with
  | case1 p =>
    intro t ht hkind
    cases List.mem_singleton.1 ht
    cases hkind
  | case2 p c cs l rest t htoken ih =>
    have hsplit := lexeme_text_append c cs
    rw [hsplit] at h
    refine List.forall_mem_cons.2 ⟨fun hkind => ?_, ih h.rest⟩
    have hlexeme : t.HasLexeme (lexeme c cs).text := (lexeme_cutAt htoken).lexeme
    generalize (lexeme c cs).text = text at h hlexeme
    cases hlexeme with
    | bare hne => exact absurd hkind hne
    | @quoted q _ hq _ =>
      rw [List.append_assoc] at h
      refine h.tail.front fun hhead => ?_
      cases hhead
      exact absurd hq (by decide)
  | case3 p c cs l rest htoken ih =>
    have hsplit := lexeme_text_append c cs
    rw [hsplit] at h
    exact ih h.rest

end Scanning

end Scan

/-! ## Sources -/

theorem Text.unifyNewlines_of_not_mem {s : String} (h : '\r' ∉ s.toList) : unifyNewlines s = s := by
  rw [unifyNewlines, unifyLineEnds_of_not_mem h, String.ofList_toList]

/-- A token keeps its text if no line end in it has a carriage return. -/
theorem Token.unified_eq_self {t : Token} (h : t.kind = .string → '\r' ∉ t.literal.toList) : t.unified = t := by
  unfold Token.unified
  by_cases hkind : t.kind = .string
  · rw [if_pos hkind, Text.unifyNewlines_of_not_mem (h hkind)]
  · rw [if_neg hkind]

/-- A file is read as the text in it with unified line ends. -/
theorem readSource?_toUTF8 (s : String) : readSource? s.toUTF8 = some (Text.unifyNewlines s) := by
  have htext : String.fromUTF8? s.toUTF8 = some s := dif_pos s.isValidUTF8
  rw [readSource?, htext]
  rfl

/-- If every carriage return of a source stands right in front of a line feed, the source has the same tokens
    with unified line ends: as many, of the same kinds and at the same places, with the same texts up to the
    line ends in strings, in which carriage returns stand in front of line feeds too.

    If no string has such a line end, the tokens are the same.  So the source is read as the same program
    with the same diagnostics, and run from a file it does what it does as a text. -/
theorem lineEnds_unseen {s : String} (h : Text.ReturnsPaired s.toList) :
    tokenize (Text.unifyNewlines s) = (tokenize s).map Token.unified ∧
    (∀ t ∈ tokenize s, t.kind = .string → Text.ReturnsPaired t.literal.toList) ∧
    ((∀ t ∈ tokenize s, t.kind = .string → ¬ ['\r', '\n'] <:+: t.literal.toList) →
      tokenize (Text.unifyNewlines s) = tokenize s ∧ parse (Text.unifyNewlines s) = parse s ∧
      ∀ settings, (readSource? s.toUTF8).map (run settings) = some (run settings s)) := by
  have htokens : tokenize (Text.unifyNewlines s) = (tokenize s).map Token.unified := by
    unfold tokenize Text.unifyNewlines
    rw [String.toList_ofList]
    exact Scan.scansAlike h _
  have hliterals : ∀ t ∈ tokenize s, t.kind = .string → Text.ReturnsPaired t.literal.toList :=
    Scan.literal_returnsPaired h
  refine ⟨htokens, hliterals, fun hnone => ?_⟩
  have hself (t : Token) (ht : t ∈ tokenize s) : t.unified = t :=
    Token.unified_eq_self fun hkind => (hliterals t ht hkind).not_mem (hnone t ht hkind)
  have hsame : tokenize (Text.unifyNewlines s) = tokenize s := by
    rw [htokens, List.map_congr_left hself, List.map_id']
  have hparse : parse (Text.unifyNewlines s) = parse s := by rw [parse, parse, hsame]
  refine ⟨hsame, hparse, fun settings => ?_⟩
  rw [readSource?_toUTF8, Option.map_some, run, run, Machine.runSource, Machine.runSource, hparse]

/-- A carriage return at the end of a comment, one among blanks and one at the end of the source.  In a string
    the pair becomes a line feed. -/
theorem lineEnds_unseen_comment :
    let s := "display('a'); // b\r\n\r\ndisplay(1);\r\n"
    let s' := "'a\r\nb';"
    Text.ReturnsPaired s.toList ∧ Text.ReturnsPaired s'.toList ∧
    (∀ t ∈ tokenize s, t.kind = .string → ¬ ['\r', '\n'] <:+: t.literal.toList) ∧
    (readSource? s.toUTF8).map (run {}) = some (run {} s) ∧ (run {} s).2.output = "a\n1\n" ∧
    tokenize (Text.unifyNewlines s') = (tokenize s').map Token.unified ∧
    (tokenize s').map Token.unified = [⟨.string, "a\nb", 1, 1⟩, ⟨.semicolon, ";", 2, 3⟩, ⟨.eof, "", 2, 4⟩] := by
  intro s s'
  have hs : Text.ReturnsPaired s.toList := by decide +kernel
  have hs' : Text.ReturnsPaired s'.toList := by decide +kernel
  have hnone : ∀ t ∈ tokenize s, t.kind = .string → ¬ ['\r', '\n'] <:+: t.literal.toList := by decide +kernel
  exact ⟨hs, hs', hnone, ((lineEnds_unseen hs).2.2 hnone).2.2 {}, by decide +kernel, (lineEnds_unseen hs').1,
    by decide +kernel⟩

end ScriptLang
