import ScriptLang.Proofs.Number.Literal
import ScriptLang.Proofs.Parse.Exact
import ScriptLang.Proofs.Print.Statement

/-!
  Printing and reading again.

  Whatever a source is read as, with or without diagnostics, was spelled by some of its tokens.  Such a
  program prints as a text whose tokens spell it once more, and tokens that spell a program are read
  without a diagnostic.  So a program that was read is stable under printing and reading.
-/

namespace ScriptLang

open Parse Scan

theorem tokenize_ends (source : String) :
    ∃ t ts, tokenize source = t :: ts ∧ (ts.getLastD t).kind = .eof := by
  obtain ⟨us, z, hus, hz⟩ := tokensFrom_ends Position.start source.toList
  obtain ⟨t, ts, htokens, hlast⟩ := exists_cons_getLastD us z
  exact ⟨t, ts, hus.trans htokens, by rw [hlast, hz]⟩

/-- Of the numbers of a source only whole numbers of too many digits cannot be read. -/
theorem Parse.BadLiteral.eq_literalDigits {t : Token} {f : Fault} (h : BadLiteral t f) (hlex : Lexical t) :
    t.kind = .int ∧ digitLimit < t.literal.length ∧ f = .literalDigits t.literal.length := by
  cases h with
  | int hk hread =>
    rw [Number.readInteger_of_isDigits (hlex.isDigits hk)] at hread
    split at hread
    · rename_i hlong
      cases hread
      exact ⟨hk, hlong, rfl⟩
    · contradiction
  | float hk hread =>
    obtain ⟨ds, es, htext, hds, hes⟩ := hlex.isFloat hk
    obtain ⟨x, hx⟩ := Number.readFloat_of_isDigits htext hds hes
    rw [hx] at hread
    contradiction

/-- A program that tokens of a source spell is what its printed form is read as. -/
theorem Spells.parse_text {p : Program} {us : List Token}
    (h : Spells (.statements false p.statements) us) (hlex : ∀ t ∈ us, Lexical t) :
    ∃ q, parse p.text = .ok ⟨q, []⟩ ∧ q.bare = p.bare := by
  have hprints : ∀ s ∈ p.statements, WritesStmt (.statement false) s := h.printsAll hlex
  have hwrites : Writes p.text fun ts =>
      ∃ ss, Spells (.statements false ss) ts ∧ bareStmts ss = bareStmts p.statements :=
    writes_statements rfl (by decide) p.statements hprints
  obtain ⟨ts, p', hts, ss, hspell, hbare⟩ := hwrites Position.start [] trivial
  have htokens : tokenize p.text = ts ++ [⟨.eof, "", p'.line, p'.column⟩] := by
    rw [tokenize, ← List.append_nil (String.toList _), hts, tokensFrom]
  have hparse := parseTokens_accepts hspell (rfl : (⟨.eof, "", p'.line, p'.column⟩ : Token).kind = .eof)
  rw [← htokens] at hparse
  exact ⟨_, hparse, by rw [Program.bare, Program.bare, hbare]⟩

/-- A source is read unless reading meets a whole number of too many digits.  The program that is
    returned, complete or not, prints as a text that is read without a diagnostic as the same program
    up to tokens, which therefore prints alike. -/
theorem parse_text_parse (source : String) :
    (∃ t ∈ tokenize source, t.kind = .int ∧ digitLimit < t.literal.length ∧
      parse source = .error (.fault (.literalDigits t.literal.length))) ∨
    ∃ parsed q, parse source = .ok parsed ∧ parse parsed.program.text = .ok ⟨q, []⟩ ∧
      q.bare = parsed.program.bare ∧ q.text = parsed.program.text := by
  obtain ⟨t, ts, htokens, hends⟩ := tokenize_ends source
  have hlex : ∀ u ∈ t :: ts, Lexical u := htokens ▸ tokensFrom_lexical Position.start source.toList
  rw [parse, htokens]
  rcases parseTokens_reads hends with ⟨u, hu, f, hbad, herror⟩ | ⟨parsed, ws, hparse, hspell, hsub, -⟩
  · obtain ⟨hk, hlong, rfl⟩ := hbad.eq_literalDigits (hlex u hu)
    exact Or.inl ⟨u, hu, hk, hlong, herror⟩
  · obtain ⟨q, hq, hbare⟩ := hspell.parse_text fun u hu => hlex u (hsub.subset hu)
    refine Or.inr ⟨parsed, q, hparse, hq, hbare, ?_⟩
    rw [← q.text_bare, hbare, Program.text_bare]

end ScriptLang
