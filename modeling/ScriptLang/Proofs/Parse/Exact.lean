import ScriptLang.Proofs.Parse.Complete.Statement
import ScriptLang.Proofs.Parse.Sound.Statement

/-!
  Reading a list of tokens is exact.

  Two statements about `parseTokens` carry everything: what it returns for any tokens that end the
  input, and that it returns the tree of the tokens when they have one.  Together they say that the
  tokens that are read without a diagnostic are those that the grammar derives.
-/

namespace ScriptLang

open Parse

/-- What reading comes to: it stops at a number that cannot be read, or it returns statements that were
    spelled by tokens of the list, by all of them in front of an `eof` if nothing was reported. -/
theorem parseTokens_reads {t : Token} {ts : List Token} (hends : (ts.getLastD t).kind = .eof) :
    (∃ u ∈ t :: ts, ∃ f, BadLiteral u f ∧ parseTokens (t :: ts) = .error (.fault f)) ∨
    ∃ parsed ws, parseTokens (t :: ts) = .ok parsed ∧
      Spells (.statements false parsed.program.statements) ws ∧ ws.Sublist (t :: ts) ∧
      parsed.program.token = t ∧
      (parsed.diagnostics = [] → ∃ z rest, t :: ts = ws ++ z :: rest ∧ z.kind = .eof) := by
  have hmeets : Meets Span ⟨t, ts, [], false⟩ _ (program (4 * ((t :: ts).length + 1)) ⟨t, ts, [], false⟩) :=
    program_reads (by simp only [List.length_cons]; omega) hends
  unfold parseTokens
  dsimp only
  cases hrun : program (4 * ((t :: ts).length + 1)) ⟨t, ts, [], false⟩ with
  | ok p s =>
    rw [hrun] at hmeets
    obtain ⟨ws, ⟨us, ds, htokens, hdiag, -, hsub, hall⟩, hspell, htoken, heof⟩ := hmeets
    refine Or.inr ⟨⟨p, s.diagnostics⟩, ws, rfl, hspell, ?_, htoken, fun hnil => ?_⟩
    · rw [htokens]
      exact hsub.trans (List.sublist_append_left _ _)
    · have hds : ds = [] := by rw [← hnil, hdiag]; rfl
      exact ⟨s.current, s.rest, by rw [htokens, hall hds], heof⟩
  | error e s =>
    rw [hrun] at hmeets
    cases e with
    | halt h =>
      obtain ⟨u, hu, f, hbad, rfl⟩ := hmeets
      exact Or.inl ⟨u, hu, f, hbad, rfl⟩
    | rejected =>
      refine Or.inr ⟨⟨⟨t, []⟩, s.diagnostics⟩, [], rfl, Spells.noStatements, List.nil_sublist _, rfl, ?_⟩
      exact fun hnil => absurd hnil hmeets.2

/-- The tree that is spelled in front of an `eof` is returned. -/
theorem parseTokens_accepts {ss : List Stmt} {ts : List Token} {z : Token}
    (h : Spells (.statements false ss) ts) (hz : z.kind = .eof) :
    parseTokens (ts ++ [z]) = .ok ⟨⟨ts.headD z, ss⟩, []⟩ := by
  obtain ⟨t, us, htokens⟩ : ∃ t us, ts ++ [z] = t :: us := List.exists_cons_of_ne_nil (by simp)
  have hhead : ts.headD z = t := by
    cases ts with
    | nil => exact (List.cons.inj htokens).1
    | cons u us => exact (List.cons.inj htokens).1
  have hrun : program (4 * ((t :: us).length + 1)) ⟨t, us, [], false⟩ = .ok ⟨t, ss⟩ ⟨z, [], [], false⟩ :=
    program_accepts h htokens.symm hz (by simp only [List.length_cons]; omega)
  rw [htokens, hhead]
  unfold parseTokens
  simp only [hrun]

/-- The tokens in front of the only `eof` of a list are determined by it. -/
theorem eq_of_only_eof {ts ws rest : List Token} {z e : Token} (honly : ∀ t ∈ ts, t.kind ≠ .eof)
    (he : e.kind = .eof) (h : ts ++ [z] = ws ++ e :: rest) : ws = ts := by
  induction ts generalizing ws with
  | nil =>
    cases ws with
    | nil => rfl
    | cons w ws => simp at h
  | cons t ts ih =>
    cases ws with
    | nil =>
      obtain ⟨rfl, -⟩ := List.cons.inj h
      exact absurd he (honly _ List.mem_cons_self)
    | cons w ws =>
      obtain ⟨rfl, htail⟩ := List.cons.inj h
      rw [ih (fun t ht => honly t (List.mem_cons_of_mem _ ht)) htail]

/-- A list of tokens with one `eof`, at its end, and with numbers that can be read is always read.
    Nothing is reported exactly if the grammar derives the tokens in front of the `eof`, and then the
    tree of the derivation is returned. -/
theorem parseTokens_exact {ts : List Token} {z : Token} (hz : z.kind = .eof)
    (honly : ∀ t ∈ ts, t.kind ≠ .eof) (hread : ∀ t ∈ ts, ∀ f, ¬ BadLiteral t f) :
    ∃ parsed, parseTokens (ts ++ [z]) = .ok parsed ∧
      (parsed.diagnostics = [] ↔ ∃ ss, Spells (.statements false ss) ts) ∧
      ∀ ss, Spells (.statements false ss) ts → parsed.program = ⟨ts.headD z, ss⟩ := by
  have hreads : ∀ u ∈ ts ++ [z], ∀ f, ¬ BadLiteral u f := by
    intro u hu f hbad
    rcases List.mem_append.1 hu with hu | hu
    · exact hread u hu f hbad
    · rw [List.mem_singleton.1 hu] at hbad
      cases hbad with
      | int hk => rw [hz] at hk; contradiction
      | float hk => rw [hz] at hk; contradiction
  obtain ⟨t, us, htokens, hlast⟩ := exists_cons_getLastD ts z
  rw [htokens] at hreads
  rcases parseTokens_reads (by rw [hlast, hz]) with ⟨u, hu, f, hbad, -⟩ | ⟨parsed, ws, hparse, hspell, -, -, hclean⟩
  · exact absurd hbad (hreads u hu f)
  have htree : ∀ ss, Spells (.statements false ss) ts → parsed = ⟨⟨ts.headD z, ss⟩, []⟩ := by
    intro ss hss
    have haccepts := parseTokens_accepts hss hz
    rw [htokens, hparse] at haccepts
    exact Except.ok.inj haccepts
  refine ⟨parsed, by rw [htokens, hparse], ⟨fun hnil => ?_, ?_⟩, fun ss hss => by rw [htree ss hss]⟩
  · obtain ⟨e, rest, heq, he⟩ := hclean hnil
    rw [← htokens] at heq
    exact ⟨_, eq_of_only_eof honly he heq ▸ hspell⟩
  · rintro ⟨ss, hss⟩
    rw [htree ss hss]

/-- `a = -b++ * c ? d : e;` is read as an assignment of a choice whose test is a product. -/
theorem parseTokens_exact_assignment :
    let name (x : String) (c : Nat) : Token := ⟨.ident, x, 1, c⟩
    let ts : List Token := [name "a" 1, ⟨.assign, "=", 1, 3⟩, ⟨.minus, "-", 1, 5⟩, name "b" 6,
      ⟨.increment, "++", 1, 7⟩, ⟨.asterisk, "*", 1, 10⟩, name "c" 12, ⟨.question, "?", 1, 14⟩,
      name "d" 16, ⟨.colon, ":", 1, 18⟩, name "e" 20, ⟨.semicolon, ";", 1, 21⟩]
    ∃ parsed, parseTokens (ts ++ [⟨.eof, "", 1, 22⟩]) = .ok parsed ∧
      (parsed.diagnostics = [] ↔ ∃ ss, Spells (.statements false ss) ts) ∧
      ∀ ss, Spells (.statements false ss) ts → parsed.program = ⟨ts.headD ⟨.eof, "", 1, 22⟩, ss⟩ := by
  intro name ts
  refine parseTokens_exact rfl (by decide) fun t ht f hbad => ?_
  have hkinds : ∀ t ∈ ts, t.kind ≠ .int ∧ t.kind ≠ .float := by decide
  cases hbad with
  | int hk => exact (hkinds t ht).1 hk
  | float hk => exact (hkinds t ht).2 hk

/-- Without its two conditions the grammar derives more than is read: a `return` outside every function,
    and a declaration whose type is not that of its literal. -/
theorem parseTokens_narrower_than_shape :
    let r : Token := ⟨.returnWord, "return", 1, 1⟩
    let sc : Token := ⟨.semicolon, ";", 1, 7⟩
    let colon : Token := ⟨.colon, ":", 1, 6⟩
    let ty : Token := ⟨.stringWord, "string", 1, 8⟩
    let lit : Token := ⟨.int, "5", 1, 17⟩
    (Spells (.statements true [.ret r none]) [r, sc] ∧
      (parseTokens [r, sc, ⟨.eof, "", 1, 8⟩]).toOption.map (·.diagnostics) = some [.strayReturn 1]) ∧
    (Spells (.declared (some ⟨ty, "string"⟩)) [colon, ty] ∧ Spells (.expr (.int lit 5)) [lit] ∧
      (parseTokens [⟨.varWord, "var", 1, 1⟩, ⟨.ident, "x", 1, 5⟩, colon, ty, ⟨.assign, "=", 1, 15⟩, lit,
        ⟨.semicolon, ";", 1, 18⟩, ⟨.eof, "", 1, 19⟩]).toOption.map (·.diagnostics.length) = some 1) := by
  intro r sc colon ty lit
  refine ⟨⟨?_, rfl⟩, ?_, ?_, ?_⟩
  · exact Spells.cons (Spells.ret rfl Spells.nothing rfl) Spells.noStatements
  · exact Spells.declared rfl (Spells.typeWord rfl)
  · refine Spells.tier (Spells.looser (by decide) (Nat.le_refl _) (Spells.applied (Spells.atom ?_)))
    have hread : (Number.readInteger "5").toOption = some 5 := by decide +kernel
    refine Spells.int rfl ?_
    cases h : Number.readInteger "5" with
    | error f => rw [h] at hread; cases hread
    | ok n => rw [h] at hread; cases hread; exact h
  · decide +kernel

end ScriptLang
