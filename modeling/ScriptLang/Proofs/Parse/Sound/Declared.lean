import ScriptLang.Proofs.Parse.Grammar
import ScriptLang.Proofs.Parse.Path

/-!
  What is read was spelled: lists, types and the heads of functions.

  Every routine that yields a tree has kept tokens that spell it, and they are all the tokens it
  stepped over unless a diagnostic was reported on the way.  This is the first of three modules that
  say so, routine by routine; each routine takes what is known of the routines for its parts.
-/

namespace ScriptLang.Parse

/-- The routine reads a phrase behind the current token when fewer than `n` tokens are there. -/
def ReadsBehind {α : Type} (n : Nat) (p : Parse α) (ph : α → Phrase) : Prop :=
  ∀ s : State, s.current.kind ≠ .eof → s.rest.length < n →
    Reads Path s p fun vs a s' => Spells (ph a) vs ∧ s'.current.kind ≠ .eof

/-- The routine reads a block whose opening brace is current when fewer than `n` tokens are behind it. -/
def ReadsBlock (n : Nat) (p : Parse Block) : Prop :=
  ∀ s : State, s.current.kind = .lbrace → s.rest.length < n →
    Reads Path s p fun vs b s' =>
      Spells (.block s.inFunction b) (s.current :: vs) ∧ s'.current.kind ≠ .eof

/-! ## Lists -/

section Lists

variable {α : Type} {item : Parse α} {ph : α → Phrase} {n : Nat}

/-- Each repetition takes a comma, so there are no more of them than tokens. -/
theorem commaSeparated_reads (hitem : ReadsBehind n item ph) (fuel : Nat) :
    ∀ s : State, s.current.kind ≠ .eof → s.rest.length < n → s.rest.length < fuel →
      Reads Path s (commaSeparated item fuel) fun vs as s' =>
        as ≠ [] ∧ Spells (.commas (as.map ph)) vs ∧ s'.current.kind ≠ .eof := by
  induction fuel with
  | zero => intro s _ _ h; omega
  | succ fuel ih =>
    intro s hs hn hfuel
    refine (hitem s hs hn).bind fun us a s₁ hpath ha => ?_
    obtain ⟨hspell, hs₁⟩ := ha
    refine Reads.ifPeekIs (fun hcomma => ?_) (fun _ => ?_)
    · refine Reads.advance hs₁ fun c s₂ hnext hcur hpath' => ?_
      have hck : c.kind = .comma := by rw [← hnext]; exact hcomma
      have hlen := hpath.length_le
      have hlen' := hpath'.length_le
      simp only [List.length_singleton] at hlen'
      refine (ih s₂ (by rw [hcur, hck]; decide) (by omega) (by omega)).bind fun ws as s₃ _ has => ?_
      obtain ⟨hne, hspells, hs₃⟩ := has
      refine Reads.pure ⟨List.cons_ne_nil _ _, ?_, hs₃⟩
      obtain ⟨b, bs, rfl⟩ := List.exists_cons_of_ne_nil hne
      simpa using Spells.more hspell hck hspells
    · refine Reads.pure ⟨List.cons_ne_nil _ _, ?_, hs₁⟩
      simpa using Spells.one hspell

theorem parenthesised_reads (hitem : ReadsBehind n item ph) {fuel : Nat} {s : State}
    (hs : s.current.kind ≠ .eof) (hn : s.rest.length < n) (hfuel : s.rest.length < fuel) :
    Reads Path s (parenthesised item fuel) fun vs as s' =>
      ∃ us rp, vs = us ++ [rp] ∧ Spells (.commas (as.map ph)) us ∧ rp.kind = .rparen ∧
        s'.current = rp := by
  refine Reads.ifPeekIs (fun hclose => ?_) (fun _ => ?_)
  · refine Reads.advance hs fun rp s₁ hnext hcur _ => ?_
    exact Reads.pure ⟨[], rp, rfl, Spells.none, by rw [← hnext]; exact hclose, hcur⟩
  · refine (commaSeparated_reads hitem fuel s hs hn hfuel).bind fun us as s₁ _ has => ?_
    obtain ⟨-, hspells, -⟩ := has
    refine Reads.expect (by decide) fun rp s₂ hrp hcur _ => ?_
    exact Reads.pure ⟨us, rp, rfl, hspells, hrp, hcur⟩

end Lists

/-! ## Types and the heads of functions -/

theorem typeRule_reads {n : Nat} {inner : Parse TypeName} (hinner : ReadsBehind n inner .typeName)
    {fuel : Nat} (hfuel : n ≤ fuel) : ReadsBehind (n + 1) (typeRule inner fuel) .typeName := by
  intro s hs hn
  refine Reads.peek ?_
  by_cases hfn : s.next.kind = .fnWord
  · rw [if_pos hfn]
    refine Reads.advance hs fun fn s₁ hnext hcur hpath => ?_
    refine Reads.expect (by decide) fun lp s₂ hlp hcur' hpath' => ?_
    have hlen := (hpath.trans hpath').length_le
    simp only [List.length_append, List.length_singleton] at hlen
    refine (parenthesised_reads hinner (by rw [hcur', hlp]; decide) (by omega) (by omega)).bind
      fun us ps s₃ hpath₃ hps => ?_
    obtain ⟨us, rp, rfl, hps, hrp, hcur₃⟩ := hps
    refine Reads.expect (by decide) fun arrow s₄ harrow hcur₄ hpath₄ => ?_
    have hlen' := (hpath₃.trans hpath₄).length_le
    refine (hinner s₄ (by rw [hcur₄, harrow]; decide) (by omega)).bind fun vs r s₅ _ hr => ?_
    obtain ⟨hr, hs₅⟩ := hr
    refine Reads.pure ⟨?_, hs₅⟩
    rw [hnext] at hfn ⊢
    simpa using Spells.functionType hfn hlp hps hrp harrow hr
  · rw [if_neg hfn]
    split
    · rename_i hword
      refine Reads.advance hs fun t s₁ hnext hcur _ => ?_
      refine Reads.pure ⟨?_, ?_⟩
      · rw [hnext] at hword ⊢
        exact Spells.typeWord hword
      · intro heof
        rw [← hcur] at hnext
        rw [hnext, heof] at hword
        exact absurd hword (by decide)
    · exact Reads.reject

theorem typeName_reads (fuel : Nat) : ∀ n ≤ fuel, ReadsBehind n (typeName fuel) .typeName := by
  induction fuel with
  | zero => intro n hn s _ hlen; omega
  | succ fuel ih =>
    intro n hn
    cases n with
    | zero => intro s _ hlen; omega
    | succ n => exact typeRule_reads (ih n (by omega)) (by omega)

theorem declaredType_reads {n fuel : Nat} (hfuel : n ≤ fuel) {s : State} (hn : s.rest.length < n) :
    Reads Path s (declaredType fuel) fun vs d s' =>
      ∃ c us, vs = c :: us ∧ c.kind = .colon ∧ Spells (.typeName d) us ∧ s'.current.kind ≠ .eof := by
  refine Reads.expect (by decide) fun c s₁ hc hcur hpath => ?_
  have hlen := hpath.length_le
  refine (typeName_reads fuel n hfuel s₁ (by rw [hcur, hc]; decide) (by omega)).mono ?_
  intro us d s' _ hd
  exact ⟨c, us, rfl, hc, hd.1, hd.2⟩

theorem declaredType?_reads {n fuel : Nat} (hfuel : n ≤ fuel) :
    ReadsBehind n (declaredType? fuel) .declared := by
  intro s hs hn
  refine Reads.ifPeekIs (fun _ => ?_) (fun _ => Reads.pure ⟨Spells.undeclared, hs⟩)
  refine (declaredType_reads hfuel hn).bind fun vs d s' _ hd => Reads.pure ?_
  obtain ⟨c, us, rfl, hc, hspell, hs'⟩ := hd
  exact ⟨by simpa using Spells.declared hc hspell, hs'⟩

theorem expectName_reads {s : State} :
    Reads Path s expectName fun vs name s' =>
      ∃ t, vs = [t] ∧ t.kind = .ident ∧ name = ⟨t, t.literal⟩ ∧ s'.current = t := by
  refine Reads.expect (by decide) fun t s₁ ht hcur _ => ?_
  exact Reads.current (Reads.pure ⟨t, rfl, ht, by rw [hcur], hcur⟩)

theorem parameter_reads {n fuel : Nat} (hfuel : n ≤ fuel) :
    ReadsBehind n (parameter fuel) .parameter := by
  intro s hs hn
  refine expectName_reads.bind fun vs name s₁ hpath ht => ?_
  obtain ⟨t, rfl, ht, rfl, hcur⟩ := ht
  have hlen := hpath.length_le
  refine Reads.ifPeekIs (fun _ => ?_) (fun _ => Reads.reject)
  refine (declaredType_reads hfuel (by omega)).bind fun vs d s' _ hd => Reads.pure ?_
  obtain ⟨c, us, rfl, hc, hspell, hs'⟩ := hd
  exact ⟨by simpa using Spells.parameter ht hc hspell, hs'⟩

/-- The body stands behind the parentheses and the brace. -/
theorem functionTail_reads {n m fuel : Nat} {body : Parse Block} (hbody : ReadsBlock m body)
    (hm : n ≤ m + 3) (hfuel : n ≤ fuel) (fn : Token) :
    ReadsBehind n (functionTail body fuel fn) (.tail fn) := by
  intro s hs hn
  refine Reads.expect (by decide) fun lp s₁ hlp hcur hpath => ?_
  have hlen := hpath.length_le
  simp only [List.length_singleton] at hlen
  refine (parenthesised_reads (parameter_reads hfuel) (by rw [hcur, hlp]; decide) (by omega)
    (by omega)).bind fun us ps s₂ hpath₂ hps => ?_
  obtain ⟨us, rp, rfl, hps, hrp, hcur₂⟩ := hps
  have hlen₂ := hpath₂.length_le
  simp only [List.length_append, List.length_singleton] at hlen₂
  refine (declaredType?_reads hfuel s₂ (by rw [hcur₂, hrp]; decide) (by omega)).bind
    fun vs d s₃ hpath₃ hd => ?_
  have hlen₃ := hpath₃.length_le
  refine Reads.expect (by decide) fun lb s₄ hlb hcur₄ hpath₄ => ?_
  have hlen₄ := hpath₄.length_le
  simp only [List.length_singleton] at hlen₄
  have hinside : Reads Path s₄ (inBody body) fun ws b s' =>
      Spells (.block true b) (s₄.current :: ws) ∧ s'.current.kind ≠ .eof := by
    have hlbrace : s₄.current.kind = .lbrace := by rw [hcur₄, hlb]
    have hlen₅ : s₄.rest.length < m := by omega
    exact Reads.inBody (hbody { s₄ with inFunction := true } hlbrace hlen₅) fun _ _ _ h => h
  refine hinside.bind fun ws b s₅ _ hb => Reads.pure ?_
  rw [hcur₄] at hb
  have htail : Spells (.tail fn ⟨ps, d.getD (voidAt fn), b⟩) (lp :: us ++ rp :: vs ++ lb :: ws) :=
    Spells.tail hlp hps hrp hd.1 hb.1
  exact ⟨by simpa using htail, hb.2⟩

end ScriptLang.Parse
