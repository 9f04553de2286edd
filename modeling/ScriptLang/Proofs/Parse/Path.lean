import ScriptLang.Parse.Program

/-!
  Reasoning about reading routines.

  A routine moves the cursor forward and may add diagnostics.  `Path s vs s'` says how: of the tokens
  behind the current one that were stepped over on the way from `s` to `s'` the ones in `vs` are kept,
  and if no diagnostic was added then nothing was dropped.  `Span s ws s'` says the same of the tokens
  from the current one on, as a loop over statements sees them, which may drop the current one too.
  Neither changes whether the cursor is inside a function.  Both compose, which is all that routines
  built from smaller ones need.

  `Reads R s p Q` is what a routine `p` started in `s` comes to: a result that satisfies `Q`, with the
  cursor moved as `R` says, or a diagnostic, or the fault of a number token in front of the cursor, but
  never the bound on nested routines.
-/

namespace ScriptLang.Parse

namespace State

/-- The token after the current one; the last token repeats. -/
def next (s : State) : Token := s.rest.headD s.current

/-- The input ends with an `eof` token. -/
def Ends (s : State) : Prop := (s.rest.getLastD s.current).kind = .eof

/-- The state behind the tokens `us`, with `rest` still to come. -/
def past (s : State) (us rest : List Token) : State :=
  { s with current := us.getLastD s.current, rest := rest }

@[simp] theorem past_current (s : State) (us rest : List Token) :
    (s.past us rest).current = us.getLastD s.current := rfl

@[simp] theorem past_rest (s : State) (us rest : List Token) : (s.past us rest).rest = rest := rfl

@[simp] theorem past_diagnostics (s : State) (us rest : List Token) :
    (s.past us rest).diagnostics = s.diagnostics := rfl

@[simp] theorem past_inFunction (s : State) (us rest : List Token) :
    (s.past us rest).inFunction = s.inFunction := rfl

end State

theorem getLastD_append (us vs : List Token) (t : Token) :
    (us ++ vs).getLastD t = vs.getLastD (us.getLastD t) := by
  cases vs with
  | nil => simp
  | cons v vs => simp [List.getLastD_eq_getLast?, List.getLast?_append]

theorem exists_cons_getLastD (us : List Token) (z : Token) :
    ∃ t ts, us ++ [z] = t :: ts ∧ ts.getLastD t = z := by
  obtain ⟨t, ts, hts⟩ : ∃ t ts, us ++ [z] = t :: ts := List.exists_cons_of_ne_nil (by simp)
  refine ⟨t, ts, hts, ?_⟩
  have hcons : (t :: ts).getLastD t = ts.getLastD t := List.getLastD_cons
  rw [← hcons, ← hts, getLastD_append]
  rfl

namespace State

theorem past_past (s : State) (us vs r r' : List Token) :
    (s.past us r).past vs r' = s.past (us ++ vs) r' := by
  simp only [past, getLastD_append]

theorem past_nil (s : State) : s.past [] s.rest = s := rfl

end State

/-! ## Paths -/

/-- From `s` the cursor moves to `s'` and keeps the tokens `vs` behind the current one of `s`, up to the
    current one of `s'`.  All tokens are kept unless a diagnostic is added on the way. -/
def Path (s : State) (vs : List Token) (s' : State) : Prop :=
  ∃ us ds, s.rest = us ++ s'.rest ∧ s'.current = us.getLastD s.current ∧
    s'.diagnostics = s.diagnostics ++ ds ∧ s'.inFunction = s.inFunction ∧ vs.Sublist us ∧
    (ds = [] → vs = us)

namespace Path

variable {s s₁ s₂ s₃ : State} {vs ws : List Token}

theorem refl (s : State) : Path s [] s :=
  ⟨[], [], rfl, rfl, (List.append_nil _).symm, rfl, List.Sublist.refl _, fun _ => rfl⟩

theorem trans (h : Path s₁ vs s₂) (h' : Path s₂ ws s₃) : Path s₁ (vs ++ ws) s₃ := by
  obtain ⟨us, ds, hrest, hcur, hdiag, hflag, hsub, heq⟩ := h
  obtain ⟨us', ds', hrest', hcur', hdiag', hflag', hsub', heq'⟩ := h'
  refine ⟨us ++ us', ds ++ ds', ?_, ?_, ?_, hflag'.trans hflag, hsub.append hsub', fun hds => ?_⟩
  · rw [hrest, hrest', List.append_assoc]
  · rw [hcur', hcur, getLastD_append]
  · rw [hdiag', hdiag, List.append_assoc]
  · obtain ⟨h1, h2⟩ := List.append_eq_nil_iff.1 hds
    rw [heq h1, heq' h2]

/-- The tokens that are kept were there. -/
theorem length_le (h : Path s vs s₁) : s₁.rest.length + vs.length ≤ s.rest.length := by
  obtain ⟨us, ds, hrest, -, -, -, hsub, -⟩ := h
  have hlen := hsub.length_le
  rw [hrest, List.length_append]
  omega

/-- The end of the input is in front of the cursor wherever it is. -/
theorem ends (h : Path s vs s₁) (hs : s.Ends) : s₁.Ends := by
  obtain ⟨us, ds, hrest, hcur, -⟩ := h
  unfold State.Ends at hs ⊢
  rwa [hrest, getLastD_append, ← hcur] at hs

/-- What is in front of the cursor was there before. -/
theorem subset (h : Path s vs s₁) : s₁.current :: s₁.rest ⊆ s.current :: s.rest := by
  obtain ⟨us, ds, hrest, hcur, -⟩ := h
  have hlast : s₁.current ∈ s.current :: us := by
    rw [hcur, ← List.getLast_eq_getLastD (List.cons_ne_nil _ _)]
    exact List.getLast_mem _
  rw [hrest, ← List.cons_append]
  refine List.cons_subset.2 ⟨List.mem_append_left _ hlast, List.subset_append_right _ _⟩

/-- The cursor is inside a function in both states or in neither. -/
theorem inFunction_eq (h : Path s vs s₁) : s₁.inFunction = s.inFunction := by
  obtain ⟨us, ds, -, -, -, hflag, -⟩ := h
  exact hflag

/-- Diagnostics are only added. -/
theorem diagnostics_grow (h : Path s vs s₁) : ∃ ds, s₁.diagnostics = s.diagnostics ++ ds := by
  obtain ⟨us, ds, -, -, hdiag, -⟩ := h
  exact ⟨ds, hdiag⟩

/-- If no diagnostic was added, what was kept leads to where the cursor is. -/
theorem eq_past (h : Path s vs s₁) (hd : s₁.diagnostics = s.diagnostics) :
    s.rest = vs ++ s₁.rest ∧ s₁ = s.past vs s₁.rest := by
  obtain ⟨us, ds, hrest, hcur, hdiag, hflag, -, heq⟩ := h
  have hds : ds = [] := by
    rw [hd] at hdiag
    exact List.self_eq_append_right.1 hdiag
  rw [heq hds]
  refine ⟨hrest, ?_⟩
  unfold State.past
  rw [← hcur]
  cases s₁
  cases hd
  cases hflag
  rfl

/-- With a diagnostic on the way any of the tokens may count as dropped. -/
theorem forget (h : Path s vs s₁) (hd : s₁.diagnostics ≠ s.diagnostics) : Path s [] s₁ := by
  obtain ⟨us, ds, hrest, hcur, hdiag, hflag, -⟩ := h
  refine ⟨us, ds, hrest, hcur, hdiag, hflag, List.nil_sublist _, fun hds => ?_⟩
  rw [hds, List.append_nil] at hdiag
  exact absurd hdiag hd

/-- What was read inside the body of a function, seen from outside. -/
theorem leaveBody (h : Path { s with inFunction := true } vs s₁) :
    Path s vs { s₁ with inFunction := s.inFunction } := by
  obtain ⟨us, ds, hrest, hcur, hdiag, -, hsub, heq⟩ := h
  exact ⟨us, ds, hrest, hcur, hdiag, rfl, hsub, heq⟩

/-- A step to the next token. -/
theorem step {t : Token} {ts : List Token} (h : s.rest = t :: ts) : Path s [t] (s.past [t] ts) :=
  ⟨[t], [], h, rfl, (List.append_nil _).symm, rfl, List.Sublist.refl _, fun _ => rfl⟩

end Path

/-- From `s` the cursor moves to `s'` and keeps the tokens `ws` from the current one of `s` up to the one
    before the current one of `s'`.  All tokens are kept unless a diagnostic is added on the way. -/
def Span (s : State) (ws : List Token) (s' : State) : Prop :=
  ∃ us ds, s.current :: s.rest = us ++ s'.current :: s'.rest ∧
    s'.diagnostics = s.diagnostics ++ ds ∧ s'.inFunction = s.inFunction ∧ ws.Sublist us ∧
    (ds = [] → ws = us)

namespace Span

variable {s s₁ s₂ s₃ : State} {vs ws : List Token}

theorem refl (s : State) : Span s [] s :=
  ⟨[], [], rfl, (List.append_nil _).symm, rfl, List.Sublist.refl _, fun _ => rfl⟩

theorem trans (h : Span s₁ vs s₂) (h' : Span s₂ ws s₃) : Span s₁ (vs ++ ws) s₃ := by
  obtain ⟨us, ds, htokens, hdiag, hflag, hsub, heq⟩ := h
  obtain ⟨us', ds', htokens', hdiag', hflag', hsub', heq'⟩ := h'
  refine ⟨us ++ us', ds ++ ds', ?_, ?_, hflag'.trans hflag, hsub.append hsub', fun hds => ?_⟩
  · rw [htokens, htokens', List.append_assoc]
  · rw [hdiag', hdiag, List.append_assoc]
  · obtain ⟨h1, h2⟩ := List.append_eq_nil_iff.1 hds
    rw [heq h1, heq' h2]

theorem ends (h : Span s vs s₁) (hs : s.Ends) : s₁.Ends := by
  obtain ⟨us, ds, htokens, -⟩ := h
  have hlast : (s.current :: s.rest).getLastD s.current =
      (us ++ s₁.current :: s₁.rest).getLastD s.current := by rw [htokens]
  rw [getLastD_append, List.getLastD_cons, List.getLastD_cons] at hlast
  unfold State.Ends at hs ⊢
  rwa [← hlast]

theorem subset (h : Span s vs s₁) : s₁.current :: s₁.rest ⊆ s.current :: s.rest := by
  obtain ⟨us, ds, htokens, -⟩ := h
  rw [htokens]
  exact List.subset_append_right _ _

/-- The cursor is inside a function in both states or in neither. -/
theorem inFunction_eq (h : Span s vs s₁) : s₁.inFunction = s.inFunction := by
  obtain ⟨us, ds, -, -, hflag, -⟩ := h
  exact hflag

/-- Diagnostics are only added. -/
theorem diagnostics_grow (h : Span s vs s₁) : ∃ ds, s₁.diagnostics = s.diagnostics ++ ds := by
  obtain ⟨us, ds, -, hdiag, -⟩ := h
  exact ⟨ds, hdiag⟩

theorem forget (h : Span s vs s₁) (hd : s₁.diagnostics ≠ s.diagnostics) : Span s [] s₁ := by
  obtain ⟨us, ds, htokens, hdiag, hflag, -⟩ := h
  refine ⟨us, ds, htokens, hdiag, hflag, List.nil_sublist _, fun hds => ?_⟩
  rw [hds, List.append_nil] at hdiag
  exact absurd hdiag hd

/-- Behind the last token of what was read the cursor stands on a token that is not part of it. -/
theorem of_path {t : Token} (h : Path s vs s₁) (h' : Path s₁ [t] s₂) (ht : s₂.current = t)
    (hd : s₂.diagnostics = s₁.diagnostics) : Span s (s.current :: vs) s₂ := by
  obtain ⟨us, ds, hrest, -, hdiag, hflag, hsub, heq⟩ := h
  obtain ⟨hrest', -⟩ := h'.eq_past hd
  refine ⟨s.current :: us, ds, ?_, by rw [hd, hdiag], h'.inFunction_eq.trans hflag, hsub.cons_cons _,
    fun hds => by rw [heq hds]⟩
  rw [hrest, hrest', ht]
  rfl

/-- A path with a diagnostic on it may drop the current token too. -/
theorem of_fail (h : Path s vs s₁) (hd : s₁.diagnostics ≠ s.diagnostics) : Span s [] s₁ := by
  obtain ⟨us, ds, hrest, hcur, hdiag, hflag, -⟩ := h
  refine ⟨(s.current :: us).dropLast, ds, ?_, hdiag, hflag, List.nil_sublist _, fun hds => ?_⟩
  · have hlast : (s.current :: us).getLast (List.cons_ne_nil _ _) = s₁.current := by
      rw [hcur, List.getLast_eq_getLastD]
    rw [← hlast, hrest, ← List.cons_append]
    conv => lhs; rw [← List.dropLast_concat_getLast (List.cons_ne_nil s.current us)]
    rw [List.append_assoc]
    rfl
  · rw [hds, List.append_nil] at hdiag
    exact absurd hdiag hd

/-- A token in front of a stretch and the one it ends on. -/
theorem path {t : Token} (h : Path s [t] s₁) (ht : s₁.current = t)
    (hd : s₁.diagnostics = s.diagnostics) (h' : Span s₁ ws s₂) : Path s (ws ++ [s₂.current]) s₂ := by
  obtain ⟨hrest, -⟩ := h.eq_past hd
  obtain ⟨us, ds, htokens, hdiag, hflag, hsub, heq⟩ := h'
  refine ⟨us ++ [s₂.current], ds, ?_, ?_, by rw [hdiag, hd], hflag.trans h.inFunction_eq,
    hsub.append (List.Sublist.refl _), fun hds => by rw [heq hds]⟩
  · rw [hrest, ← ht, List.singleton_append, htokens, List.append_assoc]
    rfl
  · rw [getLastD_append]
    rfl

end Span

/-! ## What a routine comes to -/

/-- A relation that tells which tokens were kept on the way from one state to another. -/
class Tracks (R : State → List Token → State → Prop) : Prop where
  refl (s : State) : R s [] s
  trans {s₁ s₂ s₃ : State} {vs ws : List Token} : R s₁ vs s₂ → R s₂ ws s₃ → R s₁ (vs ++ ws) s₃
  ends {s s' : State} {vs : List Token} : R s vs s' → s.Ends → s'.Ends
  subset {s s' : State} {vs : List Token} :
    R s vs s' → s'.current :: s'.rest ⊆ s.current :: s.rest
  diagnostics_grow {s s' : State} {vs : List Token} :
    R s vs s' → ∃ ds, s'.diagnostics = s.diagnostics ++ ds
  forget {s s' : State} {vs : List Token} : R s vs s' → s'.diagnostics ≠ s.diagnostics → R s [] s'
  report {s : State} {d : Diagnostic} : R s [] { s with diagnostics := s.diagnostics ++ [d] }

instance : Tracks Path where
  refl := Path.refl
  trans := Path.trans
  ends := Path.ends
  subset := Path.subset
  diagnostics_grow := Path.diagnostics_grow
  forget := Path.forget
  report := ⟨[], [_], rfl, rfl, rfl, rfl, List.Sublist.refl _, fun h => nomatch h⟩

instance : Tracks Span where
  refl := Span.refl
  trans := Span.trans
  ends := Span.ends
  subset := Span.subset
  diagnostics_grow := Span.diagnostics_grow
  forget := Span.forget
  report := ⟨[], [_], rfl, rfl, rfl, List.Sublist.refl _, fun h => nomatch h⟩

variable {R : State → List Token → State → Prop}

/-- A routine that was started in `s` and gives up in `s'` has reported why. -/
def Fails (R : State → List Token → State → Prop) (s s' : State) : Prop :=
  R s [] s' ∧ s'.diagnostics ≠ s.diagnostics

theorem Fails.behind [Tracks R] {s s₁ s₂ : State} {vs : List Token} (h : R s vs s₁)
    (h' : Fails R s₁ s₂) : Fails R s s₂ := by
  have hne : s₂.diagnostics ≠ s.diagnostics := by
    obtain ⟨ds, hds⟩ := Tracks.diagnostics_grow h
    obtain ⟨ds', hds'⟩ := Tracks.diagnostics_grow h'.1
    intro heq
    rw [hds', hds, List.append_assoc] at heq
    obtain ⟨-, h2⟩ := List.append_eq_nil_iff.1 (List.append_right_eq_self.1 heq)
    rw [h2, List.append_nil] at hds'
    exact h'.2 hds'
  exact ⟨Tracks.forget (Tracks.trans h h'.1) hne, hne⟩

/-- The text of a number token cannot be read, and the fault says why. -/
inductive BadLiteral (t : Token) (f : Fault) : Prop
  | int : t.kind = .int → Number.readInteger t.literal = .error f → BadLiteral t f
  | float : t.kind = .float → Number.readFloat t.literal = .error f → BadLiteral t f

/-- The routine that was started in `s` stopped at a number that cannot be read. -/
def Faults (s : State) (h : Halt) : Prop :=
  ∃ t ∈ s.current :: s.rest, ∃ f, BadLiteral t f ∧ h = .fault f

theorem Faults.behind [Tracks R] {s s' : State} {vs : List Token} {h : Halt} (hr : R s vs s')
    (hf : Faults s' h) : Faults s h := by
  obtain ⟨t, ht, hbad⟩ := hf
  exact ⟨t, Tracks.subset hr ht, hbad⟩

/-- How a routine that was started in `s` may end: with a result that has `Q`, with a diagnostic, or at a
    number that cannot be read, but not by the bound on nested routines. -/
def Meets {α : Type} (R : State → List Token → State → Prop) (s : State)
    (Q : List Token → α → State → Prop) : EStateM.Result Stop State α → Prop
  | .ok a s' => ∃ vs, R s vs s' ∧ Q vs a s'
  | .error .rejected s' => Fails R s s'
  | .error (.halt h) _ => Faults s h

/-- How the routine ends when it is started in `s`, where the input ends with `eof`. -/
def Reads {α : Type} (R : State → List Token → State → Prop) (s : State) (p : Parse α)
    (Q : List Token → α → State → Prop) : Prop :=
  s.Ends → Meets R s Q (p s)

namespace Reads

variable {α β : Type} {s : State} {p : Parse α} {f : α → Parse β}
  {P : List Token → α → State → Prop} {Q : List Token → β → State → Prop}

theorem pure [Tracks R] {a : α} (h : P [] a s) : Reads R s (pure a) P := fun _ => ⟨[], Tracks.refl s, h⟩

theorem mono {P' : List Token → α → State → Prop} (h : Reads R s p P)
    (himp : ∀ vs a s', R s vs s' → P vs a s' → P' vs a s') : Reads R s p P' := by
  intro hs
  have hp := h hs
  cases hr : p s with
  | ok a s' =>
    rw [hr] at hp
    obtain ⟨vs, hpath, ha⟩ := hp
    exact ⟨vs, hpath, himp vs a s' hpath ha⟩
  | error e s' =>
    rw [hr] at hp
    cases e with
    | rejected => exact hp
    | halt h => exact hp

/-- One routine after the other: the second starts where the first ended, and what both kept is put
    together. -/
theorem bind [Tracks R] (h : Reads R s p P)
    (hf : ∀ vs a s', R s vs s' → P vs a s' →
      Reads R s' (f a) fun ws b s'' => Q (vs ++ ws) b s'') :
    Reads R s (p >>= f) Q := by
  intro hs
  have hp := h hs
  show Meets R s Q (EStateM.bind p f s)
  unfold EStateM.bind
  cases hr : p s with
  | error e s₁ =>
    rw [hr] at hp
    cases e with
    | rejected => exact hp
    | halt h => exact hp
  | ok a s₁ =>
    rw [hr] at hp
    obtain ⟨vs, hpath, ha⟩ := hp
    have hq := hf vs a s₁ hpath ha (Tracks.ends hpath hs)
    show Meets R s Q (f a s₁)
    cases hr' : f a s₁ with
    | ok b s₂ =>
      rw [hr'] at hq
      obtain ⟨ws, hpath', hb⟩ := hq
      exact ⟨vs ++ ws, Tracks.trans hpath hpath', hb⟩
    | error e s₂ =>
      rw [hr'] at hq
      cases e with
      | rejected => exact Fails.behind hpath hq
      | halt h => exact Faults.behind hpath hq

theorem reject [Tracks R] {d : Diagnostic} : Reads R s (reject d) P := by
  intro _
  refine ⟨Tracks.report, fun h => ?_⟩
  exact nomatch List.append_right_eq_self.1 h

theorem current {f : Token → Parse β} (h : Reads R s (f s.current) Q) :
    Reads R s (current >>= f) Q := h

theorem peek {f : Token → Parse β} (h : Reads R s (f s.next) Q) : Reads R s (peek >>= f) Q := h

/-- A decision by the kind of the next token. -/
theorem ifPeekIs {k : TokenKind} {p q : Parse α} (hp : s.next.kind = k → Reads R s p P)
    (hq : s.next.kind ≠ k → Reads R s q P) :
    Reads R s (peekIs k >>= fun b => if b = true then p else q) P := by
  show Reads R s (if decide (s.next.kind = k) = true then p else q) P
  by_cases h : s.next.kind = k
  · rw [if_pos (decide_eq_true h)]
    exact hp h
  · rw [if_neg (by simpa using h)]
    exact hq h

/-- In front of the end of the input there is a token to step to. -/
theorem advance {f : Unit → Parse β} (hs : s.current.kind ≠ .eof)
    (hf : ∀ t s', s.next = t → s'.current = t → Path s [t] s' →
      Reads Path s' (f ()) fun ws b s'' => Q (t :: ws) b s'') :
    Reads Path s (advance >>= f) Q := by
  intro hends
  obtain ⟨c, rest, ds, f⟩ := s
  cases rest with
  | nil => exact absurd hends hs
  | cons t ts =>
    have hstep : Reads Path ⟨c, t :: ts, ds, f⟩ Parse.advance fun vs _ s' => vs = [t] ∧ s'.current = t :=
      fun _ => ⟨[t], Path.step rfl, rfl, rfl⟩
    refine (hstep.bind fun vs _ s' hpath ht => ?_) hends
    obtain ⟨rfl, hcur⟩ := ht
    exact hf t s' rfl hcur hpath

theorem expect {k : TokenKind} {f : Unit → Parse β} (hk : k ≠ .eof)
    (hf : ∀ t s', t.kind = k → s'.current = t → Path s [t] s' →
      Reads Path s' (f ()) fun ws b s'' => Q (t :: ws) b s'') :
    Reads Path s (expect k >>= f) Q := by
  have hstep : Reads Path s (Parse.expect k) fun vs _ s' =>
      ∃ t, vs = [t] ∧ t.kind = k ∧ s'.current = t := by
    refine peek ?_
    by_cases h : s.next.kind = k
    · rw [if_pos h]
      intro hends
      obtain ⟨c, rest, ds, f⟩ := s
      cases rest with
      | nil => exact absurd (h.symm.trans hends) hk
      | cons t ts => exact ⟨[t], Path.step rfl, t, rfl, h, rfl⟩
    · rw [if_neg h]
      exact reject
  refine hstep.bind fun vs _ s' hpath ht => ?_
  obtain ⟨t, rfl, hkind, hcur⟩ := ht
  exact hf t s' hkind hcur hpath

/-- Inside the body of a function. -/
theorem inBody {p : Parse α} (h : Reads Path { s with inFunction := true } p P)
    (hP : ∀ vs a s', P vs a s' → P vs a { s' with inFunction := s.inFunction }) :
    Reads Path s (inBody p) P := by
  intro hs
  have hp := h hs
  unfold Parse.inBody
  cases hr : p { s with inFunction := true } with
  | ok a s' =>
    rw [hr] at hp
    obtain ⟨vs, hpath, ha⟩ := hp
    exact ⟨vs, hpath.leaveBody, hP vs a s' ha⟩
  | error e s' =>
    rw [hr] at hp
    cases e with
    | rejected => exact ⟨hp.1.leaveBody, hp.2⟩
    | halt h => exact hp

/-- What a loop over statements comes to, seen from the token in front of the first statement. -/
theorem within {p : Parse α} (hs : s.current.kind ≠ .eof)
    (hp : ∀ s', s'.rest.length < s.rest.length → s'.inFunction = s.inFunction → Reads Span s' p P) :
    Reads Path s (Parse.advance >>= fun _ => p) fun vs a s' =>
      ∃ ws, vs = ws ++ [s'.current] ∧ P ws a s' := by
  intro hends
  obtain ⟨c, rest, ds, f⟩ := s
  cases rest with
  | nil => exact absurd hends hs
  | cons t ts =>
    have hstep : Path ⟨c, t :: ts, ds, f⟩ [t] ⟨t, ts, ds, f⟩ := Path.step rfl
    have hmeets := hp ⟨t, ts, ds, f⟩ (Nat.lt_succ_self _) rfl (hstep.ends hends)
    show Meets Path _ _ (p ⟨t, ts, ds, f⟩)
    cases hr : p ⟨t, ts, ds, f⟩ with
    | ok a s' =>
      rw [hr] at hmeets
      obtain ⟨ws, hspan, ha⟩ := hmeets
      exact ⟨_, Span.path hstep rfl rfl hspan, ws, rfl, ha⟩
    | error e s' =>
      rw [hr] at hmeets
      cases e with
      | rejected => exact ⟨(Span.path hstep rfl rfl hmeets.1).forget hmeets.2, hmeets.2⟩
      | halt h => exact Faults.behind hstep hmeets

end Reads

end ScriptLang.Parse
