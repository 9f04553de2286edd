import ScriptLang.Proofs.Parse.First
import ScriptLang.Proofs.Parse.Path

/-!
  What is spelled is read: lists, types and the heads of functions.

  `Accepts s p a us rest` says that the routine `p` takes the tokens `us` and yields `a`, if `us` and
  then `rest` stand behind the current token.  No diagnostic is added.  There is one rule for each way
  of putting routines together, and with them each routine is run along the tokens of a phrase.

  Specification: the lemmas named `takes…`, one for each rule of the grammar.  Crux: `Accepts` is about the
  tokens that are left and not about those that were read, so that `Accepts.bind` can put two runs together
  by putting their tokens together.
-/

namespace ScriptLang.Parse

/-- The routine takes the tokens `us` in front of `rest` and yields `a`. -/
def Accepts {α : Type} (s : State) (p : Parse α) (a : α) (us rest : List Token) : Prop :=
  s.rest = us ++ rest → p s = .ok a (s.past us rest)

/-- A routine that ends well hands over to the next. -/
theorem run_bind {α β : Type} {s s' : State} {p : Parse α} {a : α} (h : p s = .ok a s')
    (f : α → Parse β) : (p >>= f) s = f a s' := by
  show EStateM.bind p f s = _
  unfold EStateM.bind
  rw [h]

namespace Accepts

variable {α β : Type} {s : State} {p q : Parse α} {a : α} {b : β} {us vs rest : List Token}
  {k : TokenKind} {t : Token}

theorem pure : Accepts s (pure a) a [] rest := by
  intro h
  rw [← State.past_nil s, h]
  rfl

/-- The first routine takes the first tokens, and the second is started where it stops. -/
theorem bind {f : α → Parse β} (hp : Accepts s p a us (vs ++ rest))
    (hf : Accepts (s.past us (vs ++ rest)) (f a) b vs rest) :
    Accepts s (p >>= f) b (us ++ vs) rest := by
  intro h
  have hrun : p s = .ok a (s.past us (vs ++ rest)) := hp (by rw [h, List.append_assoc])
  rw [run_bind hrun]
  exact (hf rfl).trans (by rw [State.past_past])

/-- The last of several routines only puts the result together. -/
theorem map {f : α → β} (hp : Accepts s p a us rest) :
    Accepts s (do return f (← p)) (f a) us rest := by
  have h : Accepts s (p >>= fun x => Pure.pure (f x)) (f a) (us ++ []) rest := bind hp pure
  rwa [List.append_nil] at h

/-- The first of two routines takes no token. -/
theorem silent {f : α → Parse β} (hp : Accepts s p a [] (us ++ rest))
    (hf : Accepts s (f a) b us rest) : Accepts s (p >>= f) b us rest := by
  intro h
  have hself : s.past [] (us ++ rest) = s := by rw [← h]; rfl
  rw [run_bind (hp h), hself]
  exact hf h

/-- A look at the current token takes none. -/
theorem current {f : Token → Parse β} (h : Accepts s (f s.current) b us rest) :
    Accepts s (Parse.current >>= f) b us rest := h

theorem get {f : State → Parse β} (h : Accepts s (f s) b us rest) :
    Accepts s (MonadState.get >>= f) b us rest := h

/-- One token is taken, whatever it is. -/
theorem advance {f : Unit → Parse β}
    (h : Accepts (s.past [t] (us ++ rest)) (f ()) b us rest) :
    Accepts s (Parse.advance >>= f) b (t :: us) rest := by
  show Accepts s _ b ([t] ++ us) rest
  refine bind (fun hrest => ?_) h
  obtain ⟨c, ts, ds, f⟩ := s
  cases hrest
  rfl

/-- A look at the next token takes none. -/
theorem peek {f : Token → Parse β} (h : Accepts s (f t) b (t :: us) rest) :
    Accepts s (Parse.peek >>= f) b (t :: us) rest := by
  intro hrest
  rw [← h hrest]
  show f (s.rest.headD s.current) s = f t s
  rw [hrest]
  rfl

/-- One token of the right kind is taken. -/
theorem expect {f : Unit → Parse β} (ht : t.kind = k)
    (h : Accepts (s.past [t] (us ++ rest)) (f ()) b us rest) :
    Accepts s (Parse.expect k >>= f) b (t :: us) rest := by
  show Accepts s _ b ([t] ++ us) rest
  refine bind (peek ?_) h
  rw [if_pos ht]
  exact advance (f := fun _ => Pure.pure ()) pure

/-- The body of a function is read as one, and what comes after it is not. -/
theorem inBody (h : Accepts { s with inFunction := true } p a us rest) :
    Accepts s (Parse.inBody p) a us rest := by
  intro hrest
  unfold Parse.inBody
  rw [h hrest]
  rfl

/-- The next token decides for the first routine. -/
theorem peekIs (hnext : Leads (· = k) (us ++ rest)) (hp : Accepts s p a us rest) :
    Accepts s (Parse.peekIs k >>= fun c => if c = true then p else q) a us rest := by
  intro hrest
  rw [← hp hrest]
  obtain ⟨t, ts, heq, ht⟩ := hnext.exists_cons
  show (if decide ((s.rest.headD s.current).kind = k) = true then p else q) s = p s
  rw [hrest, heq]
  exact congrFun (if_pos (decide_eq_true ht)) s

/-- The next token decides for the second routine. -/
theorem peekIsNot (hnext : Leads (· ≠ k) (us ++ rest)) (hq : Accepts s q a us rest) :
    Accepts s (Parse.peekIs k >>= fun c => if c = true then p else q) a us rest := by
  intro hrest
  rw [← hq hrest]
  obtain ⟨t, ts, heq, ht⟩ := hnext.exists_cons
  show (if decide ((s.rest.headD s.current).kind = k) = true then p else q) s = q s
  rw [hrest, heq]
  exact congrFun (if_neg (by simpa using ht)) s

end Accepts

/-! ## Lists -/

/-- Phrases with commas between them, each spelled by its tokens as `R` says. -/
inductive Separated (R : Phrase → List Token → Prop) : List Phrase → List Token → Prop
  | none : Separated R [] []
  | one {p : Phrase} {us : List Token} : R p us → Separated R [p] us
  | more {p q : Phrase} {ps : List Phrase} {c : Token} {us vs : List Token} :
      R p us → c.kind = .comma → Separated R (q :: ps) vs → Separated R (p :: q :: ps) (us ++ c :: vs)

/-- The routine reads an item of a list, in front of a comma or the closing parenthesis, when no more
    than `n` tokens are left.  No item begins with a closing parenthesis. -/
def AcceptsItem {α : Type} (R : Phrase → List Token → Prop) (n : Nat) (item : Parse α)
    (ph : α → Phrase) : Prop :=
  ∀ a us, R (ph a) us → Leads (· ≠ .rparen) us ∧
    ∀ s rest, us.length + rest.length ≤ n → Leads (fun k => k = .comma ∨ k = .rparen) rest →
      Accepts s item a us rest

section Lists

variable {α : Type} {R : Phrase → List Token → Prop} {n : Nat} {item : Parse α} {ph : α → Phrase}

/-- By induction on the items behind the first one; the closing parenthesis ends the list. -/
theorem commaSeparated_accepts (hitem : AcceptsItem R n item ph) (as : List α) :
    ∀ {a us rest fuel s}, Separated R ((a :: as).map ph) us → us.length + rest.length ≤ n →
      us.length + rest.length ≤ fuel → Leads (· = .rparen) rest →
      Accepts s (commaSeparated item fuel) (a :: as) us rest := by
  induction as with
  | nil =>
    intro a us rest fuel s h hn hfuel hrest
    cases h with
    | one ha =>
      obtain ⟨rp, rest, rfl, hrp⟩ := hrest.exists_cons
      cases fuel with
      | zero => simp at hfuel
      | succ fuel =>
        rw [← List.append_nil us]
        refine Accepts.bind ((hitem a us ha).2 _ _ hn (Or.inr hrp)) ?_
        exact Accepts.peekIsNot (by show rp.kind ≠ _; rw [hrp]; decide) Accepts.pure
  | cons b as ih =>
    intro a us rest fuel s h hn hfuel hrest
    cases h with
    | more ha hc hothers =>
      rename_i c us vs
      simp only [List.length_append, List.length_cons] at hn hfuel
      cases fuel with
      | zero => omega
      | succ fuel =>
        refine Accepts.bind ((hitem a us ha).2 _ _ (by simp; omega) (Or.inl hc)) ?_
        refine Accepts.peekIs hc (Accepts.advance ?_)
        exact Accepts.map (ih hothers (by omega) (by omega) hrest)

/-- No item begins with a closing parenthesis, so one at the start means an empty list. -/
theorem parenthesised_accepts (hitem : AcceptsItem R n item ph) {as : List α} {us rest : List Token}
    {rp : Token} {fuel : Nat} {s : State} (h : Separated R (as.map ph) us) (hrp : rp.kind = .rparen)
    (hn : us.length + rest.length < n) (hfuel : us.length + rest.length < fuel) :
    Accepts s (parenthesised item fuel) as (us ++ [rp]) rest := by
  cases as with
  | nil =>
    cases h with
    | none => exact Accepts.peekIs hrp (Accepts.advance Accepts.pure)
  | cons a as =>
    -- the list begins as its first item does
    have hfirst : Leads (· ≠ .rparen) us := by
      cases as with
      | nil => cases h with | one ha => exact (hitem a us ha).1
      | cons b as => cases h with | more ha => exact ((hitem a _ ha).1).append _
    refine Accepts.peekIsNot ((hfirst.append _).append _) ?_
    refine Accepts.bind (commaSeparated_accepts hitem as h (by simp; omega) (by simp; omega) hrp) ?_
    exact Accepts.expect hrp Accepts.pure

end Lists

/-! ## Types and the heads of functions

  Each of these says how much fuel the routine for a category needs to take the tokens. -/

def TakesType (t : TypeName) (us : List Token) : Prop :=
  ∀ {s rest fuel}, us.length + rest.length ≤ fuel → Accepts s (typeName fuel) t us rest

/-- A type that may be left out, where no colon follows. -/
def TakesDeclared (d : Option TypeName) (us : List Token) : Prop :=
  ∀ {s rest fuel}, us.length + rest.length ≤ fuel → Leads (· ≠ .colon) rest →
    Accepts s (declaredType? fuel) d us rest

def TakesParameter (p : Parameter) (us : List Token) : Prop :=
  ∀ {s rest fuel}, us.length + rest.length ≤ fuel → Accepts s (parameter fuel) p us rest

/-- The opening brace is current. -/
def TakesBlock (inFunction : Bool) (b : Block) (ts : List Token) : Prop :=
  ∀ {s us rest fuel}, ts = s.current :: us → s.inFunction = inFunction →
    2 * (us.length + rest.length) + 3 ≤ fuel → Accepts s (block fuel) b us rest

/-- From the parameters to the end of the body; the `fn` is the token of the function. -/
def TakesTail (fn : Token) (f : FunctionTail) (us : List Token) : Prop :=
  ∀ {s rest fuel}, 2 * (us.length + rest.length) ≤ fuel + 3 →
    Accepts s (functionTail (block fuel) fuel fn) f us rest

theorem takesType_word {t : Token} (ht : t.kind.isTypeWord) : TakesType ⟨t, t.literal⟩ [t] := by
  intro s rest fuel hfuel
  have hfn : t.kind ≠ .fnWord := by
    intro h
    rw [h] at ht
    exact absurd ht (by decide)
  cases fuel with
  | zero => simp at hfuel
  | succ fuel =>
    refine Accepts.peek ?_
    rw [if_neg hfn, if_pos ht]
    exact Accepts.advance Accepts.pure

/-- `fn(t, …) -> t`; the types inside are read with one step less. -/
theorem takesType_function {fn lp rp arrow : Token} {ps : List TypeName} {r : TypeName}
    {us vs : List Token} {R : Phrase → List Token → Prop} (hfn : fn.kind = .fnWord)
    (hlp : lp.kind = .lparen) (hps : Separated R (ps.map .typeName) us)
    (hitem : ∀ p ts, R (.typeName p) ts → Leads (· ≠ .rparen) ts ∧ TakesType p ts)
    (hrp : rp.kind = .rparen) (harrow : arrow.kind = .arrow) (hr : TakesType r vs) :
    TakesType ⟨fn, signature (ps.map (·.name)) r.name⟩ (fn :: lp :: us ++ rp :: arrow :: vs) := by
  intro s rest fuel hfuel
  simp only [List.length_append, List.length_cons] at hfuel
  cases fuel with
  | zero => omega
  | succ fuel =>
    have hinner : AcceptsItem R fuel (typeName fuel) .typeName := fun p ts hp =>
      ⟨(hitem p ts hp).1, fun s rest hn _ => (hitem p ts hp).2 hn⟩
    have htokens : fn :: lp :: us ++ rp :: arrow :: vs =
        fn :: lp :: ((us ++ [rp]) ++ arrow :: vs) := by simp
    rw [htokens]
    refine Accepts.peek ?_
    rw [if_pos hfn]
    refine Accepts.advance (Accepts.expect hlp ?_)
    refine Accepts.bind (parenthesised_accepts hinner hps hrp (by simp; omega) (by simp; omega)) ?_
    refine Accepts.expect harrow ?_
    exact Accepts.map (hr (by omega))

theorem declaredType_accepts {c : Token} {d : TypeName} {us rest : List Token} {s : State}
    {fuel : Nat} (hc : c.kind = .colon) (hd : TakesType d us) (hfuel : us.length + rest.length ≤ fuel) :
    Accepts s (declaredType fuel) d (c :: us) rest :=
  Accepts.expect hc (hd hfuel)

theorem takesDeclared_none : TakesDeclared none [] :=
  fun _ hnext => Accepts.peekIsNot hnext Accepts.pure

theorem takesDeclared_some {c : Token} {d : TypeName} {us : List Token} (hc : c.kind = .colon)
    (hd : TakesType d us) : TakesDeclared (some d) (c :: us) := by
  intro s rest fuel hfuel _
  simp only [List.length_cons] at hfuel
  exact Accepts.peekIs hc (Accepts.map (declaredType_accepts hc hd (by omega)))

theorem expectName_accepts {s : State} {t : Token} {rest : List Token} (ht : t.kind = .ident) :
    Accepts s expectName ⟨t, t.literal⟩ [t] rest :=
  Accepts.expect ht (Accepts.current Accepts.pure)

/-- `x: t` -/
theorem takesParameter {n c : Token} {d : TypeName} {us : List Token} (hn : n.kind = .ident)
    (hc : c.kind = .colon) (hd : TakesType d us) :
    TakesParameter ⟨n, ⟨n, n.literal⟩, d⟩ (n :: c :: us) := by
  intro s rest fuel hfuel
  simp only [List.length_cons] at hfuel
  show Accepts s _ _ ([n] ++ c :: us) rest
  refine Accepts.bind (expectName_accepts hn) ?_
  exact Accepts.peekIs hc (Accepts.map (declaredType_accepts hc hd (by omega)))

/-- `(x: t, …): t b`; the result of a function without a type is void. -/
theorem takesTail {fn lp rp : Token} {ps : List Parameter} {d : Option TypeName} {b : Block}
    {us vs ws : List Token} {R : Phrase → List Token → Prop} (hlp : lp.kind = .lparen)
    (hps : Separated R (ps.map .parameter) us)
    (hitem : ∀ p ts, R (.parameter p) ts → Leads (· ≠ .rparen) ts ∧ TakesParameter p ts)
    (hrp : rp.kind = .rparen) (hd : TakesDeclared d vs) (hb : TakesBlock true b ws)
    (hws : Leads (· = .lbrace) ws) :
    TakesTail fn ⟨ps, d.getD (voidAt fn), b⟩ (lp :: us ++ rp :: vs ++ ws) := by
  intro s rest fuel hfuel
  obtain ⟨lb, ws, rfl, hlb⟩ := hws.exists_cons
  simp only [List.length_append, List.length_cons] at hfuel
  have hinner : AcceptsItem R fuel (parameter fuel) .parameter := fun p ts hp =>
    ⟨(hitem p ts hp).1, fun s rest hn _ => (hitem p ts hp).2 hn⟩
  have htokens : lp :: us ++ rp :: vs ++ lb :: ws = lp :: ((us ++ [rp]) ++ (vs ++ lb :: ws)) := by simp
  rw [htokens]
  refine Accepts.expect hlp ?_
  refine Accepts.bind (parenthesised_accepts hinner hps hrp (by simp; omega) (by simp; omega)) ?_
  refine Accepts.bind (hd (by simp; omega) (by show lb.kind ≠ _; rw [hlb]; decide)) ?_
  exact Accepts.expect hlb (Accepts.map (Accepts.inBody (hb rfl rfl (by omega))))

end ScriptLang.Parse
