import ScriptLang.Proofs.Parse.Bounds
import ScriptLang.Proofs.Parse.Complete.Statement
import ScriptLang.Proofs.Parse.Sound.Statement
import ScriptLang.Proofs.Print.Layout
import ScriptLang.Proofs.Print.Statement
import ScriptLang.Value

/-!
  Names of types.

  A type is compared by its name, whether it was declared, inferred from a literal or found at run time.
  `Denotes name cs` says what type a name stands for: the one that is written with tokens of the contents
  `cs`.  A name and the contents determine each other.

  From the name to the contents: scanned again, the name yields tokens of these contents, and a text has one
  list of tokens only.  From the contents to the name: types are written such that none goes on where
  another ends, so two types at the front of one list of tokens are the same.
-/

namespace ScriptLang

open Scan

/-! ## Types and their names -/

/-- The kind and the text of a token. -/
abbrev Content := TokenKind × String

/-- What stands behind a type in a list of types, the closing parenthesis included. -/
def restTokens : List (List Content) → List Content
  | [] => [(.rparen, ")")]
  | c :: cs => (.comma, ",") :: (c ++ restTokens cs)

/-- Types with commas between them and the closing parenthesis. -/
def listTokens : List (List Content) → List Content
  | [] => [(.rparen, ")")]
  | c :: cs => c ++ restTokens cs

/-- The function type with these parameters and this result. -/
def functionTokens (ps : List (List Content)) (r : List Content) : List Content :=
  (.fnWord, "fn") :: (.lparen, "(") :: (listTokens ps ++ (.arrow, "=>") :: r)

/-- The name stands for the type that is written with tokens of the contents. -/
inductive Denotes : String → List Content → Prop
  | word {word : String} : IsWord word.toList → (TokenKind.ofWord word).isTypeWord = true →
      Denotes word [(.ofWord word, word)]
  | function {ps : List (String × List Content)} {r : String} {cs : List Content} :
      (∀ p ∈ ps, Denotes p.1 p.2) → Denotes r cs →
      Denotes (signature (ps.map (·.1)) r) (functionTokens (ps.map (·.2)) cs)

theorem Denotes.typeText {name : String} {cs : List Content} (h : Denotes name cs) : TypeText name := by
  induction h with
  | word hword hk => exact .word hword hk
  | @function ps r cs _ _ ihps ihr =>
    refine .function (fun n hn => ?_) ihr
    obtain ⟨p, hp, rfl⟩ := List.mem_map.1 hn
    exact ihps p hp

/-! ## From the contents to the name -/

/-- Nothing but the type itself stands at the front of its tokens, whatever follows them. -/
def Readable (name : String) (cs : List Content) : Prop :=
  ∀ {name' : String} {cs' rest rest' : List Content}, Denotes name' cs' → cs ++ rest = cs' ++ rest' →
    (name, cs) = (name', cs') ∧ rest = rest'

theorem Denotes.ne_rparen {name : String} {cs rest rest' : List Content} (h : Denotes name cs) :
    (.rparen, ")") :: rest ≠ cs ++ rest' := by
  cases h with
  | word _ hk =>
    intro heq
    have hkind : TokenKind.rparen = .ofWord name := congrArg Prod.fst (List.cons.inj heq).1
    rw [← hkind] at hk
    cases hk
  | function =>
    intro heq
    cases (List.cons.inj heq).1

section Lists

variable {p q : String × List Content} {ps qs : List (String × List Content)} {cs ds rest rest' : List Content}

/-- The first types of two lists are the same, and so is what stands behind them. -/
theorem Readable.first (hp : Readable p.1 p.2) (hq : Denotes q.1 q.2)
    (h : p.2 ++ cs ++ rest = q.2 ++ ds ++ rest') : p = q ∧ cs ++ rest = ds ++ rest' := by
  rw [List.append_assoc, List.append_assoc] at h
  exact hp hq h

/-- A comma tells that a list goes on, and a parenthesis that it ends. -/
theorem restTokens_inj (hps : ∀ p ∈ ps, Readable p.1 p.2) (hqs : ∀ q ∈ qs, Denotes q.1 q.2)
    (h : restTokens (ps.map (·.2)) ++ rest = restTokens (qs.map (·.2)) ++ rest') : ps = qs ∧ rest = rest' := by
  induction ps generalizing qs with
  | nil =>
    cases qs with
    | nil => exact ⟨rfl, (List.cons.inj h).2⟩
    | cons q qs => cases (List.cons.inj h).1
  | cons p ps ih =>
    cases qs with
    | nil => cases (List.cons.inj h).1
    | cons q qs =>
      obtain ⟨hp, hps'⟩ := List.forall_mem_cons.1 hps
      obtain ⟨hq, hqs'⟩ := List.forall_mem_cons.1 hqs
      obtain ⟨rfl, hothers⟩ := hp.first hq (List.cons.inj h).2
      obtain ⟨rfl, hrest⟩ := ih hps' hqs' hothers
      exact ⟨rfl, hrest⟩

theorem listTokens_inj (hps : ∀ p ∈ ps, Denotes p.1 p.2 ∧ Readable p.1 p.2) (hqs : ∀ q ∈ qs, Denotes q.1 q.2)
    (h : listTokens (ps.map (·.2)) ++ rest = listTokens (qs.map (·.2)) ++ rest') : ps = qs ∧ rest = rest' := by
  cases ps with
  | nil =>
    cases qs with
    | nil => exact ⟨rfl, (List.cons.inj h).2⟩
    | cons q qs =>
      have hq : Denotes q.1 q.2 := hqs q List.mem_cons_self
      exact absurd (h.trans (List.append_assoc _ _ _)) hq.ne_rparen
  | cons p ps =>
    obtain ⟨⟨hdenotes, hp⟩, hps'⟩ := List.forall_mem_cons.1 hps
    cases qs with
    | nil => exact absurd (h.symm.trans (List.append_assoc _ _ _)) hdenotes.ne_rparen
    | cons q qs =>
      obtain ⟨hq, hqs'⟩ := List.forall_mem_cons.1 hqs
      obtain ⟨rfl, hothers⟩ := hp.first hq h
      obtain ⟨rfl, hrest⟩ := restTokens_inj (fun p hp => (hps' p hp).2) hqs' hothers
      exact ⟨rfl, hrest⟩

end Lists

/-- The induction is on the first of the two types; the second begins with the same token, so it is of the
    same form. -/
theorem Denotes.readable {name : String} {cs : List Content} (h : Denotes name cs) : Readable name cs := by
  have hfn : ∀ {word : String}, (TokenKind.ofWord word).isTypeWord = true → TokenKind.ofWord word ≠ .fnWord := by
    intro word hk hfn
    rw [hfn] at hk
    cases hk
  induction h with
  | @word word _ hk =>
    intro name' cs' rest rest' h' heq
    cases h' with
    | word _ _ =>
      obtain ⟨hcontent, hrest⟩ := List.cons.inj heq
      cases (congrArg Prod.snd hcontent : word = name')
      exact ⟨rfl, hrest⟩
    | function _ _ => exact absurd (congrArg Prod.fst (List.cons.inj heq).1) (hfn hk)
  | @function ps r cs hps _ ihps ihr =>
    intro name' cs' rest rest' h' heq
    cases h' with
    | word _ hk => exact absurd (congrArg Prod.fst (List.cons.inj heq).1).symm (hfn hk)
    | @function qs r' cs' hqs hr' =>
      have hlist : listTokens (ps.map (·.2)) ++ ((.arrow, "=>") :: (cs ++ rest)) =
          listTokens (qs.map (·.2)) ++ ((.arrow, "=>") :: (cs' ++ rest')) := by
        have hbehind : listTokens (ps.map (·.2)) ++ (.arrow, "=>") :: cs ++ rest =
            listTokens (qs.map (·.2)) ++ (.arrow, "=>") :: cs' ++ rest' := (List.cons.inj (List.cons.inj heq).2).2
        rwa [List.append_assoc, List.append_assoc] at hbehind
      obtain ⟨rfl, harrow⟩ := listTokens_inj (fun p hp => ⟨hps p hp, ihps p hp⟩) hqs hlist
      obtain ⟨hresult, hrest⟩ := ihr hr' (List.cons.inj harrow).2
      cases hresult
      exact ⟨rfl, hrest⟩

/-! ## From the name to the contents -/

/-- The tokens of a function type other than those of its parts. -/
def typeMarks : List Content :=
  [(.fnWord, "fn"), (.lparen, "("), (.comma, ","), (.rparen, ")"), (.arrow, "=>")]

theorem eq_fn_of_ofWord {word : String} (h : TokenKind.ofWord word = .fnWord) : word = "fn" := by
  unfold TokenKind.ofWord at h
  split at h
  case h_3 => rfl
  all_goals cases h

/-- In a source the kind of such a token tells its text. -/
theorem Lexical.content_eq {t : Token} {c : Content} (h : Lexical t) (hc : c ∈ typeMarks) (hk : t.kind = c.1) :
    t.content = c := by
  have hsymbol : ∀ c ∈ typeMarks, c = (.fnWord, "fn") ∨ c.1.symbol? = some c.2 := by decide
  refine Prod.ext hk ?_
  rcases hsymbol c hc with rfl | hsymbol
  · obtain ⟨-, hkind⟩ := h.isWord (by rw [hk]; decide)
    exact eq_fn_of_ofWord (hkind.symm.trans hk)
  · exact h.symbol_eq (hk ▸ hsymbol)

section Contents

variable {fn lp rp arrow c : Token} {us vs : List Token} {cs : List Content} {ps : List (List Content)}

/-- The tokens have these contents, if they are those of a source. -/
def HasContents (cs : List Content) (us : List Token) : Prop :=
  (∀ t ∈ us, Lexical t) → us.map Token.content = cs

/-- The tokens write these types with commas between them, if they are those of a source.  They are compared
    together with the parenthesis behind them. -/
def HasList (ps : List (List Content)) (us : List Token) : Prop :=
  (∀ t ∈ us, Lexical t) → us.map Token.content ++ [(.rparen, ")")] = listTokens ps

theorem hasList_none : HasList [] [] := fun _ => rfl

theorem hasList_one (hus : HasContents cs us) : HasList [cs] us := by
  intro hlex
  rw [hus hlex]
  rfl

theorem hasList_more {ds : List Content} (hus : HasContents cs us) (hc : c.kind = .comma)
    (hvs : HasList (ds :: ps) vs) : HasList (cs :: ds :: ps) (us ++ c :: vs) := by
  intro hlex
  obtain ⟨hlexUs, hlex⟩ := List.forall_mem_append.1 hlex
  obtain ⟨hlexC, hlexVs⟩ := List.forall_mem_cons.1 hlex
  have hcomma : c.content = (.comma, ",") := hlexC.content_eq (by decide) hc
  rw [List.map_append, List.map_cons, hus hlexUs, hcomma, List.append_assoc, List.cons_append, hvs hlexVs]
  rfl

theorem hasContents_function (hfn : fn.kind = .fnWord) (hlp : lp.kind = .lparen) (hus : HasList ps us)
    (hrp : rp.kind = .rparen) (harrow : arrow.kind = .arrow) (hvs : HasContents cs vs) :
    HasContents (functionTokens ps cs) (fn :: lp :: us ++ rp :: arrow :: vs) := by
  intro hlex
  obtain ⟨hlexFn, hlex⟩ := List.forall_mem_cons.1 hlex
  obtain ⟨hlexLp, hlex⟩ := List.forall_mem_cons.1 hlex
  obtain ⟨hlexUs, hlex⟩ := List.forall_mem_append.1 hlex
  obtain ⟨hlexRp, hlex⟩ := List.forall_mem_cons.1 hlex
  obtain ⟨hlexArrow, hlexVs⟩ := List.forall_mem_cons.1 hlex
  have hfn' : fn.content = (.fnWord, "fn") := hlexFn.content_eq (by decide) hfn
  have hlp' : lp.content = (.lparen, "(") := hlexLp.content_eq (by decide) hlp
  have hrp' : rp.content = (.rparen, ")") := hlexRp.content_eq (by decide) hrp
  have harrow' : arrow.content = (.arrow, "=>") := hlexArrow.content_eq (by decide) harrow
  have hlist := hus hlexUs
  have hresult := hvs hlexVs
  unfold functionTokens
  rw [← hlist, ← hresult]
  simp [hfn', hlp', hrp', harrow']

end Contents

/-- A name is scanned as tokens of the contents that it stands for. -/
theorem Denotes.writes {name : String} {cs : List Content} (h : Denotes name cs) :
    Writes name (HasContents cs) := by
  induction h with
  | @word word hword _ =>
    intro p rest hrest
    refine Emits.word hword hrest fun t p' hkind hliteral => Emits.done fun _ => ?_
    exact congrArg (fun c => [c]) (Prod.ext hkind hliteral)
  | @function ps r cs _ _ ihps ihr =>
    have hlist : Writes (", ".intercalate (ps.map (·.1))) (HasList (ps.map (·.2))) :=
      writes_separated (C := fun ps => HasList (ps.map (·.2))) hasList_none (fun _ _ => hasList_one)
        (fun _ _ _ _ _ _ => hasList_more) ps ihps
    exact writes_signature hlist ihr fun _ _ _ _ _ _ => hasContents_function

/-- What a text is scanned as when nothing follows it. -/
theorem Writes.tokenize {text : String} {Q : List Token → Prop} (h : Writes text Q) :
    ∃ ts z, ScriptLang.tokenize text = ts ++ [z] ∧ Q ts := by
  obtain ⟨ts, p, hts, hQ⟩ := h Position.start [] trivial
  rw [List.append_nil, tokensFrom] at hts
  exact ⟨ts, _, hts, hQ⟩

theorem tokenize_lexical (source : String) : ∀ t ∈ tokenize source, Lexical t :=
  tokensFrom_lexical Position.start source.toList

theorem Denotes.tokenize {name : String} {cs : List Content} (h : Denotes name cs) :
    ∃ ts z, ScriptLang.tokenize name = ts ++ [z] ∧ ts.map Token.content = cs := by
  obtain ⟨ts, z, hts, hcontents⟩ := h.writes.tokenize
  refine ⟨ts, z, hts, hcontents fun t ht => tokenize_lexical name t ?_⟩
  rw [hts]
  exact List.mem_append_left _ ht

/-- A name and the contents that it stands for determine each other. -/
theorem Denotes.eq_iff {name name' : String} {cs cs' : List Content} (h : Denotes name cs)
    (h' : Denotes name' cs') : name = name' ↔ cs = cs' := by
  constructor
  · rintro rfl
    obtain ⟨ts, z, hts, hcontents⟩ := h.tokenize
    obtain ⟨ts', z', hts', hcontents'⟩ := h'.tokenize
    have hsame : ts = ts' := (List.append_inj' (hts.symm.trans hts') rfl).1
    rw [← hcontents, ← hcontents', hsame]
  · rintro rfl
    have hsame := (h.readable h' (rfl : cs ++ [] = cs ++ [])).1
    exact congrArg Prod.fst hsame

/-! ## Types that are read -/

/-- What the tokens of a phrase say about the names of the types in it. -/
def DenotesAll : Phrase → List Token → Prop
  | .typeName t, us => Denotes t.name (us.map Token.content)
  | .commas items, us => ∀ ts : List TypeName, items = ts.map .typeName →
      ∃ ps : List (String × List Content), ps.map (·.1) = ts.map (·.name) ∧ (∀ p ∈ ps, Denotes p.1 p.2) ∧
        HasList (ps.map (·.2)) us
  | _, _ => True

theorem Spells.denotesAll {ph : Phrase} {us : List Token} (h : Spells ph us) (hlex : ∀ t ∈ us, Lexical t) :
    DenotesAll ph us := by
  induction h with
  | @typeWord t hk =>
    obtain ⟨hword, hkind⟩ := (hlex t List.mem_cons_self).isTypeWord hk
    have hcontent : t.content = (.ofWord t.literal, t.literal) := Prod.ext hkind rfl
    show Denotes t.literal [t.content]
    rw [hcontent]
    exact .word hword (hkind ▸ hk)
  | @functionType fn lp rp arrow ts r us vs hfn hlp _ hrp harrow _ ihts ihr =>
    have hlexUs : ∀ t ∈ us, Lexical t := fun t ht => hlex t (by simp [ht])
    have hlexVs : ∀ t ∈ vs, Lexical t := fun t ht => hlex t (by simp [ht])
    obtain ⟨ps, hnames, hps, hlist⟩ := ihts hlexUs ts rfl
    have hcontents : (fn :: lp :: us ++ rp :: arrow :: vs).map Token.content =
        functionTokens (ps.map (·.2)) (vs.map Token.content) :=
      hasContents_function hfn hlp hlist hrp harrow (fun _ => rfl) hlex
    have hdenotes := Denotes.function hps (ihr hlexVs)
    rw [hnames, ← hcontents] at hdenotes
    exact hdenotes
  | none =>
    intro ts hts
    obtain rfl : ts = [] := List.map_eq_nil_iff.1 hts.symm
    exact ⟨[], rfl, List.forall_mem_nil _, hasList_none⟩
  | @one p us _ ih =>
    intro ts hts
    obtain ⟨t, rfl, rfl⟩ := List.map_eq_singleton_iff.1 hts.symm
    refine ⟨[(t.name, us.map Token.content)], rfl, ?_, hasList_one fun _ => rfl⟩
    exact List.forall_mem_singleton.2 (ih hlex)
  | @more p q items c us vs _ hc _ ihp ihitems =>
    intro ts hts
    obtain ⟨t, ts, rfl, rfl, hothers⟩ := List.map_eq_cons_iff.1 hts.symm
    obtain ⟨hlexUs, hlexVs⟩ := List.forall_mem_append.1 hlex
    obtain ⟨ps, hnames, hps, hlist⟩ := ihitems (List.forall_mem_cons.1 hlexVs).2 ts hothers.symm
    cases ps with
    | nil =>
      rw [List.map_nil, eq_comm, List.map_eq_nil_iff] at hnames
      rw [hnames] at hothers
      cases hothers
    | cons p ps =>
      refine ⟨(t.name, us.map Token.content) :: p :: ps, ?_, ?_, hasList_more (fun _ => rfl) hc hlist⟩
      · rw [List.map_cons, hnames]
        rfl
      · exact List.forall_mem_cons.2 ⟨ihp hlexUs, hps⟩
  | _ => trivial

/-- Every name of a type stands for one. -/
theorem TypeText.denotes {name : String} (h : TypeText name) : ∃ cs, Denotes name cs := by
  obtain ⟨ts, z, hts, t, hspells, rfl⟩ := h.writes.tokenize
  refine ⟨ts.map Token.content, hspells.denotesAll fun u hu => tokenize_lexical t.name u ?_⟩
  rw [hts]
  exact List.mem_append_left _ hu

namespace Parse

/-- The cursor stands in a source. -/
def State.InSource (s : State) : Prop := ∃ source before, tokenize source = before ++ s.current :: s.rest

namespace State.InSource

variable {s : State}

theorem ends (h : s.InSource) : s.Ends := by
  obtain ⟨source, before, htokens⟩ := h
  obtain ⟨ts, z, hts, hz, -⟩ := tokensFrom_only_eof Position.start source.toList
  have hlast : (before ++ s.current :: s.rest).getLastD z = (ts ++ [z]).getLastD z := by
    rw [← htokens, ← hts]
    rfl
  rw [getLastD_append, List.getLastD_cons, getLastD_append] at hlast
  unfold State.Ends
  rw [hlast]
  exact hz

theorem lexical (h : s.InSource) {t : Token} (ht : t ∈ s.rest) : Lexical t := by
  obtain ⟨source, before, htokens⟩ := h
  refine tokenize_lexical source t ?_
  rw [htokens]
  exact List.mem_append_right _ (List.mem_cons_of_mem _ ht)

/-- Behind the end of a source there is nothing else. -/
theorem current_ne_eof (h : s.InSource) (hnext : s.next.kind ≠ .eof) : s.current.kind ≠ .eof := by
  obtain ⟨source, before, htokens⟩ := h
  obtain ⟨ts, z, hts, -, honly⟩ := tokensFrom_only_eof Position.start source.toList
  unfold State.next at hnext
  cases hrest : s.rest with
  | nil =>
    rw [hrest] at hnext
    exact hnext
  | cons t rest =>
    have hsplit : before ++ s.current :: (t :: rest).dropLast = ts := by
      have hboth : (before ++ s.current :: (t :: rest)).dropLast = (ts ++ [z]).dropLast := by
        rw [← hrest, ← htokens, ← hts]
        rfl
      rwa [List.dropLast_concat, List.dropLast_append_cons, List.dropLast_cons_cons] at hboth
    refine honly s.current ?_
    rw [← hsplit]
    exact List.mem_append_right _ List.mem_cons_self

/-- What a routine yields in a source is spelled by tokens that it stepped over, and by all of them if it
    reported nothing.  The bound with which it was run does not matter. -/
theorem exists_spells {α : Type} {p : Nat → Parse α} (ph : α → Phrase) {a : α} {s' : State} {fuel : Nat}
    (h : s.InSource) (happroximates : ∀ {m n}, m ≤ n → Approximates (p m) (p n))
    (hreads : ∀ {n fuel}, 2 * n + 1 ≤ fuel → ReadsBehind n (p fuel) ph) (hnext : s.next.kind ≠ .eof)
    (hrun : p fuel s = .ok a s') :
    ∃ vs, Path s vs s' ∧ Spells (ph a) vs ∧ ∀ v ∈ vs, Lexical v := by
  let enough := fuel + (2 * (s.rest.length + 1) + 1)
  have hsame : p enough s = .ok a s' := by
    rcases (happroximates (Nat.le_add_right fuel _)).agrees s with heq | ⟨s'', hcut⟩
    · exact heq.trans hrun
    · rw [hrun] at hcut
      cases hcut
  have henough : ReadsBehind (s.rest.length + 1) (p enough) ph := hreads (Nat.le_add_left _ _)
  have hmeets := henough s (h.current_ne_eof hnext) (Nat.lt_succ_self _) h.ends
  rw [hsame] at hmeets
  obtain ⟨vs, hpath, hspells, -⟩ := hmeets
  refine ⟨vs, hpath, hspells, fun v hv => h.lexical ?_⟩
  obtain ⟨us, -, hrest, -, -, -, hsublist, -⟩ := hpath
  rw [hrest]
  exact List.mem_append_left _ (hsublist.subset hv)

end State.InSource

/-- In a source the tokens are read as the type. -/
def TypeRead (t : TypeName) (us : List Token) : Prop :=
  ∃ s rest fuel, State.InSource s ∧ s.rest = us ++ rest ∧ typeName fuel s = .ok t (s.past us rest)

theorem typeName_next {fuel : Nat} {s s' : State} {t : TypeName} (h : typeName fuel s = .ok t s') :
    s.next.kind ≠ .eof := by
  intro heof
  cases fuel with
  | zero => cases h
  | succ fuel =>
    change (if s.next.kind = .fnWord then _ else if s.next.kind.isTypeWord then _ else _ : Parse TypeName) s = _ at h
    rw [heof] at h
    cases h

theorem TypeRead.denotes {t : TypeName} {us : List Token} (h : TypeRead t us) :
    Denotes t.name (us.map Token.content) := by
  obtain ⟨s, rest, fuel, hsource, hrest, hrun⟩ := h
  obtain ⟨vs, hpath, hspells, hlex⟩ := hsource.exists_spells .typeName typeName_approximates
    (fun {n fuel} hle => typeName_reads fuel n (by omega)) (typeName_next hrun) hrun
  obtain ⟨hvs, -⟩ := hpath.eq_past rfl
  have hsame : vs = us := List.append_cancel_right (hvs.symm.trans hrest)
  rw [← hsame]
  exact hspells.denotesAll hlex

/-- Scanned again, the name of a type is read as a type of this name. -/
theorem typeName_again {name : String} (h : TypeText name) {vs : List Token} {z : Token}
    (hvs : tokenize name = vs ++ [z]) {s : State} {fuel : Nat} (hrest : s.rest = vs ++ [z])
    (hfuel : vs.length < fuel) : ∃ t, typeName fuel s = .ok t (s.past vs [z]) ∧ t.name = name := by
  obtain ⟨ts, z', hts, t, hspells, hname⟩ := h.writes.tokenize
  obtain ⟨rfl, -⟩ := List.append_inj' (hvs.symm.trans hts) rfl
  have htakes : TakesType t vs := hspells.settled
  exact ⟨t, htakes hfuel hrest, hname⟩

/-! ## The types of functions -/

/-- The types that a function declares: the names of those of its parameters with what they stand for, and
    what its result stands for. -/
structure Declares (f : FunctionTail) (ps : List (String × List Content)) (r : List Content) : Prop where
  names : ps.map (·.1) = f.parameters.map (·.declared.name)
  parameters : ∀ p ∈ ps, Denotes p.1 p.2
  result : Denotes f.returns.name r

theorem functionTail_next {fuel : Nat} {body : Parse Block} {fn : Token} {s s' : State} {f : FunctionTail}
    (h : functionTail body fuel fn s = .ok f s') : s.next.kind ≠ .eof := by
  intro heof
  change EStateM.bind (if s.next.kind = .lparen then _ else _ : Parse Unit) _ s = _ at h
  rw [heof] at h
  cases h

theorem exists_parts {names : List String} (h : ∀ n ∈ names, TypeText n) :
    ∃ ps : List (String × List Content), ps.map (·.1) = names ∧ ∀ p ∈ ps, Denotes p.1 p.2 := by
  induction names with
  | nil => exact ⟨[], rfl, List.forall_mem_nil _⟩
  | cons n names ih =>
    obtain ⟨hn, hnames⟩ := List.forall_mem_cons.1 h
    obtain ⟨cs, hcs⟩ := hn.denotes
    obtain ⟨ps, rfl, hps⟩ := ih hnames
    exact ⟨(n, cs) :: ps, rfl, List.forall_mem_cons.2 ⟨hcs, hps⟩⟩

/-- Every function that is read in a source declares types. -/
theorem exists_declares {s s' : State} {fuel : Nat} {fn : Token} {f : FunctionTail} (h : s.InSource)
    (hrun : functionTail (block fuel) fuel fn s = .ok f s') : ∃ ps r, Declares f ps r := by
  obtain ⟨vs, -, hspells, hlex⟩ := h.exists_spells (p := fun fuel => functionTail (block fuel) fuel fn) (.tail fn)
    (fun hle => functionTail_approximates (routines_approximate hle).2.2 hle fn)
    (fun {n fuel} hle => functionTail_reads ((routines_read fuel).2.2 n hle) (by omega) (by omega) fn)
    (functionTail_next hrun) hrun
  have htail : IsTail f := hspells.printsAll hlex
  have hnames : ∀ n ∈ f.parameters.map (·.declared.name), TypeText n := by
    intro n hn
    obtain ⟨p, hp, rfl⟩ := List.mem_map.1 hn
    exact (htail.parameters p hp).2
  obtain ⟨ps, hps, hdenotes⟩ := exists_parts hnames
  obtain ⟨r, hr⟩ := htail.returns.denotes
  exact ⟨ps, r, hps, hdenotes, hr⟩

namespace Declares

variable {f g : FunctionTail} {ps qs : List (String × List Content)} {r r' : List Content}

theorem denotes (h : Declares f ps r) :
    Denotes (declaredSignature f.parameters f.returns) (functionTokens (ps.map (·.2)) r) := by
  unfold declaredSignature
  rw [← h.names]
  exact .function h.parameters h.result

/-- Two functions have the same signature exactly if they declare the same types. -/
theorem signature_eq_iff (h : Declares f ps r) (h' : Declares g qs r') :
    declaredSignature f.parameters f.returns = declaredSignature g.parameters g.returns ↔ ps = qs ∧ r = r' := by
  rw [h.denotes.eq_iff h'.denotes]
  constructor
  · intro htokens
    have hlist := (List.cons.inj (List.cons.inj htokens).2).2
    obtain ⟨rfl, harrow⟩ := listTokens_inj (fun p hp => ⟨h.parameters p hp, (h.parameters p hp).readable⟩)
      h'.parameters hlist
    exact ⟨rfl, (List.cons.inj harrow).2⟩
  · rintro ⟨rfl, rfl⟩
    rfl

end Declares

end Parse

/-! ## Values and literals -/

/-- The type of a value is named by a word; only a function also has a signature. -/
theorem Value.denotes_typeName {v : Value} (hv : v.isSignal = false) :
    Denotes v.typeName [(.ofWord v.typeName, v.typeName)] := by
  have hword (word : String) (hk : (TokenKind.ofWord word).isTypeWord = true)
      (hchars : (word.toList.head?.any isWordStart && word.toList.all isWordChar) = true) :
      Denotes word [(.ofWord word, word)] := .word (isWord_of_all hchars) hk
  cases v with
  | int n => exact hword "int" (by decide) (by decide)
  | float x => exact hword "float" (by decide) (by decide)
  | bool b => exact hword "boolean" (by decide) (by decide)
  | str s => exact hword "string" (by decide) (by decide)
  | null => exact hword "null" (by decide) (by decide)
  | function f => exact hword "function" (by decide) (by decide)
  | returned u => cases hv
  | error e => cases hv

/-- The type of a literal is named as that of a value, or as the signature of a function. -/
theorem Expr.literalType?_cases {e : Expr} {i : TypeName} (h : e.literalType? = some i) :
    (∃ v : Value, v.isSignal = false ∧ i.name = v.typeName) ∨
      ∃ fn ps r b, e = .function fn ps r b ∧ i.name = declaredSignature ps r := by
  unfold literalType? at h
  split at h
  · cases h
    exact Or.inl ⟨.int 0, rfl, rfl⟩
  · cases h
    exact Or.inl ⟨.float 0, rfl, rfl⟩
  · cases h
    exact Or.inl ⟨.str "", rfl, rfl⟩
  · cases h
    exact Or.inl ⟨.bool true, rfl, rfl⟩
  · cases h
    exact Or.inr ⟨_, _, _, _, rfl, rfl⟩
  · cases (Option.ite_none_right_eq_some.1 h).2
    exact Or.inl ⟨.int 0, rfl, rfl⟩
  · cases (Option.ite_none_right_eq_some.1 h).2
    exact Or.inl ⟨.float 0, rfl, rfl⟩
  · cases h

open Parse

/-- Types are the same if and only if they have the same name.  For two types that are read in sources this means
    that they are written with the same tokens, and the name of a type is scanned and read again as a type of
    this name.  The signature of a function is the name of the function type that is put together from the types
    it declares.  So a declared type is told by its name from the type of a function, of a literal and of a
    value. -/
theorem typeNames_faithful :
    (∀ t us t' us', TypeRead t us → TypeRead t' us' →
      (t.name = t'.name ↔ us.map Token.content = us'.map Token.content)) ∧
    (∀ t us, TypeRead t us → ∃ vs z, tokenize t.name = vs ++ [z] ∧
      vs.map Token.content = us.map Token.content ∧
      ∀ s fuel, s.rest = vs ++ [z] → vs.length < fuel →
        ∃ t', typeName fuel s = .ok t' (s.past vs [z]) ∧ t'.name = t.name) ∧
    (∀ s s' fuel fn f, s.InSource → functionTail (block fuel) fuel fn s = .ok f s' →
      ∃ ps r, Declares f ps r) ∧
    (∀ f ps r, Declares f ps r →
      (∀ t us, TypeRead t us → (t.name = declaredSignature f.parameters f.returns ↔
        us.map Token.content = functionTokens (ps.map (·.2)) r)) ∧
      (∀ g qs r', Declares g qs r' →
        (declaredSignature f.parameters f.returns = declaredSignature g.parameters g.returns ↔
          ps = qs ∧ r = r'))) ∧
    (∀ e i, Expr.literalType? e = some i → (∃ v : Value, v.isSignal = false ∧ i.name = v.typeName) ∨
      ∃ fn ps r b, e = .function fn ps r b ∧ i.name = declaredSignature ps r) ∧
    (∀ t us (v : Value), TypeRead t us → v.isSignal = false →
      (t.name = v.typeName ↔ us.map Token.content = [(.ofWord v.typeName, v.typeName)])) := by
  refine ⟨fun t us t' us' h h' => h.denotes.eq_iff h'.denotes, fun t us h => ?_,
    fun s s' fuel fn f => exists_declares, fun f ps r h => ⟨fun t us h' => h'.denotes.eq_iff h.denotes,
    fun g qs r' => h.signature_eq_iff⟩, fun e i => Expr.literalType?_cases,
    fun t us v h hv => h.denotes.eq_iff (Value.denotes_typeName hv)⟩
  obtain ⟨vs, z, hvs, hcontents⟩ := h.denotes.tokenize
  exact ⟨vs, z, hvs, hcontents, fun s fuel => typeName_again h.denotes.typeText hvs⟩

/-- A type on two lines, and one of the same tokens in another order, in which the inner function takes both
    parameters: the names differ.  The first is the type of a function with two parameters. -/
theorem typeNames_faithful_nested :
    let us : List Token :=
      [⟨.fnWord, "fn", 1, 3⟩, ⟨.lparen, "(", 1, 5⟩, ⟨.fnWord, "fn", 2, 1⟩, ⟨.lparen, "(", 2, 3⟩,
       ⟨.intWord, "int", 2, 4⟩, ⟨.rparen, ")", 2, 7⟩, ⟨.arrow, "=>", 2, 8⟩, ⟨.intWord, "int", 2, 10⟩,
       ⟨.comma, ",", 2, 13⟩, ⟨.ident, "a", 2, 14⟩, ⟨.rparen, ")", 2, 15⟩, ⟨.arrow, "=>", 2, 16⟩,
       ⟨.ident, "b", 2, 18⟩]
    let vs : List Token :=
      [⟨.fnWord, "fn", 1, 3⟩, ⟨.lparen, "(", 1, 5⟩, ⟨.fnWord, "fn", 1, 6⟩, ⟨.lparen, "(", 1, 8⟩,
       ⟨.intWord, "int", 1, 9⟩, ⟨.comma, ",", 1, 12⟩, ⟨.ident, "a", 1, 13⟩, ⟨.rparen, ")", 1, 14⟩,
       ⟨.arrow, "=>", 1, 15⟩, ⟨.intWord, "int", 1, 17⟩, ⟨.rparen, ")", 1, 20⟩, ⟨.arrow, "=>", 1, 21⟩,
       ⟨.ident, "b", 1, 23⟩]
    ∃ t t' f ps r, TypeRead t us ∧ TypeRead t' vs ∧ Declares f ps r ∧
      t.name = "fn(fn(int) => int, a) => b" ∧ t.name ≠ t'.name ∧
      declaredSignature f.parameters f.returns = t.name ∧
      us.map Token.content = functionTokens (ps.map (·.2)) r := by
  intro us vs
  let colon : Token := ⟨.colon, ":", 1, 2⟩
  let s : State := ⟨colon, us ++ [⟨.semicolon, ";", 2, 19⟩, ⟨.eof, "", 2, 20⟩], [], false⟩
  let s' : State := ⟨colon, vs ++ [⟨.eof, "", 1, 24⟩], [], false⟩
  let fn : Token := ⟨.fnWord, "fn", 1, 1⟩
  let head : State := ⟨fn,
    [⟨.lparen, "(", 1, 3⟩, ⟨.ident, "f", 1, 4⟩, ⟨.colon, ":", 1, 5⟩, ⟨.fnWord, "fn", 1, 6⟩, ⟨.lparen, "(", 1, 8⟩,
     ⟨.intWord, "int", 1, 9⟩, ⟨.rparen, ")", 1, 12⟩, ⟨.arrow, "=>", 1, 13⟩, ⟨.intWord, "int", 1, 15⟩,
     ⟨.comma, ",", 1, 18⟩, ⟨.ident, "x", 1, 19⟩, ⟨.colon, ":", 1, 20⟩, ⟨.ident, "a", 1, 21⟩,
     ⟨.rparen, ")", 1, 22⟩, ⟨.colon, ":", 1, 23⟩, ⟨.ident, "b", 1, 24⟩, ⟨.lbrace, "\x7b", 1, 25⟩,
     ⟨.rbrace, "\x7d", 1, 26⟩, ⟨.eof, "", 1, 27⟩], [], false⟩
  have hsource : s.InSource := ⟨"x:fn(\nfn(int)=>int,a)=>b;", [⟨.ident, "x", 1, 1⟩], by decide +kernel⟩
  have hsource' : s'.InSource := ⟨"x:fn(fn(int,a)=>int)=>b", [⟨.ident, "x", 1, 1⟩], by decide +kernel⟩
  have hhead : head.InSource := ⟨"fn(f:fn(int)=>int,x:a):b\x7b\x7d", [], by decide +kernel⟩
  have hread : TypeRead ⟨⟨.fnWord, "fn", 1, 3⟩, signature [signature ["int"] "int", "a"] "b"⟩ us :=
    ⟨s, _, 20, hsource, rfl, rfl⟩
  have hread' : TypeRead ⟨⟨.fnWord, "fn", 1, 3⟩, signature [signature ["int", "a"] "int"] "b"⟩ vs :=
    ⟨s', _, 20, hsource', rfl, rfl⟩
  obtain ⟨f, s'', hrun, hname⟩ : ∃ f s'', functionTail (block 20) 20 fn head = .ok f s'' ∧
      declaredSignature f.parameters f.returns = signature [signature ["int"] "int", "a"] "b" := ⟨_, _, rfl, rfl⟩
  obtain ⟨hsame, -, hdeclares, hsignature, -, -⟩ := typeNames_faithful
  obtain ⟨ps, r, hf⟩ := hdeclares _ _ _ _ _ hhead hrun
  have htokens := ((hsignature f ps r hf).1 _ us hread).1 hname.symm
  refine ⟨_, _, f, ps, r, hread, hread', hf, by decide +kernel, fun hnames => ?_, hname, htokens⟩
  exact absurd ((hsame _ _ _ _ hread hread').1 hnames) (by decide)

end ScriptLang
