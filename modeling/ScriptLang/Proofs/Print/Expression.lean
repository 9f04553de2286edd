import ScriptLang.Proofs.Parse.First
import ScriptLang.Proofs.Token.Emits
import ScriptLang.Proofs.Tree.Bare

/-!
  Printed types and expressions are spelled again.

  A tree that was read from the tokens of a source prints as a text whose tokens spell the same tree up
  to tokens.  `Writes` says this of a text.  The printed form of an expression is an atom or a call,
  whatever tier the expression was read at, so it can stand anywhere.
-/

namespace ScriptLang

open Scan

/-- Wherever the text stands in a source, as long as it does not run into what follows, its tokens
    satisfy `Q`. -/
def Writes (text : String) (Q : List Token → Prop) : Prop :=
  ∀ p rest, Loose rest → Emits p (text.toList ++ rest) rest Q

theorem Writes.emits {text : String} {P Q : List Token → Prop} {p : Position} {cs rest : List Char}
    (h : Writes text P) (hcs : Loose cs)
    (h' : ∀ us p', P us → Emits p' cs rest fun ts => Q (us ++ ts)) :
    Emits p (text.toList ++ cs) rest Q :=
  (h p cs hcs).trans h'

/-- The text is an identifier. -/
def IsName (text : String) : Prop := IsWord text.toList ∧ TokenKind.ofWord text = .ident

theorem Lexical.isName {t : Token} (h : Lexical t) (hk : t.kind = .ident) : IsName t.literal := by
  obtain ⟨hword, hkind⟩ := h.isWord (by rw [hk]; decide)
  exact ⟨hword, hkind ▸ hk⟩

theorem Scan.Emits.name {text : String} {Q : List Token → Prop} {p : Position} {cs rest : List Char}
    (htext : IsName text) (hcs : Loose cs)
    (h : ∀ t p', t.kind = .ident → t.literal = text → Emits p' cs rest fun ts => Q (t :: ts)) :
    Emits p (text.toList ++ cs) rest Q :=
  Emits.word htext.1 hcs fun t p' hk hlit => h t p' (hk.trans htext.2) hlit

/-- The reserved words that printing uses, with their kinds. -/
def keywords : List (String × TokenKind) :=
  [("var", .varWord), ("const", .constWord), ("fn", .fnWord), ("return", .returnWord), ("if", .ifWord),
   ("else", .elseWord), ("for", .forWord), ("while", .whileWord), ("do", .doWord),
   ("display", .displayWord), ("true", .boolean), ("false", .boolean)]

theorem isWord_of_all {word : String} (h : (word.toList.head?.any isWordStart &&
    word.toList.all isWordChar) = true) : IsWord word.toList := by
  rw [Bool.and_eq_true] at h
  obtain ⟨hstart, hall⟩ := h
  cases hlist : word.toList with
  | nil => rw [hlist] at hstart; contradiction
  | cons c ds =>
    rw [hlist] at hstart hall
    refine ⟨c, ds, rfl, hstart, fun d hd => ?_⟩
    exact List.all_eq_true.1 hall d (List.mem_cons_of_mem _ hd)

theorem Scan.Emits.keyword {word : String} {k : TokenKind} {Q : List Token → Prop} {p : Position}
    {cs rest : List Char} (hword : (word, k) ∈ keywords) (hcs : Loose cs)
    (h : ∀ t p', t.kind = k → t.literal = word → Emits p' cs rest fun ts => Q (t :: ts)) :
    Emits p (word.toList ++ cs) rest Q := by
  have hall : ∀ w ∈ keywords, TokenKind.ofWord w.1 = w.2 ∧
      (w.1.toList.head?.any isWordStart && w.1.toList.all isWordChar) = true := by decide
  obtain ⟨hkind, hchars⟩ := hall _ hword
  exact Emits.word (isWord_of_all hchars) hcs fun t p' hk hlit => h t p' (hk.trans hkind) hlit

/-! ## Lists -/

/-- Texts with commas between them, where `C` is what the tokens of such a list are, by its rules. -/
theorem writes_separated {α : Type} {text : α → String} {Q : α → List Token → Prop}
    {C : List α → List Token → Prop} (hnone : C [] []) (hone : ∀ a us, Q a us → C [a] us)
    (hmore : ∀ a b as us c vs, Q a us → c.kind = .comma → C (b :: as) vs → C (a :: b :: as) (us ++ c :: vs))
    (as : List α) (h : ∀ a ∈ as, Writes (text a) (Q a)) :
    Writes (", ".intercalate (as.map text)) (C as) := by
  induction as with
  | nil => exact fun p rest _ => Emits.done hnone
  | cons a as ih =>
    intro p rest hrest
    have hfirst := h a List.mem_cons_self
    have hothers := ih fun b hb => h b (List.mem_cons_of_mem _ hb)
    cases as with
    | nil => exact (hfirst p rest hrest).mono (hone a)
    | cons a' as =>
      have htext : (", ".intercalate ((a :: a' :: as).map text)).toList ++ rest =
          (text a).toList ++ ',' :: ' ' :: ((", ".intercalate ((a' :: as).map text)).toList ++ rest) := by
        simp [String.intercalate_cons_cons]
      rw [htext]
      refine hfirst.emits (loose_of_mem (by decide)) fun us p' hus => ?_
      refine Emits.mark (k := .comma) (by decide) fun c p' hc => ?_
      refine Emits.blank (by decide) fun p' => ?_
      exact (hothers p' rest hrest).mono fun vs hvs => hmore a a' as us c vs hus hc hvs

/-- Texts with commas between them, each of which is spelled again. -/
theorem writes_commas {α β γ : Type} {text : α → String} {ph : β → Phrase} {f : β → γ} {g : α → γ}
    (as : List α)
    (h : ∀ a ∈ as, Writes (text a) fun ts => ∃ b, Spells (ph b) ts ∧ f b = g a) :
    Writes (", ".intercalate (as.map text)) fun ts =>
      ∃ bs : List β, Spells (.commas (bs.map ph)) ts ∧ bs.map f = as.map g := by
  refine writes_separated
    (C := fun as ts => ∃ bs : List β, Spells (.commas (bs.map ph)) ts ∧ bs.map f = as.map g)
    ⟨[], Spells.none, rfl⟩ ?_ ?_ as h
  · rintro a us ⟨b, hb, heq⟩
    exact ⟨[b], Spells.one hb, by simp [heq]⟩
  · rintro a a' as us c vs ⟨b, hb, heq⟩ hc ⟨bs, hbs, hmap⟩
    cases bs with
    | nil => contradiction
    | cons b' bs => exact ⟨b :: b' :: bs, Spells.more hb hc hbs, by rw [List.map_cons, hmap, heq]; rfl⟩

/-! ## Types -/

/-- The names of types: words, and signatures of such names. -/
inductive TypeText : String → Prop
  | word {word : String} : IsWord word.toList → (TokenKind.ofWord word).isTypeWord = true → TypeText word
  | function {ps : List String} {r : String} : (∀ p ∈ ps, TypeText p) → TypeText r →
      TypeText (signature ps r)

/-- A type that is not a function type is a word. -/
theorem Lexical.isTypeWord {t : Token} (h : Lexical t) (hk : t.kind.isTypeWord = true) :
    IsWord t.literal.toList ∧ t.kind = .ofWord t.literal := by
  have hwords : ∀ k : TokenKind, k.isTypeWord = true → k ∈ wordKinds := by
    intro k
    cases k <;> decide
  exact h.isWord (hwords _ hk)

theorem Lexical.typeText {t : Token} (h : Lexical t) (hk : t.kind.isTypeWord = true) :
    TypeText t.literal := by
  obtain ⟨hword, hkind⟩ := h.isTypeWord hk
  exact TypeText.word hword (hkind ▸ hk)

/-- The tokens of a signature are those of its parts, with the tokens of a function type around them. -/
theorem writes_signature {ps : List String} {r : String} {P R Q : List Token → Prop}
    (hps : Writes (", ".intercalate ps) P) (hr : Writes r R)
    (h : ∀ fn lp us rp arrow vs, fn.kind = .fnWord → lp.kind = .lparen → P us → rp.kind = .rparen →
      arrow.kind = .arrow → R vs → Q (fn :: lp :: us ++ rp :: arrow :: vs)) :
    Writes (signature ps r) Q := by
  intro p rest hrest
  have htext : (signature ps r).toList ++ rest = "fn".toList ++ '(' ::
      ((", ".intercalate ps).toList ++ ')' :: ' ' :: ("=>".toList ++ ' ' :: (r.toList ++ rest))) := by
    simp [signature]
  rw [htext]
  refine Emits.keyword (k := .fnWord) (by decide) (loose_of_mem (by decide)) fun fn p' hfn _ => ?_
  refine Emits.mark (k := .lparen) (by decide) fun lp p' hlp => ?_
  refine hps.emits (loose_of_mem (by decide)) fun us p' hus => ?_
  refine Emits.mark (k := .rparen) (by decide) fun rp p' hrp => ?_
  refine Emits.blank (by decide) fun p' => ?_
  refine Emits.operator (k := .arrow) rfl (plain_of_mem (by decide)) fun arrow p' harrow _ => ?_
  refine Emits.blank (by decide) fun p' => ?_
  exact (hr p' rest hrest).mono fun vs hvs => h fn lp us rp arrow vs hfn hlp hus hrp harrow hvs

theorem TypeText.writes {name : String} (h : TypeText name) :
    Writes name fun ts => ∃ t, Spells (.typeName t) ts ∧ t.name = name := by
  induction h with
  | @word word hword hk =>
    intro p rest hrest
    refine Emits.word hword hrest fun t p' hkind hlit => Emits.done ⟨⟨t, t.literal⟩, ?_, hlit⟩
    exact Spells.typeWord (by rw [hkind]; exact hk)
  | @function ps r _ _ ihps ihr =>
    have hparameters : Writes (", ".intercalate (ps.map id)) fun ts =>
        ∃ ts' : List TypeName, Spells (.commas (ts'.map .typeName)) ts ∧ ts'.map (·.name) = ps.map id :=
      writes_commas ps ihps
    rw [List.map_id] at hparameters
    refine writes_signature hparameters ihr ?_
    rintro fn lp us rp arrow vs hfn hlp ⟨ts', hts', hnames⟩ hrp harrow ⟨r', hr', hname⟩
    refine ⟨_, Spells.functionType hfn hlp hts' hrp harrow hr', ?_⟩
    show signature (ts'.map (·.name)) r'.name = signature ps r
    rw [hnames, hname]

/-- A name with its type, as a parameter has it. -/
def IsParameter (p : Parameter) : Prop := IsName p.name.text ∧ TypeText p.declared.name

theorem IsParameter.writes {p : Parameter} (h : IsParameter p) :
    Writes p.text fun ts => ∃ p', Spells (.parameter p') ts ∧ p'.bare = p.bare := by
  intro pos rest hrest
  have htext : p.text.toList ++ rest =
      p.name.text.toList ++ ':' :: ' ' :: (p.declared.name.toList ++ rest) := by
    simp [Parameter.text]
  rw [htext]
  refine Emits.name h.1 (loose_of_mem (by decide)) fun n p' hn hlit => ?_
  refine Emits.mark (k := .colon) (by decide) fun c p' hc => ?_
  refine Emits.blank (by decide) fun p' => ?_
  refine (h.2.writes p' rest hrest).mono fun ts hts => ?_
  obtain ⟨d, hd, hname⟩ := hts
  refine ⟨_, Spells.parameter hn hc hd, ?_⟩
  simp [Parameter.bare, Name.bare, TypeName.bare, hlit, hname]

/-- A declared type with its colon, if there is one. -/
theorem writes_declared {d : Option TypeName} (h : ∀ t ∈ d, TypeText t.name) :
    Writes (declaredText d) fun ts =>
      ∃ d' : Option TypeName, Spells (.declared d') ts ∧ d'.map TypeName.bare = d.map TypeName.bare := by
  intro p rest hrest
  cases d with
  | none => exact Emits.done ⟨none, Spells.undeclared, rfl⟩
  | some t =>
    have htext : (declaredText (some t)).toList ++ rest = ':' :: ' ' :: (t.name.toList ++ rest) := by
      simp [declaredText]
    rw [htext]
    refine Emits.mark (k := .colon) (by decide) fun c p' hc => ?_
    refine Emits.blank (by decide) fun p' => ?_
    refine ((h t rfl).writes p' rest hrest).mono fun ts hts => ?_
    obtain ⟨t', ht', hname⟩ := hts
    exact ⟨some t', Spells.declared hc ht', by simp [TypeName.bare, hname]⟩

theorem loose_declaredText {d : Option TypeName} {cs : List Char} (h : Loose cs) :
    Loose ((declaredText d).toList ++ cs) := by
  cases d with
  | none => exact h
  | some t =>
    simp only [declaredText, String.toList_append, List.append_assoc]
    exact loose_of_mem (by decide)

/-! ## Functions -/

def WritesBlock (inFunction : Bool) (b : Block) : Prop :=
  Writes b.text fun ts => ∃ b', Spells (.block inFunction b') ts ∧ b'.bare = b.bare

/-- The parts of a function can be printed. -/
structure IsTail (f : Parse.FunctionTail) : Prop where
  parameters : ∀ p ∈ f.parameters, IsParameter p
  returns : TypeText f.returns.name
  body : WritesBlock true f.body

/-- The head of a function and its body.  The result is always printed, also when the source had none. -/
theorem IsTail.writes {f : Parse.FunctionTail} (h : IsTail f) :
    Writes (headText f.parameters f.returns ++ " " ++ f.body.text) fun ts => ∀ fn, ∃ f',
      Spells (.tail fn f') ts ∧ f'.parameters.map Parameter.bare = f.parameters.map Parameter.bare ∧
      f'.returns.bare = f.returns.bare ∧ f'.body.bare = f.body.bare := by
  intro p rest hrest
  have hparameters : Writes (", ".intercalate (f.parameters.map Parameter.text)) fun ts =>
      ∃ ps : List Parameter, Spells (.commas (ps.map .parameter)) ts ∧
        ps.map Parameter.bare = f.parameters.map Parameter.bare :=
    writes_commas f.parameters fun p hp => (h.parameters p hp).writes
  have htext : (headText f.parameters f.returns ++ " " ++ f.body.text).toList ++ rest =
      '(' :: ((", ".intercalate (f.parameters.map Parameter.text)).toList ++ ')' :: ':' :: ' ' ::
        (f.returns.name.toList ++ ' ' :: (f.body.text.toList ++ rest))) := by
    simp [headText]
  rw [htext]
  refine Emits.mark (k := .lparen) (by decide) fun lp p' hlp => ?_
  refine hparameters.emits (loose_of_mem (by decide)) fun us p' hus => ?_
  obtain ⟨ps, hps, hbare⟩ := hus
  refine Emits.mark (k := .rparen) (by decide) fun rp p' hrp => ?_
  refine Emits.mark (k := .colon) (by decide) fun c p' hc => ?_
  refine Emits.blank (by decide) fun p' => ?_
  refine h.returns.writes.emits (loose_of_mem (by decide)) fun vs p' hvs => ?_
  obtain ⟨r, hr, hname⟩ := hvs
  refine Emits.blank (by decide) fun p' => ?_
  refine (h.body p' rest hrest).mono fun ws hws fn => ?_
  obtain ⟨b, hb, hbody⟩ := hws
  have htail : Spells (.tail fn ⟨ps, r, b⟩) (lp :: us ++ rp :: (c :: vs) ++ ws) :=
    Spells.tail hlp hps hrp (Spells.declared hc hr) hb
  exact ⟨⟨ps, r, b⟩, by simpa using htail, hbare, by simp [TypeName.bare, hname], hbody⟩

/-! ## Expressions -/

/-- The printed form of an expression starts with no character that an operator in front of it could
    join, is spelled again, and if the expression is a literal then its type can be printed. -/
structure WritesExpr (e : Expr) : Prop where
  plain : ∀ cs, Plain (e.text.toList ++ cs)
  writes : Writes e.text fun ts => ∃ e', Spells (.applied e') ts ∧ e'.bare = e.bare
  typed : ∀ i ∈ e.literalType?, TypeText i.name

namespace Spells

theorem tier_of_applied {k : Nat} {e : Expr} {us : List Token} (hk : k ≤ Strength.before)
    (h : Spells (.applied e) us) : Spells (.tier k e) us :=
  looser hk (Nat.le_refl _) (applied h)

theorem expr_of_applied {e : Expr} {us : List Token} (h : Spells (.applied e) us) :
    Spells (.expr e) us :=
  tier (tier_of_applied (by decide) h)

theorem applied_of_paren {lp rp : Token} {e : Expr} {us : List Token} (hlp : lp.kind = .lparen)
    (h : Spells (.expr e) us) (hrp : rp.kind = .rparen) : Spells (.applied e) (lp :: us ++ [rp]) :=
  atom (paren hlp h hrp)

end Spells

theorem Scan.Emits.expr {e : Expr} {Q : List Token → Prop} {p : Position} {cs rest : List Char}
    (he : WritesExpr e) (hcs : Loose cs)
    (h : ∀ us e' p', Spells (.applied e') us → e'.bare = e.bare →
      Emits p' cs rest fun ts => Q (us ++ ts)) :
    Emits p (e.text.toList ++ cs) rest Q := by
  refine he.writes.emits hcs fun us p' hus => ?_
  obtain ⟨e', hspell, hbare⟩ := hus
  exact h us e' p' hspell hbare

theorem plain_of_isWordStart {c : Char} {cs : List Char} (h : isWordStart c = true) :
    Plain (c :: cs) := by
  have hrange := toNat_of_isWordStart h
  have hall : ∀ d ∈ ['=', '>', '&', '|', '+', '-', '/'], d.toNat < 0x41 ∨ 0x7b ≤ d.toNat :=
    List.all_iff_forall_prop.1 (by decide)
  intro hmem
  have := hall c hmem
  omega

theorem plain_of_isDigit {c : Char} {cs : List Char} (h : Text.isDigit c = true) : Plain (c :: cs) := by
  have hall : ∀ d ∈ ['=', '>', '&', '|', '+', '-', '/'], Text.isDigit d = false :=
    List.all_iff_forall_prop.1 (by decide)
  intro hmem
  rw [hall c hmem] at h
  contradiction

theorem plain_of_isWord {ds cs : List Char} (h : IsWord ds) : Plain (ds ++ cs) := by
  obtain ⟨c, ds, rfl, hc, -⟩ := h
  exact plain_of_isWordStart hc

theorem plain_of_isDigits {ds cs : List Char} (h : IsDigits ds) : Plain (ds ++ cs) := by
  obtain ⟨c, ds, rfl⟩ := List.exists_cons_of_ne_nil h.1
  exact plain_of_isDigit (h.2 c List.mem_cons_self)

theorem typeText_builtin {word : String} (h : word ∈ ["int", "float", "string", "boolean", "void"]) :
    TypeText word := by
  have hall : ∀ w ∈ ["int", "float", "string", "boolean", "void"],
      (TokenKind.ofWord w).isTypeWord = true ∧
        (w.toList.head?.any isWordStart && w.toList.all isWordChar) = true := by decide
  exact TypeText.word (isWord_of_all (hall word h).2) (hall word h).1

/-! ### Atoms -/

theorem writesExpr_name {n : Name} (h : IsName n.text) : WritesExpr (.name n) where
  plain cs := plain_of_isWord h.1
  writes p rest hrest := by
    refine Emits.name h hrest fun t p' hk hlit => Emits.done ⟨.name ⟨t, t.literal⟩, ?_, ?_⟩
    · exact Spells.atom (Spells.name hk)
    · simp [Expr.bare, Name.bare, hlit, Expr.text]
  typed i hi := nomatch hi

theorem writesExpr_int {t : Token} {n : Int} (h : IsDigits t.literal.toList)
    (hn : Number.readInteger t.literal = .ok n) : WritesExpr (.int t n) where
  plain cs := plain_of_isDigits h
  writes p rest hrest := by
    refine Emits.int h hrest fun t' p' hk hlit => Emits.done ⟨.int t' n, ?_, ?_⟩
    · exact Spells.atom (Spells.int hk (by rw [hlit]; exact hn))
    · simp [Expr.bare, Token.spelled, hlit, Expr.text]
  typed i hi := by
    cases hi
    show TypeText "int"
    exact typeText_builtin (by decide)

theorem writesExpr_float {t : Token} {x : Float} {ds es : List Char}
    (htext : t.literal.toList = ds ++ '.' :: es) (hds : IsDigits ds) (hes : IsDigits es)
    (hx : Number.readFloat t.literal = .ok x) : WritesExpr (.float t x) where
  plain cs := by
    show Plain (t.literal.toList ++ cs)
    rw [htext, List.append_assoc]
    exact plain_of_isDigits hds
  writes p rest hrest := by
    refine Emits.float htext hds hes hrest fun t' p' hk hlit => Emits.done ⟨.float t' x, ?_, ?_⟩
    · exact Spells.atom (Spells.float hk (by rw [hlit]; exact hx))
    · simp [Expr.bare, Token.spelled, hlit, Expr.text]
  typed i hi := by
    cases hi
    show TypeText "float"
    exact typeText_builtin (by decide)

/-- A string prints between quotes of a kind that it does not hold. -/
theorem toList_quoteLiteral {value : String} (h : '"' ∉ value.toList ∨ '\'' ∉ value.toList) :
    ∃ q, (q = '"' ∨ q = '\'') ∧ q ∉ value.toList ∧
      (quoteLiteral value).toList = q :: (value.toList ++ [q]) := by
  unfold quoteLiteral
  rw [String.contains_char_eq]
  by_cases hq : '"' ∈ value.toList
  · rw [if_pos (decide_eq_true hq)]
    exact ⟨'\'', Or.inr rfl, h.resolve_left (not_not_intro hq), by simp⟩
  · rw [if_neg (by simpa using hq)]
    exact ⟨'"', Or.inl rfl, hq, by simp⟩

theorem writesExpr_str {t : Token} {value : String}
    (h : '"' ∉ value.toList ∨ '\'' ∉ value.toList) : WritesExpr (.str t value) where
  plain cs := by
    obtain ⟨q, hq, -, htext⟩ := toList_quoteLiteral h
    show Plain ((quoteLiteral value).toList ++ cs)
    rw [htext]
    rcases hq with rfl | rfl <;> exact plain_of_mem (by decide)
  writes p rest hrest := by
    obtain ⟨q, hq, hmem, htext⟩ := toList_quoteLiteral h
    have hlist : (Expr.text (.str t value)).toList ++ rest = q :: (value.toList ++ q :: rest) := by
      show (quoteLiteral value).toList ++ rest = _
      simp [htext]
    rw [hlist]
    refine Emits.quoted hq hmem fun t' p' hk hlit => Emits.done ⟨.str t' t'.literal, ?_, ?_⟩
    · exact Spells.atom (Spells.str hk)
    · simp [Expr.bare, hlit]
  typed i hi := by
    cases hi
    show TypeText "string"
    exact typeText_builtin (by decide)

theorem writesExpr_bool {t : Token} {value : Bool} : WritesExpr (.bool t value) where
  plain cs := by
    cases value with
    | true =>
      show Plain ("true".toList ++ cs)
      exact plain_of_isWord (isWord_of_all (by decide))
    | false =>
      show Plain ("false".toList ++ cs)
      exact plain_of_isWord (isWord_of_all (by decide))
  writes p rest hrest := by
    have hword : ((if value then "true" else "false"), TokenKind.boolean) ∈ keywords := by
      cases value <;> decide
    refine Emits.keyword hword hrest fun t' p' hk hlit =>
      Emits.done ⟨.bool t' (t'.literal = "true"), ?_, ?_⟩
    · exact Spells.atom (Spells.bool hk)
    · cases value <;> simp [Expr.bare, hlit, Expr.text]
  typed i hi := by
    cases hi
    show TypeText "boolean"
    exact typeText_builtin (by decide)

theorem writesExpr_function {t : Token} {f : Parse.FunctionTail} (h : IsTail f) :
    WritesExpr (.function t f.parameters f.returns f.body) where
  plain cs := by
    simp only [Expr.text, headText, String.toList_append, List.append_assoc]
    exact plain_of_isWord (isWord_of_all (by decide))
  writes p rest hrest := by
    have htext : (Expr.text (.function t f.parameters f.returns f.body)).toList ++ rest =
        "fn".toList ++ ((headText f.parameters f.returns ++ " " ++ f.body.text).toList ++ rest) := by
      simp [Expr.text]
    have hloose : Loose ((headText f.parameters f.returns ++ " " ++ f.body.text).toList ++ rest) := by
      simp only [headText, String.toList_append, List.append_assoc]
      exact loose_of_mem (by decide)
    rw [htext]
    refine Emits.keyword (k := .fnWord) (by decide) hloose fun fn p' hfn _ => ?_
    refine (h.writes p' rest hrest).mono fun ts hts => ?_
    obtain ⟨f', hf', hparameters, hreturns, hbody⟩ := hts fn
    refine ⟨_, Spells.atom (Spells.function hfn hf'), ?_⟩
    simp [Expr.bare, hparameters, hreturns, hbody]
  typed i hi := by
    cases hi
    refine TypeText.function (fun p hp => ?_) h.returns
    obtain ⟨parameter, hparameter, rfl⟩ := List.mem_map.1 hp
    exact (h.parameters parameter hparameter).2

/-! ### Operators

  Each application of an operator prints in parentheses. -/

theorem plain_paren {text : String} {cs ds : List Char} (h : text.toList ++ cs = '(' :: ds) :
    Plain (text.toList ++ cs) := by
  rw [h]
  exact plain_of_mem (by decide)

theorem writesExpr_before {t : Token} {e : Expr} (ht : t.kind ∈ operatorsBefore)
    (hsymbol : t.kind.symbol? = some t.literal) (he : WritesExpr e) :
    WritesExpr (.before t t.literal e) := by
  have htext : ∀ cs, (Expr.text (.before t t.literal e)).toList ++ cs =
      '(' :: (t.literal.toList ++ (e.text.toList ++ ')' :: cs)) := by
    intro cs
    simp [Expr.text]
  refine ⟨fun cs => plain_paren (htext cs), fun p rest hrest => ?_, fun i hi => ?_⟩
  · rw [htext]
    refine Emits.mark (k := .lparen) (by decide) fun lp p' hlp => ?_
    refine Emits.operator hsymbol (he.plain _) fun t' p' hk hlit => ?_
    refine Emits.expr he (loose_of_mem (by decide)) fun us e' p' hspell hbare => ?_
    refine Emits.mark (k := .rparen) (by decide) fun rp p' hrp => Emits.done ?_
    have hbefore : Spells (.tier Strength.before (.before t' t'.literal e')) (t' :: us) :=
      Spells.before (hk ▸ ht) (Spells.applied hspell)
    have hexpr := Spells.tier (Spells.looser (by decide) (Nat.le_refl _) hbefore)
    exact ⟨_, Spells.applied_of_paren hlp hexpr hrp, by simp [Expr.bare, hlit, hbare]⟩
  · have hword : ∀ (u : Token) (word : String), word ∈ ["int", "float", "string", "boolean", "void"] →
        i ∈ (if t.literal = "-" then some (TypeName.inferredAt u word) else none) → TypeText i.name := by
      intro u word hword hi
      split at hi
      · cases hi
        exact typeText_builtin hword
      · contradiction
    cases e with
    | int u n => exact hword u "int" (by decide) hi
    | float u x => exact hword u "float" (by decide) hi
    | _ => contradiction

theorem writesExpr_after {t : Token} {e : Expr} (ht : t.kind ∈ operatorsAfter)
    (hsymbol : t.kind.symbol? = some t.literal) (he : WritesExpr e) :
    WritesExpr (.after t e t.literal) := by
  have htext : ∀ cs, (Expr.text (.after t e t.literal)).toList ++ cs =
      '(' :: (e.text.toList ++ (t.literal.toList ++ ')' :: cs)) := by
    intro cs
    simp [Expr.text]
  have hloose : ∀ cs, Loose (t.literal.toList ++ cs) := by
    intro cs
    have hliterals : t.literal = "++" ∨ t.literal = "--" := by
      simp only [operatorsAfter, List.mem_cons, List.not_mem_nil, or_false] at ht
      rcases ht with ht | ht
      · rw [ht] at hsymbol
        exact Or.inl (Option.some.inj hsymbol).symm
      · rw [ht] at hsymbol
        exact Or.inr (Option.some.inj hsymbol).symm
    rcases hliterals with h | h
    · rw [h]
      exact loose_of_mem (by decide)
    · rw [h]
      exact loose_of_mem (by decide)
  refine ⟨fun cs => plain_paren (htext cs), fun p rest hrest => ?_, fun i hi => nomatch hi⟩
  rw [htext]
  refine Emits.mark (k := .lparen) (by decide) fun lp p' hlp => ?_
  refine Emits.expr he (hloose _) fun us e' p' hspell hbare => ?_
  refine Emits.operator hsymbol (plain_of_mem (by decide)) fun t' p' hk hlit => ?_
  refine Emits.mark (k := .rparen) (by decide) fun rp p' hrp => Emits.done ?_
  have hparen := Spells.applied_of_paren hlp (Spells.expr_of_applied (Spells.after hspell (hk ▸ ht))) hrp
  exact ⟨_, by simpa using hparen, by simp [Expr.bare, hlit, hbare]⟩

theorem writesExpr_binary {k : Nat} {t : Token} {l r : Expr} (ht : t.kind ∈ operatorsAt k)
    (hsymbol : t.kind.symbol? = some t.literal) (hl : WritesExpr l) (hr : WritesExpr r) :
    WritesExpr (.binary t l t.literal r) := by
  have htext : ∀ cs, (Expr.text (.binary t l t.literal r)).toList ++ cs =
      '(' :: (l.text.toList ++ ' ' :: (t.literal.toList ++ ' ' :: (r.text.toList ++ ')' :: cs))) := by
    intro cs
    simp [Expr.text]
  obtain ⟨-, hlow, hhigh⟩ := strength_of_mem_operatorsAt ht
  refine ⟨fun cs => plain_paren (htext cs), fun p rest hrest => ?_, fun i hi => nomatch hi⟩
  rw [htext]
  refine Emits.mark (k := .lparen) (by decide) fun lp p' hlp => ?_
  refine Emits.expr hl (loose_of_mem (by decide)) fun us l' p' hleft hbare => ?_
  refine Emits.blank (by decide) fun p' => ?_
  refine Emits.operator hsymbol (plain_of_mem (by decide)) fun t' p' hk hlit => ?_
  refine Emits.blank (by decide) fun p' => ?_
  refine Emits.expr hr (loose_of_mem (by decide)) fun vs r' p' hright hbare' => ?_
  refine Emits.mark (k := .rparen) (by decide) fun rp p' hrp => Emits.done ?_
  have hbinary : Spells (.tier k (.binary t' l' t'.literal r')) (us ++ t' :: vs) :=
    Spells.binary (Spells.tier_of_applied (Nat.le_succ_of_le hhigh) hleft) (hk ▸ ht)
      (Spells.tier_of_applied (Nat.succ_le_succ hhigh) hright)
  have hexpr := Spells.tier (Spells.looser hlow (Nat.le_succ_of_le hhigh) hbinary)
  exact ⟨_, by simpa using Spells.applied_of_paren hlp hexpr hrp,
    by simp [Expr.bare, hlit, hbare, hbare']⟩

theorem writesExpr_choice {t : Token} {e a b : Expr} (he : WritesExpr e) (ha : WritesExpr a)
    (hb : WritesExpr b) : WritesExpr (.choice t e a b) := by
  have htext : ∀ cs, (Expr.text (.choice t e a b)).toList ++ cs = '(' :: (e.text.toList ++ ' ' :: '?' ::
      ' ' :: (a.text.toList ++ ' ' :: ':' :: ' ' :: (b.text.toList ++ ')' :: cs))) := by
    intro cs
    simp [Expr.text]
  refine ⟨fun cs => plain_paren (htext cs), fun p rest hrest => ?_, fun i hi => nomatch hi⟩
  rw [htext]
  refine Emits.mark (k := .lparen) (by decide) fun lp p' hlp => ?_
  refine Emits.expr he (loose_of_mem (by decide)) fun us e' p' htest hbare => ?_
  refine Emits.blank (by decide) fun p' => ?_
  refine Emits.mark (k := .question) (by decide) fun q p' hq => ?_
  refine Emits.blank (by decide) fun p' => ?_
  refine Emits.expr ha (loose_of_mem (by decide)) fun vs a' p' htrue hbare' => ?_
  refine Emits.blank (by decide) fun p' => ?_
  refine Emits.mark (k := .colon) (by decide) fun c p' hc => ?_
  refine Emits.blank (by decide) fun p' => ?_
  refine Emits.expr hb (loose_of_mem (by decide)) fun ws b' p' hfalse hbare'' => ?_
  refine Emits.mark (k := .rparen) (by decide) fun rp p' hrp => Emits.done ?_
  have hchoice := Spells.choice (Spells.tier_of_applied (by decide) htest) hq
    (Spells.expr_of_applied htrue) hc (Spells.expr_of_applied hfalse)
  exact ⟨_, by simpa using Spells.applied_of_paren hlp hchoice hrp,
    by simp [Expr.bare, hbare, hbare', hbare'']⟩

theorem writesExpr_assign {t : Token} {n : Name} {e : Expr} (hn : IsName n.text) (he : WritesExpr e) :
    WritesExpr (.assign t n e) := by
  have htext : ∀ cs, (Expr.text (.assign t n e)).toList ++ cs =
      '(' :: (n.text.toList ++ ' ' :: ("=".toList ++ ' ' :: (e.text.toList ++ ')' :: cs))) := by
    intro cs
    simp [Expr.text]
  refine ⟨fun cs => plain_paren (htext cs), fun p rest hrest => ?_, fun i hi => nomatch hi⟩
  rw [htext]
  refine Emits.mark (k := .lparen) (by decide) fun lp p' hlp => ?_
  refine Emits.name hn (loose_of_mem (by decide)) fun x p' hx hlit => ?_
  refine Emits.blank (by decide) fun p' => ?_
  refine Emits.operator (k := .assign) rfl (plain_of_mem (by decide)) fun t' p' ht _ => ?_
  refine Emits.blank (by decide) fun p' => ?_
  refine Emits.expr he (loose_of_mem (by decide)) fun us e' p' hspell hbare => ?_
  refine Emits.mark (k := .rparen) (by decide) fun rp p' hrp => Emits.done ?_
  have hassign := Spells.assign (Spells.target hx) ht (Spells.expr_of_applied hspell)
  exact ⟨_, by simpa using Spells.applied_of_paren hlp hassign hrp,
    by simp [Expr.bare, Name.bare, hlit, hbare]⟩

/-- Arguments in parentheses, as in a call or a `display`. -/
theorem writes_arguments {es : List Expr} (h : ∀ e ∈ es, WritesExpr e) :
    Writes (", ".intercalate (exprTexts es)) fun ts =>
      ∃ es' : List Expr, Spells (.commas (es'.map .expr)) ts ∧ bareExprs es' = bareExprs es := by
  rw [exprTexts_eq_map]
  have hcommas := writes_commas (f := Expr.bare) (g := Expr.bare) es fun e he p rest hrest =>
    ((h e he).writes p rest hrest).mono fun ts hts =>
      hts.imp fun e' he' => (⟨Spells.expr_of_applied he'.1, he'.2⟩ : Spells (.expr e') ts ∧ _)
  intro p rest hrest
  refine (hcommas p rest hrest).mono fun ts hts => ?_
  obtain ⟨es', hspell, hmap⟩ := hts
  exact ⟨es', hspell, by rw [bareExprs_eq_map, bareExprs_eq_map, hmap]⟩

theorem writesExpr_call {t : Token} {e : Expr} {es : List Expr} (he : WritesExpr e)
    (hes : ∀ a ∈ es, WritesExpr a) : WritesExpr (.call t e es) := by
  have htext : ∀ cs, (Expr.text (.call t e es)).toList ++ cs =
      e.text.toList ++ '(' :: ((", ".intercalate (exprTexts es)).toList ++ ')' :: cs) := by
    intro cs
    simp [Expr.text]
  refine ⟨fun cs => by rw [htext]; exact he.plain _, fun p rest hrest => ?_, fun i hi => nomatch hi⟩
  rw [htext]
  refine Emits.expr he (loose_of_mem (by decide)) fun us e' p' hspell hbare => ?_
  refine Emits.mark (k := .lparen) (by decide) fun lp p' hlp => ?_
  refine (writes_arguments hes).emits (loose_of_mem (by decide)) fun vs p' hvs => ?_
  obtain ⟨es', hes', hbare'⟩ := hvs
  refine Emits.mark (k := .rparen) (by decide) fun rp p' hrp => Emits.done ?_
  exact ⟨_, by simpa using Spells.call hspell hlp hes' hrp, by simp [Expr.bare, hbare, hbare']⟩

end ScriptLang
