import ScriptLang.Proofs.Parse.Exact
import ScriptLang.Proofs.Token.Concat

/-!
  Reading two sources, one below the other.

  The grammar has no rule that looks at the tokens around a phrase, and none that looks at lines.  So two
  lists of statements that are spelled are spelled together, wherever the second stands.  Since what is
  spelled holds no illegal character, the two sources are scanned each as on its own, and what stands below
  is read as the statements of the second source, further down.
-/

namespace ScriptLang

open Parse (FunctionTail voidAt)

/-! ## Phrases further down -/

def Parse.FunctionTail.down (k : Nat) (f : FunctionTail) : FunctionTail :=
  ⟨f.parameters.map (Parameter.down k), f.returns.down k, f.body.down k⟩

mutual

/-- The same phrase `k` lines further down. -/
def Phrase.down (k : Nat) : Phrase → Phrase
  | .typeName t => .typeName (t.down k)
  | .declared d => .declared (d.map (TypeName.down k))
  | .parameter p => .parameter (p.down k)
  | .commas items => .commas (downPhrases k items)
  | .tail fn f => .tail (fn.down k) (f.down k)
  | .target n => .target (n.down k)
  | .atom e => .atom (e.down k)
  | .applied e => .applied (e.down k)
  | .tier j e => .tier j (e.down k)
  | .expr e => .expr (e.down k)
  | .optional e => .optional (retokenExpr? (Token.down k) e)
  | .varDecl s => .varDecl (s.down k)
  | .init s => .init (retokenStmt? (Token.down k) s)
  | .branch f s => .branch f (s.down k)
  | .statement f s => .statement f (s.down k)
  | .statements f ss => .statements f (retokenStmts (Token.down k) ss)
  | .block f b => .block f (b.down k)

def downPhrases (k : Nat) : List Phrase → List Phrase
  | [] => []
  | p :: ps => p.down k :: downPhrases k ps

end

theorem downPhrases_map {α : Type} {k : Nat} (f : α → Phrase) (g : α → α) (hf : ∀ a, (f a).down k = f (g a))
    (items : List α) : downPhrases k (items.map f) = (items.map g).map f := by
  induction items with
  | nil => rfl
  | cons a items ih => rw [List.map_cons, downPhrases, hf, ih, List.map_cons, List.map_cons]

theorem signature_down (k : Nat) (ps : List TypeName) (r : TypeName) :
    signature ((ps.map (TypeName.down k)).map (·.name)) (r.down k).name = signature (ps.map (·.name)) r.name := by
  rw [List.map_map]
  rfl

theorem KeepsType.down {d kept : Option TypeName} {e : Expr} (h : KeepsType d e kept) (k : Nat) :
    KeepsType (d.map (TypeName.down k)) (e.down k) (kept.map (TypeName.down k)) := by
  cases h with
  | inferred =>
    rw [← e.literalType?_down]
    exact .inferred
  | declared hagrees =>
    refine .declared fun i hi => ?_
    rw [e.literalType?_down] at hi
    obtain ⟨j, hj, rfl⟩ := Option.map_eq_some_iff.1 hi
    exact hagrees j hj

namespace Spells

/-- A derivation does not depend on lines. -/
theorem down {ph : Phrase} {us : List Token} (h : Spells ph us) (k : Nat) :
    Spells (ph.down k) (us.map (Token.down k)) := by
  induction h with
  | typeWord ht => exact typeWord ht
  | functionType hfn hlp _ hrp harrow _ ihps ihr =>
    rw [Phrase.down, downPhrases_map .typeName (TypeName.down k) fun _ => rfl] at ihps
    simp only [List.map_append, List.map_cons]
    rw [Phrase.down, TypeName.down, TypeName.retoken, ← signature_down k]
    exact functionType hfn hlp ihps hrp harrow ihr
  | undeclared => exact undeclared
  | declared hc _ ih => exact declared hc ih
  | parameter hn hc _ ih => exact parameter hn hc ih
  | none => exact none
  | one _ ih => exact one ih
  | more _ hc _ ih ih' =>
    rw [List.map_append]
    exact more ih hc ih'
  | @tail fn _ _ _ d _ _ _ _ hlp _ hrp _ _ ihps ihd ihb =>
    rw [Phrase.down, downPhrases_map .parameter (Parameter.down k) fun _ => rfl] at ihps
    have hreturns : (d.map (TypeName.down k)).getD (voidAt (fn.down k)) = (d.getD (voidAt fn)).down k := by
      cases d <;> rfl
    simp only [List.map_append, List.map_cons]
    rw [Phrase.down, FunctionTail.down, ← hreturns]
    exact tail hlp ihps hrp ihd ihb
  | target ht => exact target ht
  | parenTarget hlp _ hrp ih =>
    simp only [List.map_append, List.map_cons, List.map_nil]
    exact parenTarget hlp ih hrp
  | name ht => exact name ht
  | int ht hread => exact int ht hread
  | float ht hread => exact float ht hread
  | str ht => exact str ht
  | bool ht => exact bool ht
  | paren hlp _ hrp ih =>
    simp only [List.map_append, List.map_cons, List.map_nil]
    exact paren hlp ih hrp
  | @function fn _ _ hfn _ ih =>
    have hfn' : (fn.down k).kind = .fnWord := hfn
    exact function hfn' ih
  | atom _ ih => exact atom ih
  | after _ ht ih =>
    rw [List.map_append]
    exact after ih ht
  | call _ hlp _ hrp ih ihes =>
    rw [Phrase.down, downPhrases_map .expr (Expr.down k) fun _ => rfl] at ihes
    simp only [List.map_append, List.map_cons, List.map_nil]
    rw [Phrase.down, Expr.down, Expr.retoken, retokenExprs_eq_map]
    exact call ih hlp ihes hrp
  | applied _ ih => exact applied ih
  | before ht _ ih => exact before ht ih
  | tighter hk _ ih => exact tighter hk ih
  | binary _ ht _ ih ih' =>
    rw [List.map_append]
    exact binary ih ht ih'
  | tier _ ih => exact tier ih
  | choice _ hq _ hc _ ihe iha ihb =>
    simp only [List.map_append, List.map_cons]
    exact choice ihe hq iha hc ihb
  | assign _ ht _ ih ih' =>
    rw [List.map_append]
    exact assign ih ht ih'
  | nothing => exact nothing
  | something _ ih => exact something ih
  | varValue hv hn _ heq _ hkept hsc ihd ihe =>
    simp only [List.map_append, List.map_cons, List.map_nil]
    exact varValue hv hn ihd heq ihe (hkept.down k) hsc
  | varType hv hn _ hsc ih =>
    simp only [List.map_append, List.map_cons, List.map_nil]
    exact varType hv hn ih hsc
  | var _ ih => exact var ih
  | const hc hn _ heq _ hkept hsc ihd ihe =>
    simp only [List.map_append, List.map_cons, List.map_nil]
    exact const hc hn ihd heq ihe (hkept.down k) hsc
  | branchOnly hi hlp _ hrp _ ihe ihb =>
    simp only [List.map_append, List.map_cons]
    exact branchOnly hi hlp ihe hrp ihb
  | branchElse hi hlp _ hrp _ hel _ ihe ihb ihc =>
    simp only [List.map_append, List.map_cons]
    exact branchElse hi hlp ihe hrp ihb hel ihc
  | branchChain hi hlp _ hrp _ hel _ ihe ihb ihs =>
    simp only [List.map_append, List.map_cons]
    exact branchChain hi hlp ihe hrp ihb hel ihs
  | branch _ ih => exact branch ih
  | noInit hsc => exact noInit hsc
  | varInit _ ih => exact varInit ih
  | exprInit _ hsc ih =>
    rw [List.map_append]
    exact exprInit ih hsc
  | forLoop hw hlp _ _ hsc _ hrp _ ihi ihe ihu ihb =>
    simp only [List.map_append, List.map_cons]
    exact forLoop hw hlp ihi ihe hsc ihu hrp ihb
  | whileLoop hw hlp _ hrp _ ihe ihb =>
    simp only [List.map_append, List.map_cons]
    exact whileLoop hw hlp ihe hrp ihb
  | doLoop hd _ hw hlp _ hrp hsc ihb ihe =>
    simp only [List.map_append, List.map_cons, List.map_nil]
    exact doLoop hd ihb hw hlp ihe hrp hsc
  | @functionNamed _ fn n _ _ hfn hn _ ih =>
    have hfn' : (fn.down k).kind = .fnWord := hfn
    have hn' : (n.down k).kind = .ident := hn
    exact functionNamed hfn' hn' ih
  | ret hr _ hsc ih =>
    simp only [List.map_append, List.map_cons, List.map_nil]
    exact ret hr ih hsc
  | display hd hlp _ hrp hsc ih =>
    rw [Phrase.down, downPhrases_map .expr (Expr.down k) fun _ => rfl] at ih
    simp only [List.map_append, List.map_cons, List.map_nil]
    rw [Phrase.down, Stmt.down, Stmt.retoken, retokenExprs_eq_map]
    exact display hd hlp ih hrp hsc
  | nested _ ih => exact nested ih
  | exprOnly _ hsc ih =>
    rw [List.map_append]
    exact exprOnly ih hsc
  | noStatements => exact noStatements
  | empty hsc _ ih => exact empty hsc ih
  | cons _ _ ih ih' =>
    rw [List.map_append]
    exact cons ih ih'
  | block hlb _ hrb ih =>
    simp only [List.map_append, List.map_cons, List.map_nil]
    exact block hlb ih hrb

/-- Two lists of statements are spelled one behind the other. -/
theorem append {f : Bool} {ph : Phrase} {us vs : List Token} {rest : List Stmt} (h : Spells ph us)
    (hrest : Spells (.statements f rest) vs) :
    ∀ ss, ph = .statements f ss → Spells (.statements f (ss ++ rest)) (us ++ vs) := by
  induction h with
  | noStatements =>
    rintro _ ⟨⟩
    exact hrest
  | empty hsc _ ih =>
    rintro _ ⟨⟩
    exact empty hsc (ih _ rfl)
  | cons hs _ _ ih =>
    rintro _ ⟨⟩
    rw [List.append_assoc, List.cons_append]
    exact cons hs (ih _ rfl)
  | _ => rintro _ ⟨⟩

/-- What is spelled holds no illegal character. -/
theorem ne_illegal {ph : Phrase} {us : List Token} (h : Spells ph us) : ∀ t ∈ us, t.kind ≠ .illegal := by
  have hoperator (k : Nat) : .illegal ∉ operatorsAt k := by
    intro hk
    obtain ⟨rfl, hlogical, -⟩ := strength_of_mem_operatorsAt hk
    exact absurd hlogical (by decide)
  induction h with
  | typeWord ht =>
    rw [List.forall_mem_singleton]
    intro hillegal
    rw [hillegal] at ht
    contradiction
  | after _ ht ih =>
    rw [List.forall_mem_append, List.forall_mem_singleton]
    exact ⟨ih, fun hillegal => absurd (hillegal ▸ ht) (by decide)⟩
  | before ht _ ih =>
    rw [List.forall_mem_cons]
    exact ⟨fun hillegal => absurd (hillegal ▸ ht) (by decide), ih⟩
  | binary _ ht _ ih ih' =>
    rw [List.forall_mem_append, List.forall_mem_cons]
    exact ⟨ih, fun hillegal => hoperator _ (hillegal ▸ ht), ih'⟩
  | _ => simp_all [or_imp, forall_and]

end Spells

/-! ## Sources -/

open Scan Parse

/-- A source that is read without a diagnostic, and its tokens. -/
theorem spells_of_parse {source : String} {p : Program} (h : parse source = .ok ⟨p, []⟩) :
    ∃ ts z, tokenize source = ts ++ [z] ∧ z.kind = .eof ∧ Spells (.statements false p.statements) ts := by
  obtain ⟨ts, z, htokens, hz, honly⟩ := tokensFrom_only_eof Position.start source.toList
  obtain ⟨t, us, hcons, hlast⟩ := exists_cons_getLastD ts z
  have hsource : tokenize source = t :: us := htokens.trans hcons
  rw [parse, hsource] at h
  rcases parseTokens_reads (by rw [hlast, hz]) with ⟨u, -, f, -, herror⟩ | ⟨parsed, ws, hparse, hspell, -, -, hclean⟩
  · rw [herror] at h
    contradiction
  · rw [hparse] at h
    cases h
    obtain ⟨e, rest, heq, he⟩ := hclean rfl
    rw [← hcons] at heq
    rw [eq_of_only_eof honly he heq] at hspell
    exact ⟨ts, z, htokens, hz, hspell⟩

/-- Two sources that are read without a diagnostic are read so one below the other, as the statements of the
    first and those of the second further down. -/
theorem parse_append {s₁ s₂ : String} {p₁ p₂ : Program} (h₁ : parse s₁ = .ok ⟨p₁, []⟩)
    (h₂ : parse s₂ = .ok ⟨p₂, []⟩) :
    ∃ p, parse (s₁ ++ "\n" ++ s₂) = .ok ⟨p, []⟩ ∧
      p.statements = p₁.statements ++ p₂.statements.map (Stmt.down (linesOf s₁)) := by
  obtain ⟨ts₁, z₁, htokens₁, hz₁, hspell₁⟩ := spells_of_parse h₁
  obtain ⟨ts₂, z₂, htokens₂, hz₂, hspell₂⟩ := spells_of_parse h₂
  have hlegal : ∀ t ∈ tokenize s₁, t.kind ≠ .illegal := by
    rw [htokens₁]
    intro t ht
    rcases List.mem_append.1 ht with ht | ht
    · exact hspell₁.ne_illegal t ht
    · rw [List.mem_singleton.1 ht, hz₁]
      decide
  have htokens : tokenize (s₁ ++ "\n" ++ s₂) =
      ts₁ ++ ts₂.map (Token.down (linesOf s₁)) ++ [z₂.down (linesOf s₁)] := by
    rw [tokenize_append hlegal, htokens₁, htokens₂, List.dropLast_concat, List.map_append, List.append_assoc]
    rfl
  have hspell := hspell₁.append (hspell₂.down (linesOf s₁)) _ rfl
  have hz : (z₂.down (linesOf s₁)).kind = .eof := hz₂
  have hparse := parseTokens_accepts hspell hz
  rw [← htokens, retokenStmts_eq_map] at hparse
  exact ⟨_, hparse, rfl⟩

end ScriptLang
