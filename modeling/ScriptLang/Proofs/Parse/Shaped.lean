import ScriptLang.Proofs.Print.RoundTrip
import ScriptLang.Proofs.Tree.Shaped

/-!
  What is read from a source has the shape of sources.

  The grammar lets a `for` loop begin with a declaration of a variable or an expression only, and
  whatever reading returns was derived by the grammar.  The names of parameters are not compared.
-/

namespace ScriptLang

/-- The trees in a phrase have the shape of sources; a list of phrases is looked at elsewhere. -/
def Phrase.Shaped : Phrase → Prop
  | .typeName _ | .declared _ | .parameter _ | .commas _ | .target _ => True
  | .tail _ f => f.body.Shaped false
  | .atom e | .applied e | .tier _ e | .expr e => e.Shaped false
  | .optional e => exprShaped? false e
  | .varDecl s => s.opensLoop = true ∧ s.Shaped false
  | .init i => (∀ s ∈ i, s.opensLoop = true) ∧ stmtShaped? false i
  | .branch _ s | .statement _ s => s.Shaped false
  | .statements _ ss => stmtsShaped false ss
  | .block _ b => b.Shaped false

/-- The same for a phrase and the phrases it lists. -/
def Phrase.ShapedAll : Phrase → Prop
  | .commas items => ∀ p ∈ items, p.Shaped
  | ph => ph.Shaped

theorem Phrase.ShapedAll.shaped {ph : Phrase} (h : ph.ShapedAll) : ph.Shaped := by
  cases ph with
  | commas items => trivial
  | _ => exact h

theorem fit_false (ps : List Parameter) : Parameter.Fit false ps := fun h => absurd h Bool.false_ne_true

theorem Spells.shapedAll {ph : Phrase} {us : List Token} (h : Spells ph us) : ph.ShapedAll := by
  induction h with
  | typeWord _ | functionType | undeclared | declared | parameter | target | parenTarget => trivial
  | none => exact fun p hp => nomatch hp
  | one _ ih =>
    intro p hp
    rw [List.mem_singleton.1 hp]
    exact ih.shaped
  | more _ _ _ ih ih' => exact List.forall_mem_cons.2 ⟨ih.shaped, ih'⟩
  | tail _ _ _ _ _ _ _ ih => exact ih
  | name _ | int _ _ | float _ _ | str _ | bool _ => exact trivial
  | paren _ _ _ ih | atom _ ih | applied _ ih | tighter _ _ ih | tier _ ih => exact ih
  | function _ _ ih => exact ⟨fit_false _, ih⟩
  | after _ _ ih | before _ _ ih => exact ih
  | call _ _ _ _ ih ihes =>
    exact ⟨ih, exprsShaped_iff.2 fun e he => ihes _ (List.mem_map_of_mem he)⟩
  | binary _ _ _ ihl ihr => exact ⟨ihl, ihr⟩
  | choice _ _ _ _ _ ihe iha ihb => exact ⟨ihe, iha, ihb⟩
  | assign _ _ _ _ ih => exact ih
  | nothing => trivial
  | something _ ih => exact ih
  | varValue _ _ _ _ _ _ _ _ ih => exact ⟨rfl, ih⟩
  | varType => exact ⟨rfl, trivial⟩
  | var _ ih => exact ih.2
  | const _ _ _ _ _ _ _ _ ih => exact ih
  | branchOnly _ _ _ _ _ ihe ihb => exact ⟨ihe, ihb, trivial⟩
  | branchElse _ _ _ _ _ _ _ ihe ihb ihc => exact ⟨ihe, ihb, ihc⟩
  | branchChain _ _ _ _ _ _ _ ihe ihb ihs => exact ⟨ihe, ihb, ihs⟩
  | branch _ ih => exact ih
  | noInit _ => exact ⟨fun s hs => (nomatch hs), trivial⟩
  | varInit _ ih =>
    refine ⟨fun s hs => ?_, ih.2⟩
    cases hs
    exact ih.1
  | exprInit _ _ ih =>
    refine ⟨fun s hs => ?_, ih⟩
    cases hs
    rfl
  | forLoop _ _ _ _ _ _ _ _ ihi ihe ihu ihb => exact ⟨ihi.1, ihi.2, ihe, ihu, ihb⟩
  | whileLoop _ _ _ _ _ ihe ihb => exact ⟨ihe, ihb⟩
  | doLoop _ _ _ _ _ _ _ ihb ihe => exact ⟨ihe, ihb⟩
  | functionNamed _ _ _ ih => exact ⟨fit_false _, ih⟩
  | ret _ _ _ ih => exact ih
  | display _ _ _ _ _ ih => exact exprsShaped_iff.2 fun e he => ih _ (List.mem_map_of_mem he)
  | nested _ ih => exact ih
  | exprOnly _ _ ih => exact ih
  | noStatements => trivial
  | empty _ _ ih => exact ih
  | cons _ _ ihs ihss => exact ⟨ihs, ihss⟩
  | block _ _ _ ih => exact ih

/-- Every program that is read, complete or not, has the shape of sources. -/
theorem parse_shaped {source : String} {parsed : Parsed} (h : parse source = .ok parsed) :
    stmtsShaped false parsed.program.statements := by
  obtain ⟨t, ts, htokens, hends⟩ := tokenize_ends source
  rw [parse, htokens] at h
  rcases parseTokens_reads hends with ⟨u, -, f, -, herror⟩ | ⟨parsed', ws, hparse, hspell, -⟩
  · rw [herror] at h
    contradiction
  · rw [hparse] at h
    cases h
    exact hspell.shapedAll

end ScriptLang
