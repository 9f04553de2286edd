import Mathlib.Data.List.TakeWhile
import ScriptLang.Token.Scan

/-!
  The tokens of a source text.

  A token that was cut out of a source has a text that fits its kind: `Lexical` says which.  A word is
  of the kind of its spelling, a number is made of digits, a string lacks one of the two quotes and an
  operator or punctuation mark is its own symbol.
-/

namespace ScriptLang

namespace Scan

/-- A letter or underscore and then letters, digits and underscores. -/
def IsWord (cs : List Char) : Prop :=
  ∃ c ds, cs = c :: ds ∧ isWordStart c = true ∧ ∀ d ∈ ds, isWordChar d = true

/-- One or more decimal digits. -/
def IsDigits (cs : List Char) : Prop := cs ≠ [] ∧ ∀ c ∈ cs, Text.isDigit c = true

end Scan

open Scan

/-- The text of the token fits its kind. -/
inductive Lexical (t : Token) : Prop
  | word : IsWord t.literal.toList → t.kind = .ofWord t.literal → Lexical t
  | int : t.kind = .int → IsDigits t.literal.toList → Lexical t
  | float {ds es : List Char} : t.kind = .float → t.literal.toList = ds ++ '.' :: es → IsDigits ds →
      IsDigits es → Lexical t
  | str {q : Char} : t.kind = .string → q = '"' ∨ q = '\'' → q ∉ t.literal.toList → Lexical t
  | symbol : t.kind.symbol? = some t.literal → Lexical t
  | illegal : t.kind = .illegal → Lexical t
  | eof : t.kind = .eof → Lexical t

/-! ## Kinds of words -/

/-- The kinds that a word can have. -/
def wordKinds : List TokenKind :=
  [.varWord, .constWord, .fnWord, .returnWord, .ifWord, .elseWord, .forWord, .whileWord, .doWord,
   .displayWord, .boolean, .intWord, .floatWord, .stringWord, .booleanWord, .voidWord, .ident]

theorem ofWord_mem (word : String) : TokenKind.ofWord word ∈ wordKinds := by
  unfold TokenKind.ofWord
  split <;> decide

namespace Lexical

variable {t : Token}

theorem mem_wordKinds (h : t.kind = .ofWord t.literal) : t.kind ∈ wordKinds := h ▸ ofWord_mem _

/-- A token of one of the word kinds is a word. -/
theorem isWord (h : Lexical t) (hk : t.kind ∈ wordKinds) :
    IsWord t.literal.toList ∧ t.kind = .ofWord t.literal := by
  cases h with
  | word hword hkind => exact ⟨hword, hkind⟩
  | int h | float h | str h | illegal h | eof h => rw [h] at hk; exact absurd hk (by decide)
  | symbol h =>
    have hnone : ∀ k ∈ wordKinds, k.symbol? = none := by decide
    rw [hnone _ hk] at h
    contradiction

theorem symbol_eq (h : Lexical t) {s : String} (hs : t.kind.symbol? = some s) : t.literal = s := by
  cases h with
  | word _ hkind =>
    have hnone : ∀ k ∈ wordKinds, k.symbol? = none := by decide
    rw [hnone _ (mem_wordKinds hkind)] at hs
    contradiction
  | int h | float h | str h | illegal h | eof h => rw [h] at hs; contradiction
  | symbol h =>
    rw [h] at hs
    exact Option.some.inj hs

theorem isDigits (h : Lexical t) (hk : t.kind = .int) : IsDigits t.literal.toList := by
  cases h with
  | word _ hkind => exact absurd (hk ▸ mem_wordKinds hkind) (by decide)
  | int _ h => exact h
  | float h | str h | illegal h | eof h => rw [h] at hk; contradiction
  | symbol h => rw [hk] at h; contradiction

theorem isFloat (h : Lexical t) (hk : t.kind = .float) :
    ∃ ds es, t.literal.toList = ds ++ '.' :: es ∧ IsDigits ds ∧ IsDigits es := by
  cases h with
  | word _ hkind => exact absurd (hk ▸ mem_wordKinds hkind) (by decide)
  | float _ h hd he => exact ⟨_, _, h, hd, he⟩
  | int h | str h | illegal h | eof h => rw [h] at hk; contradiction
  | symbol h => rw [hk] at h; contradiction

theorem lacksQuote (h : Lexical t) (hk : t.kind = .string) :
    '"' ∉ t.literal.toList ∨ '\'' ∉ t.literal.toList := by
  cases h with
  | word _ hkind => exact absurd (hk ▸ mem_wordKinds hkind) (by decide)
  | str _ hq h =>
    rcases hq with rfl | rfl
    · exact Or.inl h
    · exact Or.inr h
  | int h | float h | illegal h | eof h => rw [h] at hk; contradiction
  | symbol h => rw [hk] at h; contradiction

end Lexical

/-! ## Every token of a source is lexical -/

namespace Scan

theorem pairKind?_symbol {c d : Char} {k : TokenKind} (h : pairKind? c d = some k) :
    k.symbol? = some (String.ofList [c, d]) := by
  unfold pairKind? at h
  split at h <;> cases h
  all_goals rfl

theorem singleKind_symbol (c : Char) :
    singleKind c = .illegal ∨ (singleKind c).symbol? = some (String.ofList [c]) := by
  unfold singleKind
  split
  all_goals
    first
    | exact Or.inr rfl
    | exact Or.inl rfl

theorem number_lexical {c : Char} (hc : Text.isDigit c = true) (cs : List Char) {p : Position}
    {t : Token} (h : (number c cs).token? p = some t) : Lexical t := by
  have hwhole : IsDigits (c :: cs.takeWhile Text.isDigit) := by
    refine ⟨List.cons_ne_nil _ _, fun d hd => ?_⟩
    rcases List.mem_cons.1 hd with rfl | hd
    · exact hc
    · exact List.mem_takeWhile_imp hd
  unfold number at h
  split at h
  · rename_i d ds _
    split at h
    · rename_i hdigit
      cases h
      refine Lexical.float rfl (String.toList_ofList) hwhole ⟨List.cons_ne_nil _ _, fun e he => ?_⟩
      rcases List.mem_cons.1 he with rfl | he
      · exact hdigit
      · exact List.mem_takeWhile_imp he
    · cases h
      exact Lexical.int rfl (by rw [String.toList_ofList]; exact hwhole)
  · cases h
    exact Lexical.int rfl (by rw [String.toList_ofList]; exact hwhole)

theorem quoted_lexical {q : Char} (hq : q = '"' ∨ q = '\'') (cs : List Char) {p : Position} {t : Token}
    (h : (quoted q cs).token? p = some t) : Lexical t := by
  unfold quoted at h
  split at h
  · cases h
    exact Lexical.illegal rfl
  · cases h
    refine Lexical.str rfl hq ?_
    simp only [List.drop_succ_cons, List.drop_zero, List.cons_append, List.dropLast_concat,
      String.toList_ofList]
    intro hmem
    simpa using List.mem_takeWhile_imp hmem

theorem symbol_lexical (c : Char) (cs : List Char) {p : Position} {t : Token}
    (h : (symbol c cs).token? p = some t) : Lexical t := by
  have hsingle : ∀ t : Token, t.kind = singleKind c → t.literal = String.ofList [c] → Lexical t := by
    intro t hkind hliteral
    rcases singleKind_symbol c with hc | hc
    · exact Lexical.illegal (hkind.trans hc)
    · exact Lexical.symbol (by rw [hkind, hliteral, hc])
  unfold symbol at h
  split at h
  · cases h
    exact hsingle _ rfl rfl
  · split at h
    · rename_i hpair
      cases h
      exact Lexical.symbol (pairKind?_symbol hpair)
    · cases h
      exact hsingle _ rfl rfl

theorem lexeme_lexical (c : Char) (cs : List Char) {p : Position} {t : Token}
    (h : (lexeme c cs).token? p = some t) : Lexical t := by
  unfold lexeme at h
  split at h
  · contradiction
  split at h
  · contradiction
  split at h
  · rename_i hc
    exact number_lexical hc cs h
  split at h
  · rename_i hc
    cases h
    refine Lexical.word ?_ rfl
    rw [String.toList_ofList]
    exact ⟨c, _, rfl, hc, fun d hd => List.mem_takeWhile_imp hd⟩
  split at h
  · rename_i hq
    exact quoted_lexical hq cs h
  · exact symbol_lexical c cs h

theorem tokensFrom_lexical (p : Position) (cs : List Char) : ∀ t ∈ tokensFrom p cs, Lexical t := by
  fun_induction tokensFrom p cs with
  | case1 p =>
    intro t ht
    rw [List.mem_singleton.1 ht]
    exact Lexical.eof rfl
  | case2 p c cs l rest t htoken ih =>
    intro u hu
    rcases List.mem_cons.1 hu with rfl | hu
    · exact lexeme_lexical c cs htoken
    · exact ih u hu
  | case3 p c cs l rest htoken ih => exact ih

/-- The last token is an `eof`. -/
theorem tokensFrom_ends (p : Position) (cs : List Char) :
    ∃ ts z, tokensFrom p cs = ts ++ [z] ∧ z.kind = .eof := by
  fun_induction tokensFrom p cs with
  | case1 p => exact ⟨[], _, rfl, rfl⟩
  | case2 p c cs l rest t htoken ih =>
    obtain ⟨ts, z, hts, hz⟩ := ih
    exact ⟨t :: ts, z, congrArg (t :: ·) hts, hz⟩
  | case3 p c cs l rest htoken ih => exact ih

end Scan

end ScriptLang
