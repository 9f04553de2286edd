import Mathlib.Data.List.Induction
import Mathlib.Data.Nat.Digits.Lemmas
import ScriptLang.Proofs.Eval.Program
import ScriptLang.Proofs.Print.RoundTrip
import ScriptLang.Proofs.Value.Equality

/-!
  Integers read back as printed.

  The text of an integer is a row of ASCII digits, with a minus in front if it is negative.  As a source with a
  semicolon behind it, this is read as a literal or as a negated one, and its value is the integer.  A literal
  may also be spelled with the digits of other scripts and with zeros in front; it is the number that the
  digits stand for, the last of them for units.
-/

namespace ScriptLang

open Scan (IsDigits ne_of_isDigit Emits Loose loose_of_mem)

/-! ## Digits -/

namespace Number

/-- The digits of a text stand with the highest first, those of `Nat.ofDigits` with the lowest. -/
theorem ofDigits_eq (cs : List Char) : ofDigits cs = Nat.ofDigits 10 (cs.reverse.map Text.digitValue) := by
  induction cs using List.reverseRecOn with
  | nil => rfl
  | append_singleton cs c ih =>
    have hlast : ofDigits (cs ++ [c]) = 10 * ofDigits cs + Text.digitValue c := List.foldl_concat ..
    rw [hlast, ih, List.reverse_append, List.reverse_singleton, List.singleton_append, List.map_cons,
      Nat.ofDigits_cons, Nat.add_comm]

theorem digitValue?_of_isDigit {c : Char} (h : c.isDigit = true) :
    Text.digitValue? c = some (c.toNat - '0'.toNat) := by
  obtain ⟨hlow, hhigh⟩ := Char.isDigit_iff_toNat.1 h
  have hfirst : 0x30 ≤ c.toNat ∧ c.toNat < 0x30 + 10 := ⟨hlow, Nat.lt_succ_of_le hhigh⟩
  unfold Text.digitValue? Text.digitZeros
  rw [List.find?_cons_of_pos (by simpa using hfirst)]
  rfl

variable (n : Nat)

theorem isDigits_repr : IsDigits n.repr.toList := by
  rw [Nat.toList_repr]
  refine ⟨Nat.toDigits_ne_nil, fun c hc => ?_⟩
  have hdigit : c.isDigit = true := Nat.isDigit_of_mem_toDigits (by decide) (by decide) hc
  rw [Text.isDigit, digitValue?_of_isDigit hdigit]
  rfl

theorem ofDigits_repr : ofDigits n.repr.toList = n := by
  have hvalue (c : Char) (hc : c ∈ Nat.toDigits 10 n) : Text.digitValue c = c.toNat - '0'.toNat := by
    have hdigit : c.isDigit = true := Nat.isDigit_of_mem_toDigits (by decide) (by decide) hc
    rw [Text.digitValue, digitValue?_of_isDigit hdigit]
    rfl
  calc ofDigits n.repr.toList
    _ = ofDigits (Nat.toDigits 10 n) := by rw [Nat.toList_repr]
    _ = Nat.ofDigitChars 10 (Nat.toDigits 10 n) 0 := by
      rw [Nat.ofDigitChars_eq_foldl, ofDigits]
      exact List.foldl_ext _ _ _ fun k c hc => by rw [hvalue c hc]
    _ = n := Nat.ofDigitChars_ten_toDigits

theorem readInteger_repr {n : Nat} (h : n.repr.length ≤ digitLimit) : readInteger n.repr = .ok n := by
  rw [readInteger_of_isDigits (isDigits_repr n), if_neg (Nat.not_lt.2 h), ofDigits_repr]

end Number

/-! ## Sources that are one expression -/

/-- The source is read without a diagnostic, and run in any scope of any state it comes to `v`, writes nothing
    and changes nothing. -/
def StandsFor (source : String) (v : Value) : Prop :=
  ∃ p, parse source = .ok ⟨p, []⟩ ∧ ∀ settings scope m, ∃ m', m.SameState m' ∧
    Machine.runSource m settings scope source = (.finished v, m')

/-- The expression comes to `v` and changes nothing, unless it is cut off at once. -/
def Expr.Means (e : Expr) (v : Value) : Prop :=
  ∀ settings fuel depth scope m, evalExpr settings (fuel + 2) depth scope e m = .ok v m

/-- Tokens that spell an expression with a fixed value and a semicolon. -/
def SpellValue (v : Value) (ts : List Token) : Prop :=
  ∃ t e, Spells (.statements false [.expr t e]) ts ∧ e.Means v

theorem Expr.Means.step_statement {e : Expr} {v : Value} (h : e.Means v) (settings : Settings) (fuel depth : Nat)
    (scope : ScopeId) (t : Token) (m : Machine) :
    m.step (evalStmt settings (fuel + 3) depth scope (.expr t e)) = (.ok v, m) := by
  have hrun : evalStmt settings (fuel + 3) depth scope (.expr t e) m = .ok v m := h settings fuel depth scope m
  unfold Machine.step
  rw [hrun]

/-- A source whose tokens spell an integer in this way stands for it. -/
theorem standsFor_of_emits {source text : String} {n : Int} (htext : (Value.int n).text = .ok text)
    (h : Emits .start source.toList [] (SpellValue (.int n))) : StandsFor source (.int n) := by
  obtain ⟨ts, p', hts, t, e, hspell, hmeans⟩ := h
  have htokens : tokenize source = ts ++ [⟨.eof, "", p'.line, p'.column⟩] := by
    rw [tokenize, hts, Scan.tokensFrom]
  have hparse := parseTokens_accepts hspell (rfl : (⟨.eof, "", p'.line, p'.column⟩ : Token).kind = .eof)
  rw [← htokens] at hparse
  refine ⟨_, hparse, fun settings scope m => ?_⟩
  generalize hp : (⟨ts.headD ⟨.eof, "", p'.line, p'.column⟩, [.expr t e]⟩ : Program) = p at hparse
  obtain ⟨m₁, hm₁, hrun⟩ := step_runProgram settings ampleFuel scope p m
  have hvalue : m₁.step (statements settings ampleFuel scope .null p.statements) = (.ok (.int n), m₁) := by
    have hfuel : ampleFuel = ampleFuel - 3 + 3 := by decide
    rw [← hp, statements, inOrder_singleton, hfuel]
    exact hmeans.step_statement settings _ 0 scope t m₁
  rcases step_finish settings (Value.int n).text with hgood | ⟨f, hnone, -⟩
  · obtain ⟨m₂, hm₂, hfinish⟩ := hgood (.int n) m₁ rfl
    have hend : m.step (runProgram settings ampleFuel scope p) = (.ok (.int n), m₂) := by
      rw [hrun, step_bind hvalue, hfinish]
      rfl
    have hsource : m.runSource settings scope source = m.runProgram settings scope p := by
      rw [Machine.runSource, parse, hparse]
      rfl
    refine ⟨m₂, hm₁.trans hm₂, ?_⟩
    rw [hsource, Machine.runProgram, hend]
  · rw [htext] at hnone
    cases hnone

/-! ## Literals -/

theorem Expr.means_int (t : Token) (n : Int) : (Expr.int t n).Means (.int n) := fun _ _ _ _ _ => rfl

theorem Expr.means_negated {t u : Token} (n : Int) : (Expr.before t "-" (.int u n)).Means (.int (-n)) :=
  fun _ _ _ _ _ => rfl

theorem spells_int {t : Token} {n : Int} (hk : t.kind = .int) (hread : Number.readInteger t.literal = .ok n) :
    Spells (.tier Strength.before (.int t n)) [t] := .applied (.atom (.int hk hread))

theorem spells_statement {t sc : Token} {e : Expr} {us : List Token} (h : Spells (.tier Strength.before e) (t :: us))
    (hsc : sc.kind = .semicolon) : Spells (.statements false [.expr t e]) (t :: us ++ [sc]) := by
  have hexpr : Spells (.expr e) (t :: us) := .tier (.looser (by decide) (Nat.le_refl _) h)
  have hrow := Spells.cons (.exprOnly hexpr hsc) (.noStatements (f := false))
  rwa [List.append_nil] at hrow

/-- A row of digits with a semicolon behind it. -/
theorem literal_emits {ds : String} {n : Int} (hds : IsDigits ds.toList) (hread : Number.readInteger ds = .ok n)
    (p : Position) : Emits p (ds.toList ++ [';']) [] (SpellValue (.int n)) := by
  refine Emits.int hds (loose_of_mem (by decide)) fun t p' hk hliteral => ?_
  refine Emits.mark (c := ';') (k := .semicolon) (by decide) fun sc p'' hsc => Emits.done ?_
  exact ⟨t, _, spells_statement (spells_int hk (hliteral ▸ hread)) hsc, Expr.means_int t n⟩

/-- And one with a minus in front. -/
theorem negated_emits {ds : String} {n : Int} (hds : IsDigits ds.toList) (hread : Number.readInteger ds = .ok n)
    (p : Position) : Emits p ("-".toList ++ (ds.toList ++ [';'])) [] (SpellValue (.int (-n))) := by
  have hplain : Scan.Plain (ds.toList ++ [';']) := by
    obtain ⟨c, cs, hcs⟩ := List.exists_cons_of_ne_nil hds.1
    have hc : Text.isDigit c = true := hds.2 c (hcs ▸ List.mem_cons_self)
    have hsigns : ∀ d ∈ ['=', '>', '&', '|', '+', '-', '/'], Text.isDigit d = false :=
      List.all_iff_forall_prop.1 (by decide)
    rw [hcs]
    exact fun hmem => ne_of_isDigit hc (hsigns c hmem) rfl
  refine Emits.operator (k := .minus) rfl hplain fun s p' hk hliteral => ?_
  refine Emits.int hds (loose_of_mem (by decide)) fun t p' hkt hdigits => ?_
  refine Emits.mark (c := ';') (k := .semicolon) (by decide) fun sc p'' hsc => Emits.done ?_
  have hnegated : Spells (.tier Strength.before (.before s s.literal (.int t n))) [s, t] :=
    .before (by rw [hk]; decide) (spells_int hkt (hdigits ▸ hread))
  rw [hliteral] at hnegated
  exact ⟨s, _, spells_statement hnegated hsc, Expr.means_negated n⟩

/-! ## Integers and their texts -/

/-- The number that a row of decimal digits denotes, the first of them the highest. -/
def denoted (ds : String) : Nat := Nat.ofDigits 10 (ds.toList.reverse.map Text.digitValue)

theorem denoted_lt (ds : String) : denoted ds < 10 ^ ds.length := by
  have hdigit : ∀ d ∈ ds.toList.reverse.map Text.digitValue, d < 10 := by
    intro d hd
    obtain ⟨c, -, rfl⟩ := List.mem_map.1 hd
    unfold Text.digitValue
    cases hvalue : Text.digitValue? c with
    | none => decide
    | some d => exact Text.digitValue?_lt hvalue
  have hlt := Nat.ofDigits_lt_base_pow_length (by decide) hdigit
  rwa [List.length_map, List.length_reverse, String.length_toList] at hlt

theorem readInteger_eq_denoted {ds : String} (hds : IsDigits ds.toList) (hlength : ds.length ≤ digitLimit) :
    Number.readInteger ds = .ok (denoted ds) := by
  rw [Number.readInteger_of_isDigits hds, if_neg (Nat.not_lt.2 hlength), Number.ofDigits_eq]
  rfl

theorem literal_standsFor {ds : String} (hds : IsDigits ds.toList) (hlength : ds.length ≤ digitLimit) :
    StandsFor (ds ++ ";") (.int (denoted ds)) := by
  have hlt : (denoted ds : Int).natAbs < 10 ^ digitLimit :=
    Nat.lt_of_lt_of_le (denoted_lt ds) (Nat.pow_le_pow_right (by decide) hlength)
  refine standsFor_of_emits (Value.text_int hlt) ?_
  rw [String.toList_append]
  exact literal_emits hds (readInteger_eq_denoted hds hlength) _

theorem integer_standsFor {n : Int} (h : n.natAbs < 10 ^ digitLimit) : StandsFor (n.repr ++ ";") (.int n) := by
  have hread : Number.readInteger n.natAbs.repr = .ok n.natAbs :=
    Number.readInteger_repr ((Nat.length_repr_le_iff (by decide)).2 h)
  refine standsFor_of_emits (Value.text_int h) ?_
  rw [String.toList_append]
  cases n with
  | ofNat k => exact literal_emits (Number.isDigits_repr k) hread _
  | negSucc k =>
    have htext : (Int.negSucc k).repr = "-" ++ (k + 1).repr := rfl
    rw [htext, String.toList_append, List.append_assoc]
    exact negated_emits (Number.isDigits_repr (k + 1)) hread _

/-- An atom that is spelled by a row of digits is a literal. -/
theorem eq_int_of_spells {t : Token} {e : Expr} (hk : t.kind = .int) (h : Spells (.atom e) [t]) :
    ∃ n, e = .int t n ∧ Number.readInteger t.literal = .ok n := by
  generalize hts : [t] = ts at h
  cases h with
  | int _ hread =>
    cases hts
    exact ⟨_, rfl, hread⟩
  | name hkind | float hkind _ | str hkind | bool hkind | function hkind _ =>
    cases hts
    rw [hk] at hkind
    cases hkind
  | paren hlp _ _ =>
    cases (List.cons.inj hts).1
    rw [hk] at hlp
    cases hlp

/-- Integers of at most `digitLimit` digits read back as printed: the text of such an integer with a semicolon
    behind it is read without a diagnostic, and it comes to that integer in every scope, without any effect.

    So does a literal of at most `digitLimit` decimal digits, of any script and with any zeros in front, and
    the number it comes to is the one that its digits denote.  Wherever such a literal stands, that is its
    value. -/
theorem integers_read_back :
    (∀ n : Int, n.natAbs < 10 ^ digitLimit →
      ∃ text, (Value.int n).text = .ok text ∧ StandsFor (text ++ ";") (.int n)) ∧
    ∀ ds : String, IsDigits ds.toList → ds.length ≤ digitLimit →
      StandsFor (ds ++ ";") (.int (denoted ds)) ∧
      ∀ t e, t.kind = .int → t.literal = ds → Spells (.atom e) [t] →
        ∀ settings fuel depth scope m, evalExpr settings (fuel + 1) depth scope e m = .ok (.int (denoted ds)) m := by
  refine ⟨fun n hn => ⟨n.repr, Value.text_int hn, integer_standsFor hn⟩, fun ds hds hlength => ?_⟩
  refine ⟨literal_standsFor hds hlength, ?_⟩
  rintro t e hk rfl hspell settings fuel depth scope m
  obtain ⟨n, rfl, hread⟩ := eq_int_of_spells hk hspell
  rw [readInteger_eq_denoted hds hlength] at hread
  cases hread
  rfl

/-- The negative number `-120`, and `120` in Arabic-Indic digits with zeros in front. -/
theorem integers_read_back_signed :
    (-120 : Int).natAbs < 10 ^ digitLimit ∧ (Value.int (-120)).text = .ok "-120" ∧
      StandsFor "-120;" (.int (-120)) ∧
    IsDigits "00١٢٠".toList ∧ "00١٢٠".length ≤ digitLimit ∧ StandsFor "00١٢٠;" (.int 120) ∧
      Spells (.atom (.int ⟨.int, "00١٢٠", 1, 1⟩ 120)) [⟨.int, "00١٢٠", 1, 1⟩] ∧
      ∀ settings scope m, evalExpr settings 1 0 scope (.int ⟨.int, "00١٢٠", 1, 1⟩ 120) m = .ok (.int 120) m := by
  obtain ⟨hintegers, hliterals⟩ := integers_read_back
  have hsmall : (-120 : Int).natAbs < 10 ^ digitLimit := (Nat.length_repr_le_iff (by decide)).1 (by decide +kernel)
  have htext : (Value.int (-120)).text = .ok "-120" := Value.text_int hsmall
  obtain ⟨text, hshown, hstands⟩ := hintegers (-120) hsmall
  cases htext.symm.trans hshown
  have hdigits : IsDigits "00١٢٠".toList := ⟨by decide, List.all_eq_true.1 (by decide +kernel)⟩
  have hlength : "00١٢٠".length ≤ digitLimit := by decide +kernel
  have hvalue : denoted "00١٢٠" = 120 := by decide +kernel
  have hread := readInteger_eq_denoted hdigits hlength
  obtain ⟨hliteral, heval⟩ := hliterals "00١٢٠" hdigits hlength
  rw [hvalue] at hread hliteral heval
  have hspell : Spells (.atom (.int ⟨.int, "00١٢٠", 1, 1⟩ 120)) [⟨.int, "00١٢٠", 1, 1⟩] := .int rfl hread
  exact ⟨hsmall, htext, hstands, hdigits, hlength, hliteral, hspell,
    fun settings scope m => heval _ _ rfl rfl hspell settings 0 0 scope m⟩

end ScriptLang
