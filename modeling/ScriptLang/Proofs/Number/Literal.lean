import ScriptLang.Number.FloatText
import ScriptLang.Proofs.Token.Emits

/-!
  Numbers in a source text are read.

  A whole number is refused for its length only, and a number with a point never is.  This holds of
  the digits of every script, since no digit is a blank, a sign or an underscore.
-/

namespace ScriptLang.Number

open Scan (IsDigits exists_zero_of_isDigit ne_of_isDigit takeWhile_append_stop dropWhile_append_stop)

theorem not_isBlank_of_isDigit {c : Char} (h : Text.isDigit c = true) : isBlank c = false := by
  -- the blanks beyond ASCII lie in gaps of the table of digits
  have hzeros : ∀ z ∈ Text.digitZeros, z = 0x30 ∨ 0x660 ≤ z ∧ z ≤ 0x1090 ∨ 0x17E0 ≤ z ∧ z ≤ 0x1C50 ∨
      0xA620 ≤ z := by decide
  obtain ⟨z, hz, hrange⟩ := exists_zero_of_isDigit h
  have hzero := hzeros z hz
  have hspace : c ≠ ' ' := ne_of_isDigit h (by decide)
  simp only [isBlank, Bool.or_eq_false_iff, Bool.and_eq_false_iff, decide_eq_false_iff_not,
    beq_eq_false_iff_ne]
  refine ⟨⟨⟨⟨⟨⟨⟨⟨⟨⟨?_, hspace⟩, ?_⟩, ?_⟩, ?_⟩, ?_⟩, ?_⟩, ?_⟩, ?_⟩, ?_⟩, ?_⟩ <;> omega

/-- A text between two digits has no blanks around it. -/
theorem trim_eq_self {cs : List Char} (hhead : ∀ c ∈ cs.head?, Text.isDigit c = true)
    (hlast : ∀ c ∈ cs.getLast?, Text.isDigit c = true) : trim cs = cs := by
  have hdrop : ∀ cs : List Char, (∀ c ∈ cs.head?, Text.isDigit c = true) → cs.dropWhile isBlank = cs := by
    intro cs hcs
    cases cs with
    | nil => rfl
    | cons c cs => rw [List.dropWhile_cons, not_isBlank_of_isDigit (hcs c rfl)]; rfl
  unfold trim
  rw [hdrop cs hhead, hdrop cs.reverse (by rwa [List.head?_reverse]), List.reverse_reverse]

theorem splitSign_eq_of_isDigit {c : Char} (h : Text.isDigit c = true) (cs : List Char) :
    splitSign (c :: cs) = (false, c :: cs) := by
  have hminus : c ≠ '-' := ne_of_isDigit h (by decide)
  have hplus : c ≠ '+' := ne_of_isDigit h (by decide)
  unfold splitSign
  split
  · rename_i heq
    exact absurd (List.cons.inj heq).1 hminus
  · rename_i heq
    exact absurd (List.cons.inj heq).1 hplus
  · rfl

theorem underscoresBetweenDigits_of_not_mem {cs : List Char} (h : '_' ∉ cs) (b : Bool) :
    underscoresBetweenDigits b cs = true := by
  fun_induction underscoresBetweenDigits b cs with
  | case1 => rfl
  | case2 => exact absurd List.mem_cons_self h
  | case3 _ c cs _ ih => exact ih fun hmem => h (List.mem_cons_of_mem _ hmem)

theorem not_mem_of_isDigits {ds : List Char} (h : IsDigits ds) {c : Char} (hc : Text.isDigit c = false) :
    c ∉ ds := fun hmem => ne_of_isDigit (h.2 c hmem) hc rfl

theorem readInteger_of_isDigits {text : String} (h : IsDigits text.toList) :
    readInteger text = if digitLimit < text.length then .error (.literalDigits text.length)
      else .ok (ofDigits text.toList) := by
  obtain ⟨c, cs, htext⟩ := List.exists_cons_of_ne_nil h.1
  have hc : Text.isDigit c = true := h.2 c (htext ▸ List.mem_cons_self)
  have htrim : trim text.toList = text.toList :=
    trim_eq_self (fun c hc => h.2 c (List.mem_of_head? hc)) fun c hc => h.2 c (List.mem_of_getLast? hc)
  have hsign : splitSign text.toList = (false, text.toList) := by
    rw [htext, splitSign_eq_of_isDigit hc]
  have hspelled : text.toList.takeWhile (fun c => Text.isDigit c || c == '_') = text.toList :=
    List.takeWhile_eq_self_iff.2 fun c hc => by rw [h.2 c hc, Bool.true_or]
  have hdigits : text.toList.filter Text.isDigit = text.toList := List.filter_eq_self.2 h.2
  have hunder := underscoresBetweenDigits_of_not_mem (not_mem_of_isDigits h (c := '_') (by decide)) false
  unfold readInteger
  simp only [htrim, hsign, hspelled, hdigits, hunder, h.1, String.length_toList]
  simp

theorem splitDigits_append {ds cs : List Char} (hds : IsDigits ds) (hcs : ∀ c ∈ cs.head?, c = '.') :
    splitDigits (ds ++ cs) = (ds, cs) := by
  have hrun : ∀ d ∈ ds, (Text.isDigit d || d == '_') = true := fun d hd => by
    rw [hds.2 d hd, Bool.true_or]
  have hstop : ∀ c ∈ cs.head?, (Text.isDigit c || c == '_') = false := fun c hc => by
    rw [hcs c hc]
    decide
  unfold splitDigits
  simp only [takeWhile_append_stop hrun hstop, dropWhile_append_stop hrun hstop,
    List.filter_eq_self.2 hds.2]

theorem readMagnitude?_isSome {ds es : List Char} (hds : IsDigits ds) (hes : IsDigits es) (b : Bool) :
    (readMagnitude? b (ds ++ '.' :: es)).isSome = true := by
  have hwhole : splitDigits (ds ++ '.' :: es) = (ds, '.' :: es) :=
    splitDigits_append hds fun c hc => by simpa using hc.symm
  have hfraction : splitDigits es = (es, []) := by
    have hall : splitDigits (es ++ []) = (es, []) := splitDigits_append hes fun c hc => nomatch hc
    rwa [List.append_nil] at hall
  unfold readMagnitude?
  simp only [hwhole, hfraction, hds.1, false_and, if_false, readExponent?, Option.map_some,
    Option.isSome_some]

theorem readFloat_of_isDigits {text : String} {ds es : List Char} (htext : text.toList = ds ++ '.' :: es)
    (hds : IsDigits ds) (hes : IsDigits es) : ∃ x, readFloat text = .ok x := by
  obtain ⟨c, cs, rfl⟩ := List.exists_cons_of_ne_nil hds.1
  have hc : Text.isDigit c = true := hds.2 c List.mem_cons_self
  have htrim : trim text.toList = text.toList := by
    refine trim_eq_self (fun d hd => ?_) fun d hd => ?_
    · rw [htext] at hd
      cases hd
      exact hc
    · refine hes.2 d (List.mem_of_getLast? ?_)
      have hsplit : text.toList = (c :: cs ++ ['.']) ++ es := by simp [htext]
      rwa [hsplit, List.getLast?_append, Option.or_of_isSome (by simp [hes.1])] at hd
  have hsign : splitSign text.toList = (false, text.toList) := by
    rw [htext, List.cons_append, splitSign_eq_of_isDigit hc]
  have hunder : underscoresBetweenDigits false text.toList = true := by
    refine underscoresBetweenDigits_of_not_mem (fun hmem => ?_) false
    have hmem' : '_' ∈ c :: cs ∨ '_' ∈ es := by simpa [htext, or_assoc] using hmem
    rcases hmem' with hmem | hmem
    · exact not_mem_of_isDigits hds (by decide) hmem
    · exact not_mem_of_isDigits hes (by decide) hmem
  obtain ⟨x, hx⟩ := Option.isSome_iff_exists.1 (readMagnitude?_isSome hds hes false)
  unfold readFloat
  simp only [htrim, hsign, hunder, if_true]
  rw [htext, hx]
  split
  · exact ⟨_, rfl⟩
  · rename_i hnone
    split at hnone
    · contradiction
    · split at hnone <;> contradiction

end ScriptLang.Number
