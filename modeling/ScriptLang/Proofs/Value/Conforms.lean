import ScriptLang.Proofs.Value.Choice
import ScriptLang.Proofs.Value.Clean

/-!
  Which arguments a declared type takes.

  `Conforms` says it without the check that a call makes.  The check takes exactly the conforming
  arguments.  Of the others it makes an error that names both types, except for one: an integer out of
  the range of a `float` parameter is a fault of the conversion.
-/

namespace ScriptLang

namespace Value

/-- The value may be passed where the type is declared. -/
inductive Conforms : Value → (declared : String) → Prop
  | named (v : Value) : Conforms v v.typeName
  | any (v : Value) : Conforms v "any"
  | object (v : Value) : Conforms v "object"
  /-- An integer becomes a float, if there is one for it. -/
  | converted {n : Int} {x : Float} : Number.ofInteger n = .ok x → Conforms (.int n) "float"
  /-- A function type is written as the signature of its functions. -/
  | signature (f : Closure) : f.signature.startsWith "fn(" = true → Conforms (.function f) f.signature

instance (v : Value) (declared : String) : Decidable (v.Suits declared) :=
  inferInstanceAs (Decidable (declared = "any" ∨ declared = "object" ∨ v.typeAgainst declared = declared))

variable {v : Value} {declared : String}

theorem typeAgainst_typeName (v : Value) : v.typeAgainst v.typeName = v.typeName := by
  cases v with
  | function f =>
    have hname : "function".startsWith "fn(" = false := by decide +kernel
    show (if "function".startsWith "fn(" = true then f.signature else "function") = "function"
    rw [hname]
    rfl
  | int n | float x | bool b | str s | null | returned u | error e => rfl

/-- A value conforms to the type that a parameter sees it as. -/
theorem Conforms.of_typeAgainst (h : v.typeAgainst declared = declared) : v.Conforms declared := by
  unfold typeAgainst at h
  split at h
  · rename_i f
    split at h
    · rename_i hfn
      subst h
      exact .signature f hfn
    · subst h
      exact .named _
  · subst h
    exact .named v

/-- Where nothing is converted, a value conforms to the types that take it as it is. -/
theorem conforms_iff_suits (h : ¬ v.Converts declared) : v.Conforms declared ↔ v.Suits declared := by
  constructor
  · intro hconforms
    cases hconforms with
    | named => exact Or.inr (Or.inr (typeAgainst_typeName v))
    | any => exact Or.inl rfl
    | object => exact Or.inr (Or.inl rfl)
    | converted _ => exact absurd ⟨rfl, _, rfl⟩ h
    | signature f hfn => exact Or.inr (Or.inr (if_pos hfn))
  · rintro (rfl | rfl | hsame)
    · exact .any v
    · exact .object v
    · exact .of_typeAgainst hsame

theorem conforms_str {s : String} : (Value.str s).Conforms declared ↔ (Value.str s).Suits declared :=
  conforms_iff_suits fun ⟨_, _, h⟩ => nomatch h

theorem conforms_int_float {n : Int} :
    (Value.int n).Conforms "float" ↔ ∃ x, Number.ofInteger n = .ok x := by
  constructor
  · intro h
    generalize hd : "float" = declared at h
    cases h with
    | converted hx => exact ⟨_, hx⟩
    | named => exact absurd hd (by decide : "float" ≠ "int")
    | any | object => exact absurd hd (by decide)
  · rintro ⟨x, hx⟩
    exact .converted hx

end Value

/-! ## The check -/

section Check

variable {v : Value} {declared : String} (function parameter : String)

theorem checkArgument_int_float (n : Int) :
    checkArgument function parameter "float" (.int n) = (Number.ofInteger n).map Value.float := rfl

/-- A conforming argument is taken as it is or as a float. -/
theorem checkArgument_of_conforms (h : v.Conforms declared) :
    ∃ w, checkArgument function parameter declared v = .ok w ∧ (w = v ∨ ∃ x, w = .float x) := by
  by_cases hconverts : v.Converts declared
  · obtain ⟨rfl, n, rfl⟩ := hconverts
    obtain ⟨x, hx⟩ := Value.conforms_int_float.1 h
    rw [checkArgument_int_float, hx]
    exact ⟨.float x, rfl, Or.inr ⟨x, rfl⟩⟩
  · have hsuits := (Value.conforms_iff_suits hconverts).1 h
    exact ⟨v, (checkArgument_of_not_converts hconverts function parameter).1 hsuits, Or.inl rfl⟩

/-- An integer that does not conform to `float` has no float. -/
theorem checkArgument_of_overflow (hconverts : v.Converts declared) (h : ¬ v.Conforms declared) :
    checkArgument function parameter declared v = .error .conversionOverflow := by
  obtain ⟨rfl, n, rfl⟩ := hconverts
  have hrange : Number.infinityBits ≤ Number.nearestBits n.natAbs 1 :=
    Decidable.byContradiction fun hfits => h (Value.conforms_int_float.2 ⟨_, if_neg hfits⟩)
  rw [checkArgument_int_float, Number.ofInteger, if_pos hrange]
  rfl

/-- Any other argument that does not conform is refused. -/
theorem checkArgument_of_mismatch (hconverts : ¬ v.Converts declared) (h : ¬ v.Conforms declared) :
    checkArgument function parameter declared v =
      .ok (.error (.argumentType function parameter declared (v.typeAgainst declared))) :=
  (checkArgument_of_not_converts hconverts function parameter).2
    fun hsuits => h ((Value.conforms_iff_suits hconverts).2 hsuits)

variable {function parameter : String} {w : Value}

/-- What the check lets pass conforms. -/
theorem conforms_of_checkArgument (h : checkArgument function parameter declared v = .ok w)
    (hw : w.isError = false) : v.Conforms declared := by
  by_cases hv : v.Conforms declared
  · exact hv
  by_cases hconverts : v.Converts declared
  · rw [checkArgument_of_overflow function parameter hconverts hv] at h
    cases h
  · rw [checkArgument_of_mismatch function parameter hconverts hv] at h
    cases h
    cases hw

/-- The check faults only for an integer that has no float. -/
theorem checkArgument_eq_error {flt : Fault} (h : checkArgument function parameter declared v = .error flt) :
    ¬ v.Conforms declared ∧ v.Converts declared ∧ flt = .conversionOverflow := by
  have hv : ¬ v.Conforms declared := by
    intro hv
    obtain ⟨w, hw, -⟩ := checkArgument_of_conforms function parameter hv
    rw [hw] at h
    cases h
  by_cases hconverts : v.Converts declared
  · rw [checkArgument_of_overflow function parameter hconverts hv] at h
    cases h
    exact ⟨hv, hconverts, rfl⟩
  · rw [checkArgument_of_mismatch function parameter hconverts hv] at h
    cases h

/-- An argument that is no error itself is refused with the two types. -/
theorem checkArgument_eq_refusal {e : RuntimeError} (hv : v.isError = false)
    (h : checkArgument function parameter declared v = .ok (.error e)) :
    ¬ v.Conforms declared ∧ ¬ v.Converts declared ∧
      e = .argumentType function parameter declared (v.typeAgainst declared) := by
  have hconforms : ¬ v.Conforms declared := by
    intro hconforms
    obtain ⟨w, hw, hsame⟩ := checkArgument_of_conforms function parameter hconforms
    rw [hw] at h
    cases h
    rcases hsame with rfl | ⟨x, hx⟩
    · cases hv
    · cases hx
  by_cases hconverts : v.Converts declared
  · rw [checkArgument_of_overflow function parameter hconverts hconforms] at h
    cases h
  · rw [checkArgument_of_mismatch function parameter hconverts hconforms] at h
    cases h
    exact ⟨hconforms, hconverts, rfl⟩

end Check

end ScriptLang
