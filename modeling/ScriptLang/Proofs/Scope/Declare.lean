import ScriptLang.Scope

/-!
  Binding a list of names in a scope.

  Names are bound one after the other, and a name that is bound already stays as it is.  So the first
  of several values for a name counts, and only distinct names are all bound.
-/

namespace ScriptLang

namespace Scope

/-- Binds a name as a variable, unless it is bound already. -/
def declare (s : Scope) (name : String) (v : Value) : Scope :=
  if s.binds name then s else s.insert name ⟨v, false⟩

/-- Binds names one after the other. -/
def declareAll (s : Scope) (qs : List (String × Value)) : Scope :=
  qs.foldl (fun s q => s.declare q.1 q.2) s

variable (s : Scope) (name : String) (v : Value) (qs : List (String × Value))

theorem declare_of_binds {s : Scope} {name : String} (h : s.binds name = true) (v : Value) :
    s.declare name v = s := if_pos h

theorem declare_of_not_binds {s : Scope} {name : String} (h : s.binds name = false) (v : Value) :
    s.declare name v = s.insert name ⟨v, false⟩ := if_neg (by rw [h]; exact Bool.false_ne_true)

theorem declareAll_cons (q : String × Value) :
    s.declareAll (q :: qs) = (s.declare q.1 q.2).declareAll qs := rfl

theorem outer_declare : (s.declare name v).outer = s.outer := by
  unfold declare
  split
  · rfl
  · rfl

theorem outer_declareAll : (s.declareAll qs).outer = s.outer := by
  induction qs generalizing s with
  | nil => rfl
  | cons q qs ih => exact (ih _).trans (s.outer_declare q.1 q.2)

/-- The first binding of a name counts. -/
theorem find?_declare (n : String) :
    (s.declare name v).find? n = (s.find? n).or (if n = name then some ⟨v, false⟩ else none) := by
  cases hbinds : s.binds name with
  | true =>
    rw [declare_of_binds hbinds]
    by_cases hn : n = name
    · subst hn
      obtain ⟨b, hb⟩ := Option.isSome_iff_exists.1 hbinds
      rw [hb]
      rfl
    · rw [if_neg hn, Option.or_none]
  | false =>
    rw [declare_of_not_binds hbinds, find?_insert]
    by_cases hn : n = name
    · subst hn
      have hnone : s.find? n = none := Option.not_isSome_iff_eq_none.1 (Bool.eq_false_iff.1 hbinds)
      rw [if_pos rfl, if_pos rfl, hnone]
      rfl
    · rw [if_neg hn, if_neg hn, Option.or_none]

theorem find?_declareAll (n : String) :
    (s.declareAll qs).find? n = (s.find? n).or ((qs.lookup n).map (⟨·, false⟩)) := by
  induction qs generalizing s with
  | nil => exact (Option.or_none).symm
  | cons q qs ih =>
    rw [declareAll_cons, ih, find?_declare, Option.or_assoc, List.lookup_cons]
    by_cases hn : n = q.1
    · rw [if_pos hn, beq_iff_eq.2 hn]
      rfl
    · rw [if_neg hn, beq_eq_false_iff_ne.2 hn]
      rfl

/-- Distinct new names are all bound. -/
theorem bindings_declareAll {s : Scope} {qs : List (String × Value)} (hnodup : (qs.map Prod.fst).Nodup)
    (hnew : ∀ q ∈ qs, s.binds q.1 = false) :
    (s.declareAll qs).bindings = (qs.map fun q => (q.1, ⟨q.2, false⟩)).reverse ++ s.bindings := by
  induction qs generalizing s with
  | nil => rfl
  | cons q qs ih =>
    rw [List.map_cons, List.nodup_cons] at hnodup
    have hrest : ∀ r ∈ qs, (s.insert q.1 ⟨q.2, false⟩).binds r.1 = false := by
      intro r hr
      have hne : r.1 ≠ q.1 := fun heq => hnodup.1 (heq ▸ List.mem_map_of_mem hr)
      unfold binds
      rw [find?_insert, if_neg hne]
      exact hnew r (List.mem_cons_of_mem _ hr)
    rw [declareAll_cons, declare_of_not_binds (hnew q List.mem_cons_self), ih hnodup.2 hrest,
      List.map_cons, List.reverse_cons, List.append_assoc]
    rfl

theorem length_declare_le : (s.declare name v).bindings.length ≤ s.bindings.length + 1 := by
  unfold declare
  split
  · exact Nat.le_succ _
  · exact Nat.le_refl _

theorem length_declareAll_le : (s.declareAll qs).bindings.length ≤ s.bindings.length + qs.length := by
  induction qs generalizing s with
  | nil => exact Nat.le_refl _
  | cons q qs ih =>
    have hrest := ih (s.declare q.1 q.2)
    have hfirst := s.length_declare_le q.1 q.2
    rw [declareAll_cons, List.length_cons]
    omega

theorem binds_declare_of_binds {s : Scope} {n : String} (h : s.binds n = true) (name : String) (v : Value) :
    (s.declare name v).binds n = true := by
  obtain ⟨b, hb⟩ := Option.isSome_iff_exists.1 h
  unfold binds
  rw [find?_declare, hb]
  rfl

/-- A name that is bound already takes no place. -/
theorem length_declareAll_lt {s : Scope} {qs : List (String × Value)} {q : String × Value} (hq : q ∈ qs)
    (hbinds : s.binds q.1 = true) :
    (s.declareAll qs).bindings.length < s.bindings.length + qs.length := by
  induction qs generalizing s with
  | nil => cases hq
  | cons r qs ih =>
    rw [declareAll_cons, List.length_cons]
    rcases List.mem_cons.1 hq with rfl | hq
    · rw [declare_of_binds hbinds]
      have hle := s.length_declareAll_le qs
      omega
    · have hlt := ih hq (binds_declare_of_binds hbinds r.1 r.2)
      have hle := s.length_declare_le r.1 r.2
      omega

/-- A name that comes twice is bound once. -/
theorem length_declareAll_repeated {s : Scope} {qs : List (String × Value)}
    (hrepeated : ¬ (qs.map Prod.fst).Nodup) :
    (s.declareAll qs).bindings.length < s.bindings.length + qs.length := by
  induction qs generalizing s with
  | nil => exact absurd List.nodup_nil hrepeated
  | cons q qs ih =>
    rw [declareAll_cons, List.length_cons]
    have hle := s.length_declare_le q.1 q.2
    by_cases hrest : (qs.map Prod.fst).Nodup
    · have hmem : q.1 ∈ qs.map Prod.fst :=
        Decidable.byContradiction fun hnew => hrepeated (List.nodup_cons.2 ⟨hnew, hrest⟩)
      obtain ⟨r, hr, hname⟩ := List.mem_map.1 hmem
      have hbinds : (s.declare q.1 q.2).binds r.1 = true := by
        unfold binds
        rw [find?_declare, if_pos hname, Option.isSome_or]
        exact Bool.or_true _
      have hlt := length_declareAll_lt hr hbinds
      omega
    · have hlt := @ih (s.declare q.1 q.2) hrest
      omega

end Scope

/-- A name is declared in the newest scope of a heap. -/
theorem Heap.define_push (scopes : Array Scope) (s : Scope) (functions : Nat) (name : String) (v : Value) :
    (define ⟨scopes.push s, functions⟩ scopes.size name v false).2 =
      ⟨scopes.push (s.declare name v), functions⟩ := by
  have hbinding : (binding? ⟨scopes.push s, functions⟩ scopes.size name).isSome = s.binds name := by
    show ((scopes.push s)[scopes.size]?.bind (·.find? name)).isSome = _
    rw [Array.getElem?_push_size]
    rfl
  unfold define
  rw [hbinding]
  cases hbinds : s.binds name with
  | true =>
    rw [Scope.declare_of_binds hbinds]
    rfl
  | false =>
    have hmodify : (scopes.push s).modify scopes.size (·.insert name ⟨v, false⟩) =
        scopes.push (s.insert name ⟨v, false⟩) := by
      apply Array.ext_getElem?
      intro i
      rw [Array.getElem?_modify, Array.getElem?_push, Array.getElem?_push]
      by_cases hi : i = scopes.size
      · rw [if_pos hi.symm, if_pos hi, if_pos hi]
        rfl
      · rw [if_neg (Ne.symm hi), if_neg hi, if_neg hi]
    rw [Scope.declare_of_not_binds hbinds, ← hmodify]
    rfl

end ScriptLang
