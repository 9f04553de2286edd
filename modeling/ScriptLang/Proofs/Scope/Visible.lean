import Mathlib.Data.List.Nodup
import Mathlib.Data.List.Perm.Subperm
import Mathlib.Order.WellFounded
import ScriptLang.Proofs.Scope.Reach

/-!
  What a declaration or an assignment changes, seen from every scope.

  Scopes share the scopes around them, so a change of one binding is seen from many scopes, and hidden
  from others by a binding of the same name that is nearer.  `Unshadowed` says from where a binding in a
  scope would be seen.  On a heap whose chains are well founded a name is looked up in the scope itself
  and then from the scope around it, and an induction along the chain compares what is seen before and
  after the change.
-/

namespace ScriptLang.Heap

variable {h h' : Heap} {id s : ScopeId} {name : String} {v : Value}

/-! ## Chains -/

theorem chainUpTo_of_size_le (hid : h.scopes.size ≤ id) (fuel : Nat) : h.chainUpTo fuel id = [] := by
  cases fuel with
  | zero => rfl
  | succ fuel => rw [chainUpTo, Array.getElem?_eq_none hid]

theorem chainUpTo_succ (hid : id < h.scopes.size) (fuel : Nat) :
    h.chainUpTo (fuel + 1) id = id :: (h.outer? id).elim [] (h.chainUpTo fuel) := by
  obtain ⟨s, hs⟩ : ∃ s, h.scopes[id]? = some s := ⟨_, Array.getElem?_eq_getElem hid⟩
  unfold outer?
  rw [chainUpTo, hs]
  dsimp only [Option.bind_some]
  cases s.outer with
  | none => rfl
  | some o => rfl

theorem lt_size_of_mem_chainUpTo {fuel : Nat} (hs : s ∈ h.chainUpTo fuel id) : s < h.scopes.size := by
  induction fuel generalizing id with
  | zero => cases hs
  | succ fuel ih =>
    by_cases hid : id < h.scopes.size
    · rw [chainUpTo_succ hid] at hs
      rcases List.mem_cons.1 hs with rfl | hs
      · exact hid
      · cases ho : h.outer? id with
        | none =>
          rw [ho] at hs
          cases hs
        | some o =>
          rw [ho] at hs
          exact ih hs
    · rw [chainUpTo_of_size_le (Nat.le_of_not_lt hid)] at hs
      cases hs

namespace Founded

/-- A scope that came a second time would lie inside itself. -/
theorem nodup_chainUpTo (hfounded : h.Founded) (fuel : Nat) (id : ScopeId) : (h.chainUpTo fuel id).Nodup := by
  induction fuel generalizing id with
  | zero => exact List.nodup_nil
  | succ fuel ih =>
    by_cases hid : id < h.scopes.size
    · rw [chainUpTo_succ hid]
      cases ho : h.outer? id with
      | none => exact List.nodup_singleton id
      | some o =>
        refine List.nodup_cons.2 ⟨fun hmem => ?_, ih o⟩
        -- every scope of the chain of `o` is around `o`, and `o` is around `id`
        let Around (outer id : ScopeId) : Prop := h.outer? id = some outer
        have houter : ∀ {i p}, Relation.ReflTransGen Around i o → h.outer? i = some p →
            Relation.ReflTransGen Around p o := fun hi hp => .head hp hi
        have haround : Relation.ReflTransGen Around id o := chainUpTo_forall houter .refl fuel id hmem
        exact hfounded.transGen.irrefl.irrefl id (.tail' haround ho)
    · rw [chainUpTo_of_size_le (Nat.le_of_not_lt hid)]
      exact List.nodup_nil

theorem length_chainUpTo_le (hfounded : h.Founded) (fuel : Nat) (id : ScopeId) :
    (h.chainUpTo fuel id).length ≤ h.scopes.size := by
  have hsubset : h.chainUpTo fuel id ⊆ List.range h.scopes.size :=
    fun s hs => List.mem_range.2 (lt_size_of_mem_chainUpTo hs)
  have hlength := ((hfounded.nodup_chainUpTo fuel id).subperm hsubset).length_le
  rwa [List.length_range] at hlength

end Founded

/-- A chain that does not use up its bound is complete. -/
theorem chainUpTo_eq_succ {fuel : Nat} (hlength : (h.chainUpTo (fuel + 1) id).length ≤ fuel) :
    h.chainUpTo (fuel + 1) id = h.chainUpTo fuel id := by
  induction fuel generalizing id with
  | zero => exact List.eq_nil_of_length_eq_zero (Nat.le_zero.1 hlength)
  | succ fuel ih =>
    by_cases hid : id < h.scopes.size
    · rw [chainUpTo_succ hid] at hlength
      rw [chainUpTo_succ hid, chainUpTo_succ hid]
      cases ho : h.outer? id with
      | none => rfl
      | some o =>
        rw [ho] at hlength
        exact congrArg (id :: ·) (ih (Nat.le_of_succ_le_succ hlength))
    · rw [chainUpTo_of_size_le (Nat.le_of_not_lt hid), chainUpTo_of_size_le (Nat.le_of_not_lt hid)]

/-! ## Looking up step by step -/

namespace Founded

theorem resolve?_eq_succ (hfounded : h.Founded) (id : ScopeId) (name : String) :
    h.resolve? id name = h.resolveUpTo (h.scopes.size + 1) id name := by
  unfold resolveUpTo
  rw [chainUpTo_eq_succ (hfounded.length_chainUpTo_le _ id)]
  rfl

theorem resolve?_of_bound (hfounded : h.Founded) {b : Binding} (hb : h.binding? id name = some b) :
    h.resolve? id name = some (id, b) := by
  rw [hfounded.resolve?_eq_succ, resolveUpTo_bound hb]

theorem resolve?_of_unbound (hfounded : h.Founded) (hb : h.binding? id name = none) :
    h.resolve? id name = (h.outer? id).bind fun o => h.resolve? o name := by
  rw [hfounded.resolve?_eq_succ, resolveUpTo_unbound hb]
  rfl

/-- What a scope does not bind, it sees as the scope around it does. -/
theorem get?_of_unbound (hfounded : h.Founded) (hb : h.binding? id name = none) :
    h.get? id name = (h.outer? id).bind fun o => h.get? o name := by
  unfold get?
  rw [hfounded.resolve?_of_unbound hb]
  cases h.outer? id with
  | none => rfl
  | some o => rfl

end Founded

/-! ## Nearest bindings -/

/-- Going outwards from `id`, the scope `s` comes before every other scope that binds the name. -/
inductive Unshadowed (h : Heap) (name : String) : (id s : ScopeId) → Prop
  | here {s : ScopeId} : h.Unshadowed name s s
  | outward {id o s : ScopeId} : h.binding? id name = none → h.outer? id = some o →
      h.Unshadowed name o s → h.Unshadowed name id s

/-- Going outwards from `id`, the first scope that binds the name is `s`, and it has the binding `b`. -/
structure Nearest (h : Heap) (name : String) (id s : ScopeId) (b : Binding) : Prop where
  unshadowed : h.Unshadowed name id s
  bound : h.binding? s name = some b

theorem Unshadowed.eq_of_bound {b : Binding} (hs : h.Unshadowed name id s) (hb : h.binding? id name = some b) :
    s = id := by
  cases hs with
  | here => rfl
  | outward hnone _ _ =>
    rw [hb] at hnone
    cases hnone

/-- Looking up finds the nearest binding. -/
theorem Founded.resolve?_eq_some_iff (hfounded : h.Founded) {b : Binding} :
    h.resolve? id name = some (s, b) ↔ h.Nearest name id s b := by
  constructor
  · induction id using hfounded.induction with
    | _ id ih =>
      intro hr
      cases hb : h.binding? id name with
      | some c =>
        rw [hfounded.resolve?_of_bound hb] at hr
        cases hr
        exact ⟨.here, hb⟩
      | none =>
        rw [hfounded.resolve?_of_unbound hb] at hr
        obtain ⟨o, ho, hr⟩ := Option.bind_eq_some_iff.1 hr
        have hnear := ih o ho hr
        exact ⟨.outward hb ho hnear.unshadowed, hnear.bound⟩
  · rintro ⟨hs, hb⟩
    induction hs with
    | here => exact hfounded.resolve?_of_bound hb
    | outward hnone ho _ ih =>
      rw [hfounded.resolve?_of_unbound hnone, ho]
      exact ih hb

/-! ## One binding more, or another value for one -/

/-- The second heap is the first, but for the binding of the name in the scope `s`, which is `b`. -/
structure Rebinds (h h' : Heap) (s : ScopeId) (name : String) (b : Binding) : Prop where
  size : h'.scopes.size = h.scopes.size
  functions : h'.functions = h.functions
  outer : ∀ i, h'.outer? i = h.outer? i
  bindings : ∀ i n, h'.binding? i n = if i = s ∧ n = name then some b else h.binding? i n

/-- From the scopes with the property the name has the value in the second heap.  From the others, and
    under any other name, the same is seen in both heaps. -/
def Sees (h h' : Heap) (P : ScopeId → Prop) (name : String) (v : Value) : Prop :=
  ∀ id n, (n = name ∧ P id → h'.get? id n = some v) ∧ (¬ (n = name ∧ P id) → h'.get? id n = h.get? id n)

namespace Rebinds

variable {b : Binding}

theorem founded (hrebinds : h.Rebinds h' s name b) (hfounded : h.Founded) : h'.Founded := by
  unfold Founded
  simp only [hrebinds.outer]
  exact hfounded

/-- The induction is outwards along the chain, on which the outer scopes are the same in both heaps. -/
theorem sees (hrebinds : h.Rebinds h' s name b) (hfounded : h.Founded) :
    h.Sees h' (h.Unshadowed name · s) name b.value := by
  intro id n
  have hfounded' := hrebinds.founded hfounded
  induction id using hfounded.induction with
  | _ id ih =>
    by_cases hhere : id = s ∧ n = name
    · obtain ⟨rfl, rfl⟩ := hhere
      have hb : h'.binding? id n = some b := by rw [hrebinds.bindings, if_pos ⟨rfl, rfl⟩]
      constructor
      · intro _
        exact get?_of_binding? hb
      · intro hhidden
        exact absurd ⟨rfl, .here⟩ hhidden
    · have hsame : h'.binding? id n = h.binding? id n := by rw [hrebinds.bindings, if_neg hhere]
      cases hb : h.binding? id n with
      | some c =>
        rw [hb] at hsame
        constructor
        · rintro ⟨rfl, hs⟩
          exact absurd ⟨(hs.eq_of_bound hb).symm, rfl⟩ hhere
        · intro _
          rw [get?_of_binding? hsame, get?_of_binding? hb]
      | none =>
        rw [hb] at hsame
        rw [hfounded'.get?_of_unbound hsame, hfounded.get?_of_unbound hb, hrebinds.outer]
        cases ho : h.outer? id with
        | none =>
          constructor
          · rintro ⟨rfl, hs⟩
            cases hs with
            | here => exact absurd ⟨rfl, rfl⟩ hhere
            | outward _ ho' _ =>
              rw [ho] at ho'
              cases ho'
          · intro _
            rfl
        | some o =>
          obtain ⟨hseen, hunseen⟩ := ih o ho
          constructor
          · rintro ⟨rfl, hs⟩
            cases hs with
            | here => exact absurd ⟨rfl, rfl⟩ hhere
            | outward _ ho' hs =>
              rw [ho] at ho'
              cases ho'
              exact hseen ⟨rfl, hs⟩
          · intro hhidden
            refine hunseen fun hs => hhidden ⟨hs.1, ?_⟩
            obtain ⟨rfl, hs⟩ := hs
            exact .outward hb ho hs

end Rebinds

theorem rebinds_assign {owner : ScopeId} {b : Binding} (hr : h.resolve? id name = some (owner, b))
    (hb : b.constant = false) :
    h.Rebinds (h.assign id name v).2 owner name { b with value := v } where
  size := size_assign
  functions := functions_assign
  outer := outer?_assign
  bindings := (assign_variable hr hb).2

theorem rebinds_define (hid : id < h.scopes.size) (hnew : h.binding? id name = none) (constant : Bool) :
    h.Rebinds (h.define id name v constant).2 id name ⟨v, constant⟩ where
  size := size_define constant
  functions := functions_define constant
  outer := outer?_define constant
  bindings := binding?_define_new hid hnew

/-- A declaration is refused exactly if the scope itself binds the name. -/
theorem define_eq_refused_iff (hid : id < h.scopes.size) (constant : Bool) :
    h.define id name v constant = (.error (.redeclared name), h) ↔ (h.binding? id name).isSome = true := by
  constructor
  · intro hrefused
    cases hb : h.binding? id name with
    | some b => rfl
    | none =>
      -- the heap that is given back binds the name
      have hbound : (h.define id name v constant).2.binding? id name = some ⟨v, constant⟩ :=
        binding?_define_self hid hb
      rw [hrefused, hb] at hbound
      cases hbound
  · intro hbound
    unfold define
    rw [if_pos hbound]

/-- An assignment gives the nearest binding of the name its value, unless that is constant, and a declaration
    adds a binding to its scope, unless the name is bound there already.  Nothing else is changed, and the
    change is seen exactly from the scopes that it is not hidden from.  What is refused leaves the heap as it
    was. -/
theorem bindings_change_exactly (hfounded : h.Founded) (e : ScopeId) (n : String) (v : Value) :
    (∀ s b, h.Nearest n e s b → b.constant = false → (h.assign e n v).1 = v ∧
      h.Rebinds (h.assign e n v).2 s n { b with value := v } ∧
      h.Sees (h.assign e n v).2 (fun e' => h.Nearest n e' s b) n v) ∧
    (∀ s b, h.Nearest n e s b → b.constant = true →
      h.assign e n v = (.error (.constantTarget n), h)) ∧
    ((∀ s b, ¬ h.Nearest n e s b) → h.assign e n v = (.error (.unknownTarget n), h)) ∧
    (e < h.scopes.size → ∀ c,
      (h.define e n v c = (.error (.redeclared n), h) ↔ (h.binding? e n).isSome = true) ∧
      (h.binding? e n = none → (h.define e n v c).1 = v ∧
        h.Rebinds (h.define e n v c).2 e n ⟨v, c⟩ ∧
        h.Sees (h.define e n v c).2 (fun e' => h.Unshadowed n e' e) n v)) := by
  refine ⟨fun s b hnear hb => ?_, fun s b hnear hb => ?_, fun hnone => ?_, fun he c => ⟨?_, fun hnew => ?_⟩⟩
  · have hr := hfounded.resolve?_eq_some_iff.2 hnear
    have hrebinds := rebinds_assign (v := v) hr hb
    refine ⟨(assign_variable hr hb).1, hrebinds, ?_⟩
    have hiff (e' : ScopeId) : h.Nearest n e' s b ↔ h.Unshadowed n e' s :=
      ⟨fun hnear' => hnear'.unshadowed, fun hs => ⟨hs, hnear.bound⟩⟩
    simp only [hiff]
    exact hrebinds.sees hfounded
  · exact assign_constant (hfounded.resolve?_eq_some_iff.2 hnear) hb
  · refine assign_unknown (Option.eq_none_iff_forall_ne_some.2 ?_)
    rintro ⟨s, b⟩ hr
    exact hnone s b (hfounded.resolve?_eq_some_iff.1 hr)
  · exact define_eq_refused_iff he c
  · have hrebinds := rebinds_define (v := v) he hnew c
    have hvalue : (h.define e n v c).1 = v := by
      rcases define_cases h e n v c with ⟨hsome, -⟩ | ⟨-, hvalue, -⟩
      · rw [hnew] at hsome
        cases hsome
      · exact hvalue
    exact ⟨hvalue, hrebinds, hrebinds.sees hfounded⟩

theorem founded_of_older (holder : ∀ i < h.scopes.size, ∀ o ∈ h.outer? i, o < i) : h.Founded := by
  refine Subrelation.wf (fun {o i} ho => ?_) Nat.lt_wfRel.wf
  exact holder i (lt_size_of_outer? ho) o ho

/-- The root has a constant `x`, and the variable `x` of a scope in it hides that from two scopes inside.  What
    one of them assigns the other sees, and what one declares the other does not.  A scope beside them sees the
    constant, and cannot assign to it. -/
theorem bindings_change_exactly_siblings :
    let root : Scope := ⟨none, [("x", ⟨.int 0, true⟩)]⟩
    let middle : Scope := ⟨some 0, [("x", ⟨.int 1, false⟩)]⟩
    let h : Heap := ⟨#[root, middle, ⟨some 1, []⟩, ⟨some 1, []⟩, ⟨some 0, []⟩], 0⟩
    h.Founded ∧ h.Nearest "x" 2 1 ⟨.int 1, false⟩ ∧ h.Nearest "x" 4 0 ⟨.int 0, true⟩ ∧
    ((h.assign 2 "x" (.int 5)).2.get? 3 "x" = some (.int 5) ∧
      (h.assign 2 "x" (.int 5)).2.get? 4 "x" = some (.int 0)) ∧
    h.assign 4 "x" (.int 5) = (.error (.constantTarget "x"), h) ∧
    (h.define 2 "x" (.int 7) true).2.get? 2 "x" = some (.int 7) ∧
    (h.define 2 "x" (.int 7) true).2.get? 3 "x" = some (.int 1) := by
  intro root middle h
  have hfounded : h.Founded := founded_of_older (by decide)
  have hnear : h.Nearest "x" 2 1 ⟨.int 1, false⟩ := ⟨.outward rfl rfl .here, rfl⟩
  have hsibling : h.Nearest "x" 3 1 ⟨.int 1, false⟩ := ⟨.outward rfl rfl .here, rfl⟩
  have hbeside : h.Nearest "x" 4 0 ⟨.int 0, true⟩ := ⟨.outward rfl rfl .here, rfl⟩
  have hapart : ¬ h.Nearest "x" 4 1 ⟨.int 1, false⟩ := by
    intro hnear'
    have hr := (hfounded.resolve?_eq_some_iff.2 hnear').symm.trans (hfounded.resolve?_eq_some_iff.2 hbeside)
    cases hr
  have hhidden : ¬ h.Unshadowed "x" 3 2 := by
    intro hs
    cases hs with
    | outward _ ho hs =>
      cases ho
      cases hs.eq_of_bound hnear.bound
  obtain ⟨hassign, -⟩ := bindings_change_exactly hfounded 2 "x" (.int 5)
  obtain ⟨-, -, hassigned⟩ := hassign 1 _ hnear rfl
  obtain ⟨-, -, -, hdefine⟩ := bindings_change_exactly hfounded 2 "x" (.int 7)
  obtain ⟨-, -, hdeclared⟩ := (hdefine (by decide) true).2 rfl
  refine ⟨hfounded, hnear, hbeside, ⟨(hassigned 3 "x").1 ⟨rfl, hsibling⟩, ?_⟩, ?_, ?_, ?_⟩
  · rw [(hassigned 4 "x").2 fun hs => hapart hs.2]
    rfl
  · exact (bindings_change_exactly hfounded 4 "x" (.int 5)).2.1 0 _ hbeside rfl
  · exact (hdeclared 2 "x").1 ⟨rfl, .here⟩
  · rw [(hdeclared 3 "x").2 fun hs => hhidden hs.2]
    rfl

end ScriptLang.Heap
