import ScriptLang.Proofs.Eval.Invariant
import ScriptLang.Proofs.Eval.Keeping

/-!
  Programs without loops end.

  Such a program can still call functions that call each other, or hand functions around, without end.
  But calls inside each other are limited, and the body of each call is gone through once.  All bodies
  that there are come from the program or were there at the start, so there is a highest one.  The levels
  that an evaluation goes down are then bounded: by the height of the program, and by one body more for
  each call.
-/

namespace ScriptLang

/-- Trees up to the height `top`, with calls up to the limit: each call takes the height of a body. -/
def Budget.upTo (limit top : Nat) : Budget where
  Enough fuel depth height := height ≤ top ∧ height + (limit - depth) * (top + 1) ≤ fuel
  Short height := height ≤ top
  Calls depth := depth < limit
  short h := h.1
  short_of_le h hle := Nat.le_trans hle h
  part {fuel depth height height'} h hlt := by
    obtain ⟨htop, hfuel⟩ := h
    constructor
    · omega
    · omega
  body {fuel depth height} h hcalls hshort := by
    have hfuel := h.2
    -- one call less may follow, and what that leaves pays for this body
    have hnext : limit - depth = limit - (depth + 1) + 1 := by omega
    rw [hnext, Nat.add_mul, Nat.one_mul] at hfuel
    constructor
    · exact hshort
    · omega

theorem Budget.not_enough_zero {limit top depth height : Nat} : ¬ (upTo limit top).Enough 0 depth (height + 1) := by
  intro h
  have hfuel := h.2
  omega

/-! ## The highest body -/

theorem exists_top (bindings : List (String × Binding)) :
    ∃ top, ∀ q ∈ bindings, ∀ f ∈ q.2.value.closure?, f.body.height ≤ top := by
  induction bindings with
  | nil => exact ⟨0, nofun⟩
  | cons q bindings ih =>
    obtain ⟨top, htop⟩ := ih
    obtain ⟨height, hheight⟩ : ∃ height, ∀ f ∈ q.2.value.closure?, f.body.height ≤ height := by
      cases q.2.value.closure? with
      | none => exact ⟨0, nofun⟩
      | some g =>
        refine ⟨g.body.height, ?_⟩
        rintro _ ⟨⟩
        exact Nat.le_refl _
    refine ⟨max height top, List.forall_mem_cons.2 ⟨fun f hf => ?_, fun q hq f hf => ?_⟩⟩
    · exact Nat.le_trans (hheight f hf) (Nat.le_max_left _ _)
    · exact Nat.le_trans (htop q hq f hf) (Nat.le_max_right _ _)

/-- A heap holds finitely many functions. -/
theorem Heap.exists_top (h : Heap) :
    ∃ top, ∀ id name b, h.binding? id name = some b → ∀ f ∈ b.value.closure?, f.body.height ≤ top := by
  obtain ⟨top, htop⟩ := ScriptLang.exists_top (h.scopes.toList.flatMap (·.bindings))
  refine ⟨top, fun id name b hb => htop (name, b) ?_⟩
  obtain ⟨s, hs, hfind⟩ := binding?_eq_some.1 hb
  have hmem : s ∈ h.scopes.toList := Array.mem_toList_iff.2 (Array.mem_of_getElem? hs)
  obtain ⟨before, after, hsplit, -⟩ := List.lookup_eq_some_iff.1 hfind
  refine List.mem_flatMap.2 ⟨s, hmem, ?_⟩
  rw [hsplit]
  exact List.mem_append_right _ List.mem_cons_self

/-! ## Ends -/

/-- The bound on steps does for a program whose trees, and all the bodies that it can reach, have at most
    the height `top`. -/
theorem loopFree_not_cut {settings : Settings} {fuel top : Nat} {scope : ScopeId} {p : Program} {m : Machine}
    (hp : p.Within .withoutLoops)
    (hreach : ∀ id name b, m.heap.Reaches (· = scope) id → m.heap.binding? id name = some b →
      b.value.Within .withoutLoops)
    (hstatements : ∀ s ∈ p.statements, s.height ≤ top)
    (hbodies : ∀ id name b, m.heap.Reaches (· = scope) id → m.heap.binding? id name = some b →
      ∀ f ∈ b.value.closure?, f.body.height ≤ top)
    (hfuel : top + settings.callLimit * (top + 1) ≤ fuel) :
    (m.step (runProgram settings fuel scope p)).1 ≠ .error .outOfFuel := by
  let S := Start.reaching m.heap scope .withoutLoops (.upTo settings.callLimit top)
  have hkeeps : S.Keeps m.heap := Start.keeps_reaching hreach hbodies
  have henough (s : Stmt) (hs : s ∈ p.statements) : (Budget.upTo settings.callLimit top).Enough fuel 0 s.height := by
    have hheight := hstatements s hs
    refine ⟨hheight, ?_⟩
    rw [Nat.sub_zero]
    omega
  have hrun : S.KeptRun settings fuel scope p m := Start.runProgram_keeps (fun _ h => h) hp henough hkeeps
  intro hcut
  rcases hrun.halt .outOfFuel hcut with hloops | ⟨depth, height, hzero⟩
  · cases hloops
  · exact Budget.not_enough_zero hzero

/-- A program without loops, in a scope from which only functions without loops can be reached, is run to
    its end: to a value, which may be an error, or to a fault. -/
theorem loopFree_terminates (settings : Settings) {scope : ScopeId} {p : Program} {m : Machine}
    (hp : p.Within .withoutLoops)
    (hreach : ∀ id name b, m.heap.Reaches (· = scope) id → m.heap.binding? id name = some b →
      b.value.Within .withoutLoops) :
    ∃ r, EndsAs (fun fuel => runProgram settings fuel scope p) m r := by
  obtain ⟨top, htop⟩ := m.heap.exists_top
  -- a function that is made in the run has its body from the program
  let top' := max top (stmtsHeight p.statements)
  have hstatements (s : Stmt) (hs : s ∈ p.statements) : s.height ≤ top' :=
    Nat.le_trans (height_le_stmtsHeight hs) (Nat.le_max_right _ _)
  have hbodies (id : ScopeId) (name : String) (b : Binding) (_ : m.heap.Reaches (· = scope) id)
      (hb : m.heap.binding? id name = some b) (f : Closure) (hf : f ∈ b.value.closure?) : f.body.height ≤ top' :=
    Nat.le_trans (htop id name b hb f hf) (Nat.le_max_left _ _)
  exact ⟨_, program_endsAs (loopFree_not_cut hp hreach hstatements hbodies (Nat.le_refl _))⟩

/-- `fn f(g: any, n: int): int { return g(g, n + 1) + f(g, n); } f(f, 0);` calls itself without end, also
    through its argument. -/
theorem loopFree_terminates_endless :
    let t : Token := ⟨.ident, "", 1, 1⟩
    let name (x : String) : Name := ⟨t, x⟩
    let ref (x : String) : Expr := .name (name x)
    let next : Expr := .binary t (ref "n") "+" (.int t 1)
    let calls : Expr := .binary t (.call t (ref "g") [ref "g", next]) "+" (.call t (ref "f") [ref "g", ref "n"])
    let parameters : List Parameter := [⟨t, name "g", ⟨t, "any"⟩⟩, ⟨t, name "n", ⟨t, "int"⟩⟩]
    let p : Program := ⟨t, [.function t (name "f") parameters ⟨t, "int"⟩ (.mk t [.ret t (some calls)]),
      .expr t (.call t (ref "f") [ref "f", .int t 0])]⟩
    p.Within .withoutLoops ∧
    (∀ id name b, Machine.fresh.heap.Reaches (· = 0) id → Machine.fresh.heap.binding? id name = some b →
      b.value.Within .withoutLoops) ∧
    ∃ r, EndsAs (fun fuel => runProgram {} fuel 0 p) .fresh r := by
  intro t name ref next calls parameters p
  have hparameters : ∀ q ∈ parameters, q.Within .withoutLoops := fun _ _ _ => rfl
  have hcalls : calls.Within .withoutLoops :=
    ⟨⟨trivial, trivial, ⟨trivial, trivial⟩, trivial⟩, ⟨trivial, trivial, trivial, trivial⟩⟩
  have hp : p.Within .withoutLoops :=
    ⟨⟨hparameters, hcalls, trivial⟩, ⟨trivial, trivial, trivial, trivial⟩, trivial⟩
  exact ⟨hp, fresh_within .withoutLoops, loopFree_terminates {} hp (fresh_within .withoutLoops)⟩

end ScriptLang
