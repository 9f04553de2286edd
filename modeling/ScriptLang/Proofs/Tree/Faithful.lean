import Mathlib.Data.List.Forall2
import ScriptLang.Tree.Item

/-!
  Descriptions of trees lose nothing but the spelling of the tokens.

  Documents are compared as JSON: lists item by item, objects key by key, whatever the order of their
  members.  Two descriptions are then the same exactly if the trees are, node for node and field for field
  with all their positions.  Only the kinds and the literals of the tokens are not compared.

  Each node is described by an object with the name of its form and its position in front of its parts.  The
  keys of such an object are distinct, so that none of them hides another; nodes of different forms differ in
  the name, and nodes of one form have the same keys.
-/

namespace ScriptLang

/-! ## The same documents -/

namespace Json

/-- How booleans and numbers are compared.  Two integers are the same if they are equal, and so are two
    booleans.  Nothing is said of two floats or of two scalars of different kinds: the comparison may be exact,
    and it may take `0.0` for `-0.0` and `1` for `1.0`. -/
structure ScalarEquality where
  same : Json → Json → Prop
  int_iff (m n : Int) : same (int m) (int n) ↔ m = n
  bool_iff (p q : Bool) : same (bool p) (bool q) ↔ p = q

/-- Scalars that are written alike. -/
def ScalarEquality.exact : ScalarEquality where
  same := Eq
  int_iff m n := by simp
  bool_iff p q := by simp

/-- The integer that a scalar other than a float stands for. -/
def integer? : Json → Option Int
  | bool p => some p.toNat
  | int n => some n
  | _ => none

def SameNumber : Json → Json → Prop
  | float x, float y => x == y
  | float x, j | j, float x => ∃ n ∈ j.integer?, Number.equalsInteger x n
  | j, k => ∃ n ∈ j.integer?, n ∈ k.integer?

/-- Scalars that stand for the same number, `true` for one and `false` for zero. -/
def ScalarEquality.numeric : ScalarEquality where
  same := SameNumber
  int_iff m n := by simp [SameNumber, integer?, eq_comm]
  bool_iff p q := by cases p <;> cases q <;> simp [SameNumber, integer?]

def IsScalar : Json → Prop
  | bool _ | int _ | float _ => True
  | null | str _ | arr _ | obj _ => False

/-- Documents that are the same as JSON. -/
inductive Same (E : ScalarEquality) : Json → Json → Prop
  | null : Same E null null
  | str (s : String) : Same E (str s) (str s)
  | scalar {j k : Json} : j.IsScalar → k.IsScalar → E.same j k → Same E j k
  | arr {js ks : List Json} : List.Forall₂ (Same E) js ks → Same E (arr js) (arr ks)
  | obj {ms ns : List (String × Json)} :
      (∀ key, Option.Rel (Same E) (ms.lookup key) (ns.lookup key)) → Same E (obj ms) (obj ns)

/-- No object of the document has a key twice. -/
inductive Proper : Json → Prop
  | null : Proper null
  | bool (p : Bool) : Proper (bool p)
  | int (n : Int) : Proper (int n)
  | float (x : Float) : Proper (float x)
  | str (s : String) : Proper (str s)
  | arr {js : List Json} : (∀ j ∈ js, Proper j) → Proper (arr js)
  | obj {ms : List (String × Json)} :
      (ms.map Prod.fst).Nodup → (∀ m ∈ ms, Proper m.2) → Proper (obj ms)

variable {E : ScalarEquality}

@[simp] theorem same_null : null.Same E null := .null

@[simp] theorem same_str_iff {s t : String} : (str s).Same E (str t) ↔ s = t := by
  refine ⟨fun h => ?_, fun h => h ▸ .str s⟩
  cases h with
  | str => rfl
  | scalar hs => exact hs.elim

@[simp] theorem same_int_iff {m n : Int} : (int m).Same E (int n) ↔ m = n := by
  rw [← E.int_iff]
  refine ⟨fun h => ?_, .scalar trivial trivial⟩
  cases h with
  | scalar _ _ h => exact h

@[simp] theorem same_float_iff {x y : Float} : (float x).Same E (float y) ↔ E.same (float x) (float y) := by
  refine ⟨fun h => ?_, .scalar trivial trivial⟩
  cases h with
  | scalar _ _ h => exact h

@[simp] theorem same_bool_iff {p q : Bool} : (bool p).Same E (bool q) ↔ p = q := by
  rw [← E.bool_iff]
  refine ⟨fun h => ?_, .scalar trivial trivial⟩
  cases h with
  | scalar _ _ h => exact h

@[simp] theorem same_arr_iff {js ks : List Json} : (arr js).Same E (arr ks) ↔ List.Forall₂ (Same E) js ks := by
  refine ⟨fun h => ?_, .arr⟩
  cases h with
  | arr h => exact h
  | scalar hs => exact hs.elim

theorem same_obj_iff {ms ns : List (String × Json)} :
    (obj ms).Same E (obj ns) ↔ ∀ key, Option.Rel (Same E) (ms.lookup key) (ns.lookup key) := by
  refine ⟨fun h => ?_, .obj⟩
  cases h with
  | obj h => exact h
  | scalar hs => exact hs.elim

theorem lookup_eq_none {ms : List (String × Json)} {key : String} (h : key ∉ ms.map Prod.fst) :
    ms.lookup key = none :=
  List.lookup_eq_none_iff.2 fun _ hm => bne_iff_ne.2 fun heq => h (heq ▸ List.mem_map_of_mem hm)

/-- Objects with the same keys in the same order are compared member by member. -/
theorem same_obj_iff_forall {ms ns : List (String × Json)} (hkeys : ms.map Prod.fst = ns.map Prod.fst)
    (hdistinct : (ms.map Prod.fst).Nodup) :
    (obj ms).Same E (obj ns) ↔ List.Forall₂ (fun m n => m.2.Same E n.2) ms ns := by
  rw [same_obj_iff]
  induction ms generalizing ns with
  | nil =>
    cases ns with
    | nil => simp
    | cons n ns => cases hkeys
  | cons m ms ih =>
    obtain ⟨key, j⟩ := m
    cases ns with
    | nil => cases hkeys
    | cons n ns =>
      obtain ⟨key', k⟩ := n
      obtain ⟨rfl, hrest⟩ := List.cons.inj hkeys
      obtain ⟨hnew, hdistinct⟩ := List.nodup_cons.1 hdistinct
      rw [List.forall₂_cons, ← ih hrest hdistinct]
      constructor
      · intro h
        refine ⟨by simpa [List.lookup_cons] using h key, fun other => ?_⟩
        by_cases hother : other = key
        · subst hother
          rw [lookup_eq_none hnew, lookup_eq_none (hrest ▸ hnew)]
          exact .none
        · simpa [List.lookup_cons, beq_false_of_ne hother] using h other
      · rintro ⟨hfirst, h⟩ other
        by_cases hother : other = key
        · subst hother
          simpa [List.lookup_cons] using hfirst
        · simpa [List.lookup_cons, beq_false_of_ne hother] using h other

end Json

/-! ## The same trees -/

/-- Tokens at the same line and column, whatever their kinds and literals. -/
def Token.SamePlace (t u : Token) : Prop := t.line = u.line ∧ t.column = u.column

def Name.Same (m n : Name) : Prop := m.token.SamePlace n.token ∧ m.text = n.text

def TypeName.Same (t u : TypeName) : Prop := t.token.SamePlace u.token ∧ t.name = u.name

def Parameter.Same (p q : Parameter) : Prop :=
  p.token.SamePlace q.token ∧ p.name.Same q.name ∧ p.declared.Same q.declared

mutual

/-- Expressions of the same form at the same place, with the same fields. -/
def Expr.Same (E : Json.ScalarEquality) : Expr → Expr → Prop
  | .name m, .name n => m.Same n
  | .int t m, .int u n => t.SamePlace u ∧ m = n
  | .float t x, .float u y => t.SamePlace u ∧ E.same (.float x) (.float y)
  | .str t s, .str u s' => t.SamePlace u ∧ s = s'
  | .bool t p, .bool u q => t.SamePlace u ∧ p = q
  | .before t op e, .before u op' e' => t.SamePlace u ∧ op = op' ∧ e.Same E e'
  | .after t e op, .after u e' op' => t.SamePlace u ∧ e.Same E e' ∧ op = op'
  | .binary t l op r, .binary u l' op' r' => t.SamePlace u ∧ l.Same E l' ∧ op = op' ∧ r.Same E r'
  | .choice t test e e₂, .choice u test' e' e₂' =>
    t.SamePlace u ∧ test.Same E test' ∧ e.Same E e' ∧ e₂.Same E e₂'
  | .assign t target e, .assign u target' e' => t.SamePlace u ∧ target.Same target' ∧ e.Same E e'
  | .call t callee es, .call u callee' es' => t.SamePlace u ∧ callee.Same E callee' ∧ sameExprs E es es'
  | .function t ps returns body, .function u ps' returns' body' =>
    t.SamePlace u ∧ List.Forall₂ Parameter.Same ps ps' ∧ returns.Same returns' ∧ body.Same E body'
  | _, _ => False
termination_by structural a => a

/-- As many expressions, each the same. -/
def sameExprs (E : Json.ScalarEquality) : List Expr → List Expr → Prop
  | [], [] => True
  | e :: es, e' :: es' => e.Same E e' ∧ sameExprs E es es'
  | _, _ => False
termination_by structural a => a

/-- Both absent, or both there and the same. -/
def sameExpr? (E : Json.ScalarEquality) : Option Expr → Option Expr → Prop
  | none, none => True
  | some e, some e' => e.Same E e'
  | _, _ => False
termination_by structural a => a

def Block.Same (E : Json.ScalarEquality) : Block → Block → Prop
  | .mk t ss, .mk u ss' => t.SamePlace u ∧ sameStmts E ss ss'
termination_by structural a => a

/-- Statements of the same form at the same place, with the same fields. -/
def Stmt.Same (E : Json.ScalarEquality) : Stmt → Stmt → Prop
  | .var t n declared e, .var u n' declared' e' =>
    t.SamePlace u ∧ n.Same n' ∧ Option.Rel TypeName.Same declared declared' ∧ sameExpr? E e e'
  | .const t n declared e, .const u n' declared' e' =>
    t.SamePlace u ∧ n.Same n' ∧ Option.Rel TypeName.Same declared declared' ∧ e.Same E e'
  | .ret t e, .ret u e' => t.SamePlace u ∧ sameExpr? E e e'
  | .expr t e, .expr u e' => t.SamePlace u ∧ e.Same E e'
  | .block b, .block b' => b.Same E b'
  | .branch t test b s, .branch u test' b' s' =>
    t.SamePlace u ∧ test.Same E test' ∧ b.Same E b' ∧ sameStmt? E s s'
  | .forLoop t init test update b, .forLoop u init' test' update' b' =>
    t.SamePlace u ∧ sameStmt? E init init' ∧ sameExpr? E test test' ∧ sameExpr? E update update' ∧ b.Same E b'
  | .whileLoop t test b, .whileLoop u test' b' => t.SamePlace u ∧ test.Same E test' ∧ b.Same E b'
  | .doLoop t b test, .doLoop u b' test' => t.SamePlace u ∧ b.Same E b' ∧ test.Same E test'
  | .function t n ps returns body, .function u n' ps' returns' body' =>
    t.SamePlace u ∧ n.Same n' ∧ List.Forall₂ Parameter.Same ps ps' ∧ returns.Same returns' ∧ body.Same E body'
  | .display t es, .display u es' => t.SamePlace u ∧ sameExprs E es es'
  | _, _ => False
termination_by structural a => a

def sameStmts (E : Json.ScalarEquality) : List Stmt → List Stmt → Prop
  | [], [] => True
  | s :: ss, s' :: ss' => s.Same E s' ∧ sameStmts E ss ss'
  | _, _ => False
termination_by structural a => a

def sameStmt? (E : Json.ScalarEquality) : Option Stmt → Option Stmt → Prop
  | none, none => True
  | some s, some s' => s.Same E s'
  | _, _ => False
termination_by structural a => a

end

/-- Nodes of the same form at the same place, with the same fields. -/
def Node.Same (E : Json.ScalarEquality) : Node → Node → Prop
  | .program p, .program q => p.token.SamePlace q.token ∧ sameStmts E p.statements q.statements
  | .stmt s, .stmt s' => s.Same E s'
  | .expr e, .expr e' => e.Same E e'
  | .typeName t, .typeName u => t.Same u
  | .parameter p, .parameter q => p.Same q
  | _, _ => False

/-! ## Descriptions of nodes -/

section Nodes

variable {E : Json.ScalarEquality} {kind kind' : String} {t u : Token} {ps qs : List (String × Json)}

theorem describeNode_proper (hdistinct : ("node" :: "line" :: "column" :: ps.map Prod.fst).Nodup)
    (h : ∀ p ∈ ps, p.2.Proper) : (describeNode kind t ps).Proper := by
  refine .obj hdistinct fun m hm => ?_
  simp only [List.mem_cons] at hm
  rcases hm with rfl | rfl | rfl | hm
  · exact .str kind
  · exact .int _
  · exact .int _
  · exact h m hm

/-- Nodes of one form have the same description if they stand at the same place and their parts are the same. -/
@[simp] theorem describeNode_same_iff (hkeys : ps.map Prod.fst = qs.map Prod.fst)
    (hdistinct : ("node" :: "line" :: "column" :: ps.map Prod.fst).Nodup) :
    (describeNode kind t ps).Same E (describeNode kind u qs) ↔
      t.SamePlace u ∧ List.Forall₂ (fun p q => p.2.Same E q.2) ps qs := by
  have hmembers : (describeNode kind t ps).Same E (describeNode kind u qs) ↔ List.Forall₂ _ _ _ :=
    Json.same_obj_iff_forall (congrArg (["node", "line", "column"] ++ ·) hkeys) hdistinct
  rw [hmembers]
  simp only [List.forall₂_cons, Json.same_str_iff, Json.same_int_iff, Int.ofNat_inj, Token.SamePlace, true_and,
    and_assoc]

/-- Nodes of different forms have different descriptions. -/
theorem describeNode_not_same (hkind : kind ≠ kind') :
    ¬ (describeNode kind t ps).Same E (describeNode kind' u qs) := by
  intro h
  have hnode := Json.same_obj_iff.1 h "node"
  exact hkind (by simpa [List.lookup_cons] using hnode)

/-- A part that is there is not described as an absent one. -/
theorem describeNode_not_null :
    ¬ (describeNode kind t ps).Same E .null ∧ ¬ Json.null.Same E (describeNode kind t ps) := by
  constructor <;> rintro (_ | _ | ⟨hleft, hright⟩)
  · exact hleft
  · exact hright

end Nodes

/-! ## Descriptions of trees -/

section Trees

variable {E : Json.ScalarEquality}

@[simp] theorem Name.describe_same_iff (m n : Name) : m.describe.Same E n.describe ↔ m.Same n := by
  simp [Name.describe, Name.Same]

@[simp] theorem TypeName.describe_same_iff (t u : TypeName) : t.describe.Same E u.describe ↔ t.Same u := by
  simp [TypeName.describe, TypeName.Same]

@[simp] theorem Parameter.describe_same_iff (p q : Parameter) : p.describe.Same E q.describe ↔ p.Same q := by
  simp [Parameter.describe, Parameter.Same]

@[simp] theorem describeParameters_same_iff (ps qs : List Parameter) :
    List.Forall₂ (Json.Same E) (ps.map Parameter.describe) (qs.map Parameter.describe) ↔
      List.Forall₂ Parameter.Same ps qs := by
  rw [List.forall₂_map_left_iff, List.forall₂_map_right_iff]
  simp only [Parameter.describe_same_iff]

@[simp] theorem describeDeclared_same_iff (t u : Option TypeName) :
    (describeDeclared t).Same E (describeDeclared u) ↔ Option.Rel TypeName.Same t u := by
  cases t with
  | none =>
    cases u with
    | none => simp [describeDeclared]
    | some u => exact iff_of_false describeNode_not_null.2 nofun
  | some t =>
    cases u with
    | none => exact iff_of_false describeNode_not_null.1 nofun
    | some u => simp [describeDeclared]

theorem Expr.describe_eq (e : Expr) : ∃ parts, e.describe = describeNode e.kindName e.token parts := by
  cases e <;> exact ⟨_, rfl⟩

theorem Stmt.describe_eq (s : Stmt) : ∃ parts, s.describe = describeNode s.kindName s.token parts := by
  cases s with
  | block b => cases b with | mk t ss => exact ⟨_, rfl⟩
  | _ => exact ⟨_, rfl⟩

theorem Node.describe_eq (n : Node) : ∃ t parts, n.describe = describeNode n.kindName t parts := by
  cases n with
  | stmt s => exact ⟨_, s.describe_eq⟩
  | expr e => exact ⟨_, e.describe_eq⟩
  | _ => exact ⟨_, _, rfl⟩

theorem Node.describe_not_same (a b : Node) (hkind : decide (a.kindName = b.kindName) = false) :
    ¬ a.describe.Same E b.describe := by
  obtain ⟨t, ps, ha⟩ := a.describe_eq
  obtain ⟨u, qs, hb⟩ := b.describe_eq
  rw [ha, hb]
  exact describeNode_not_same (of_decide_eq_false hkind)

theorem Expr.describe_not_same {a b : Expr} (hkind : decide (a.kindName = b.kindName) = false) :
    ¬ a.describe.Same E b.describe := Node.describe_not_same (.expr a) (.expr b) hkind

theorem Stmt.describe_not_same {a b : Stmt} (hkind : decide (a.kindName = b.kindName) = false) :
    ¬ a.describe.Same E b.describe := Node.describe_not_same (.stmt a) (.stmt b) hkind

mutual

theorem Expr.describe_same_iff : (a b : Expr) → (a.describe.Same E b.describe ↔ a.Same E b)
  | .name m, b => by
    cases b with
    | name n => exact m.describe_same_iff n
    | _ => exact iff_of_false (Expr.describe_not_same rfl) id
  | .int t m, b => by
    cases b with
    | int u n => simp [Expr.describe, Expr.Same]
    | _ => exact iff_of_false (Expr.describe_not_same rfl) id
  | .float t x, b => by
    cases b with
    | float u y => simp [Expr.describe, Expr.Same]
    | _ => exact iff_of_false (Expr.describe_not_same rfl) id
  | .str t s, b => by
    cases b with
    | str u s' => simp [Expr.describe, Expr.Same]
    | _ => exact iff_of_false (Expr.describe_not_same rfl) id
  | .bool t p, b => by
    cases b with
    | bool u q => simp [Expr.describe, Expr.Same]
    | _ => exact iff_of_false (Expr.describe_not_same rfl) id
  | .before t op e, b => by
    cases b with
    | before u op' e' => simp [Expr.describe, Expr.Same, e.describe_same_iff e']
    | _ => exact iff_of_false (Expr.describe_not_same rfl) id
  | .after t e op, b => by
    cases b with
    | after u e' op' => simp [Expr.describe, Expr.Same, e.describe_same_iff e']
    | _ => exact iff_of_false (Expr.describe_not_same rfl) id
  | .binary t l op r, b => by
    cases b with
    | binary u l' op' r' =>
      simp [Expr.describe, Expr.Same, l.describe_same_iff l', r.describe_same_iff r']
    | _ => exact iff_of_false (Expr.describe_not_same rfl) id
  | .choice t test e e₂, b => by
    cases b with
    | choice u test' e' e₂' =>
      simp [Expr.describe, Expr.Same, test.describe_same_iff test', e.describe_same_iff e',
        e₂.describe_same_iff e₂']
    | _ => exact iff_of_false (Expr.describe_not_same rfl) id
  | .assign t target e, b => by
    cases b with
    | assign u target' e' => simp [Expr.describe, Expr.Same, e.describe_same_iff e']
    | _ => exact iff_of_false (Expr.describe_not_same rfl) id
  | .call t callee es, b => by
    cases b with
    | call u callee' es' =>
      simp [Expr.describe, Expr.Same, callee.describe_same_iff callee', describeExprs_same_iff es es']
    | _ => exact iff_of_false (Expr.describe_not_same rfl) id
  | .function t ps returns body, b => by
    cases b with
    | function u ps' returns' body' => simp [Expr.describe, Expr.Same, body.describe_same_iff body']
    | _ => exact iff_of_false (Expr.describe_not_same rfl) id

theorem describeExprs_same_iff : (es es' : List Expr) →
    (List.Forall₂ (Json.Same E) (describeExprs es) (describeExprs es') ↔ sameExprs E es es')
  | [], [] => by simp [describeExprs, sameExprs]
  | [], _ :: _ | _ :: _, [] => iff_of_false nofun id
  | e :: es, e' :: es' => by
    simp [describeExprs, sameExprs, e.describe_same_iff e', describeExprs_same_iff es es']

theorem describeExpr?_same_iff : (e e' : Option Expr) →
    ((describeExpr? e).Same E (describeExpr? e') ↔ sameExpr? E e e')
  | none, none => by simp [describeExpr?, sameExpr?]
  | none, some e => by
    obtain ⟨parts, he⟩ := e.describe_eq
    rw [describeExpr?, describeExpr?, he]
    exact iff_of_false describeNode_not_null.2 id
  | some e, none => by
    obtain ⟨parts, he⟩ := e.describe_eq
    rw [describeExpr?, describeExpr?, he]
    exact iff_of_false describeNode_not_null.1 id
  | some e, some e' => by simpa [describeExpr?, sameExpr?] using e.describe_same_iff e'

theorem Block.describe_same_iff : (b b' : Block) → (b.describe.Same E b'.describe ↔ b.Same E b')
  | .mk t ss, .mk u ss' => by
    simp [Block.describe, Block.Same, describeStmts_same_iff ss ss']

theorem Stmt.describe_same_iff : (a b : Stmt) → (a.describe.Same E b.describe ↔ a.Same E b)
  | .var t n declared e, b => by
    cases b with
    | var u n' declared' e' => simp [Stmt.describe, Stmt.Same, describeExpr?_same_iff e e']
    | _ => exact iff_of_false (Stmt.describe_not_same rfl) id
  | .const t n declared e, b => by
    cases b with
    | const u n' declared' e' => simp [Stmt.describe, Stmt.Same, e.describe_same_iff e']
    | _ => exact iff_of_false (Stmt.describe_not_same rfl) id
  | .ret t e, b => by
    cases b with
    | ret u e' => simp [Stmt.describe, Stmt.Same, describeExpr?_same_iff e e']
    | _ => exact iff_of_false (Stmt.describe_not_same rfl) id
  | .expr t e, b => by
    cases b with
    | expr u e' => simp [Stmt.describe, Stmt.Same, e.describe_same_iff e']
    | _ => exact iff_of_false (Stmt.describe_not_same rfl) id
  | .block b, c => by
    cases c with
    | block b' => simpa [Stmt.describe, Stmt.Same] using b.describe_same_iff b'
    | _ => exact iff_of_false (Stmt.describe_not_same rfl) id
  | .branch t test b s, c => by
    cases c with
    | branch u test' b' s' =>
      simp [Stmt.describe, Stmt.Same, test.describe_same_iff test', b.describe_same_iff b',
        describeStmt?_same_iff s s']
    | _ => exact iff_of_false (Stmt.describe_not_same rfl) id
  | .forLoop t init test update body, b => by
    cases b with
    | forLoop u init' test' update' body' =>
      simp [Stmt.describe, Stmt.Same, describeStmt?_same_iff init init', describeExpr?_same_iff test test',
        describeExpr?_same_iff update update', body.describe_same_iff body']
    | _ => exact iff_of_false (Stmt.describe_not_same rfl) id
  | .whileLoop t test body, b => by
    cases b with
    | whileLoop u test' body' =>
      simp [Stmt.describe, Stmt.Same, test.describe_same_iff test', body.describe_same_iff body']
    | _ => exact iff_of_false (Stmt.describe_not_same rfl) id
  | .doLoop t body test, b => by
    cases b with
    | doLoop u body' test' =>
      simp [Stmt.describe, Stmt.Same, body.describe_same_iff body', test.describe_same_iff test']
    | _ => exact iff_of_false (Stmt.describe_not_same rfl) id
  | .function t n ps returns body, b => by
    cases b with
    | function u n' ps' returns' body' => simp [Stmt.describe, Stmt.Same, body.describe_same_iff body']
    | _ => exact iff_of_false (Stmt.describe_not_same rfl) id
  | .display t es, b => by
    cases b with
    | display u es' => simp [Stmt.describe, Stmt.Same, describeExprs_same_iff es es']
    | _ => exact iff_of_false (Stmt.describe_not_same rfl) id

theorem describeStmts_same_iff : (ss ss' : List Stmt) →
    (List.Forall₂ (Json.Same E) (describeStmts ss) (describeStmts ss') ↔ sameStmts E ss ss')
  | [], [] => by simp [describeStmts, sameStmts]
  | [], _ :: _ | _ :: _, [] => iff_of_false nofun id
  | s :: ss, s' :: ss' => by
    simp [describeStmts, sameStmts, s.describe_same_iff s', describeStmts_same_iff ss ss']

theorem describeStmt?_same_iff : (s s' : Option Stmt) →
    ((describeStmt? s).Same E (describeStmt? s') ↔ sameStmt? E s s')
  | none, none => by simp [describeStmt?, sameStmt?]
  | none, some s => by
    obtain ⟨parts, hs⟩ := s.describe_eq
    rw [describeStmt?, describeStmt?, hs]
    exact iff_of_false describeNode_not_null.2 id
  | some s, none => by
    obtain ⟨parts, hs⟩ := s.describe_eq
    rw [describeStmt?, describeStmt?, hs]
    exact iff_of_false describeNode_not_null.1 id
  | some s, some s' => by simpa [describeStmt?, sameStmt?] using s.describe_same_iff s'

end

theorem Program.describe_same_iff (p q : Program) :
    p.describe.Same E q.describe ↔ p.token.SamePlace q.token ∧ sameStmts E p.statements q.statements := by
  simp [Program.describe, describeStmts_same_iff p.statements q.statements]

theorem Node.describe_same_iff (a b : Node) : a.describe.Same E b.describe ↔ a.Same E b := by
  cases a with
  | program p =>
    cases b with
    | program q => exact p.describe_same_iff q
    | stmt s => exact iff_of_false (Node.describe_not_same _ _ (by cases s <;> rfl)) id
    | expr e => exact iff_of_false (Node.describe_not_same _ _ (by cases e <;> rfl)) id
    | _ => exact iff_of_false (Node.describe_not_same _ _ rfl) id
  | stmt s =>
    cases b with
    | stmt s' => exact s.describe_same_iff s'
    | expr e => exact iff_of_false (Node.describe_not_same _ _ (by cases s <;> cases e <;> rfl)) id
    | _ => exact iff_of_false (Node.describe_not_same _ _ (by cases s <;> rfl)) id
  | expr e =>
    cases b with
    | stmt s => exact iff_of_false (Node.describe_not_same _ _ (by cases s <;> cases e <;> rfl)) id
    | expr e' => exact e.describe_same_iff e'
    | _ => exact iff_of_false (Node.describe_not_same _ _ (by cases e <;> rfl)) id
  | typeName t =>
    cases b with
    | stmt s => exact iff_of_false (Node.describe_not_same _ _ (by cases s <;> rfl)) id
    | expr e => exact iff_of_false (Node.describe_not_same _ _ (by cases e <;> rfl)) id
    | typeName u => exact t.describe_same_iff u
    | _ => exact iff_of_false (Node.describe_not_same _ _ rfl) id
  | parameter p =>
    cases b with
    | stmt s => exact iff_of_false (Node.describe_not_same _ _ (by cases s <;> rfl)) id
    | expr e => exact iff_of_false (Node.describe_not_same _ _ (by cases e <;> rfl)) id
    | parameter q => exact p.describe_same_iff q
    | _ => exact iff_of_false (Node.describe_not_same _ _ rfl) id

end Trees

/-! ## Keys -/

attribute [simp] Json.Proper.null Json.Proper.bool Json.Proper.int Json.Proper.float Json.Proper.str

@[simp] theorem Name.describe_proper (n : Name) : n.describe.Proper :=
  describeNode_proper (by simp) (by simp)

@[simp] theorem TypeName.describe_proper (t : TypeName) : t.describe.Proper :=
  describeNode_proper (by simp) (by simp)

@[simp] theorem Parameter.describe_proper (p : Parameter) : p.describe.Proper :=
  describeNode_proper (by simp) (by simp)

@[simp] theorem describeParameters_proper (ps : List Parameter) :
    (Json.arr (ps.map Parameter.describe)).Proper := .arr (List.forall_mem_map.2 fun p _ => p.describe_proper)

@[simp] theorem describeDeclared_proper : (t : Option TypeName) → (describeDeclared t).Proper
  | none => .null
  | some t => t.describe_proper

mutual

theorem Expr.describe_proper : (e : Expr) → e.describe.Proper
  | .name n => n.describe_proper
  | .int _ _ | .float _ _ | .str _ _ | .bool _ _ => describeNode_proper (by simp) (by simp)
  | .before _ _ e | .after _ e _ | .assign _ _ e =>
    describeNode_proper (by simp) (by simp [e.describe_proper])
  | .binary _ l _ r => describeNode_proper (by simp) (by simp [l.describe_proper, r.describe_proper])
  | .choice _ test e e₂ =>
    describeNode_proper (by simp) (by simp [test.describe_proper, e.describe_proper, e₂.describe_proper])
  | .call _ callee es =>
    describeNode_proper (by simp) (by simp [callee.describe_proper, Json.Proper.arr (describeExprs_proper es)])
  | .function _ _ _ body => describeNode_proper (by simp) (by simp [body.describe_proper])

theorem describeExprs_proper : (es : List Expr) → ∀ j ∈ describeExprs es, j.Proper
  | [] => nofun
  | e :: es => List.forall_mem_cons.2 ⟨e.describe_proper, describeExprs_proper es⟩

theorem describeExpr?_proper : (e : Option Expr) → (describeExpr? e).Proper
  | none => .null
  | some e => e.describe_proper

theorem Block.describe_proper : (b : Block) → b.describe.Proper
  | .mk _ ss => describeNode_proper (by simp) (by simp [Json.Proper.arr (describeStmts_proper ss)])

theorem Stmt.describe_proper : (s : Stmt) → s.describe.Proper
  | .var _ _ _ e | .ret _ e => describeNode_proper (by simp) (by simp [describeExpr?_proper e])
  | .const _ _ _ e | .expr _ e => describeNode_proper (by simp) (by simp [e.describe_proper])
  | .block b => b.describe_proper
  | .branch _ test b s =>
    describeNode_proper (by simp)
      (by simp [test.describe_proper, b.describe_proper, describeStmt?_proper s])
  | .forLoop _ init test update b =>
    describeNode_proper (by simp)
      (by simp [describeStmt?_proper init, describeExpr?_proper test, describeExpr?_proper update,
        b.describe_proper])
  | .whileLoop _ test b | .doLoop _ b test =>
    describeNode_proper (by simp) (by simp [test.describe_proper, b.describe_proper])
  | .function _ _ _ _ b => describeNode_proper (by simp) (by simp [b.describe_proper])
  | .display _ es => describeNode_proper (by simp) (by simp [Json.Proper.arr (describeExprs_proper es)])

theorem describeStmts_proper : (ss : List Stmt) → ∀ j ∈ describeStmts ss, j.Proper
  | [] => nofun
  | s :: ss => List.forall_mem_cons.2 ⟨s.describe_proper, describeStmts_proper ss⟩

theorem describeStmt?_proper : (s : Option Stmt) → (describeStmt? s).Proper
  | none => .null
  | some s => s.describe_proper

end

theorem Node.describe_proper : (n : Node) → n.describe.Proper
  | .program p => describeNode_proper (by simp) (by simp [Json.Proper.arr (describeStmts_proper p.statements)])
  | .stmt s => s.describe_proper
  | .expr e => e.describe_proper
  | .typeName t => t.describe_proper
  | .parameter p => p.describe_proper

/-- Descriptions lose nothing of a tree but the spelling of its tokens.

    Every node has a description, whose objects have distinct keys.  Two nodes have the same description, as
    JSON, exactly if they are the same tree: nodes of the same forms with the same fields, lists of the same
    length in the same order, optional parts absent in both or in neither, and every node at the same line and
    column.  The floats of the trees are then the same in the sense in which the scalars of the documents
    are. -/
theorem description_faithful (E : Json.ScalarEquality) (a b : Node) :
    ∃ j k, (Item.node a).describe = .ok j ∧ (Item.node b).describe = .ok k ∧ j.Proper ∧ k.Proper ∧
      (j.Same E k ↔ a.Same E b) :=
  ⟨a.describe, b.describe, rfl, rfl, a.describe_proper, b.describe_proper, a.describe_same_iff b⟩

/-- The literals `01` and `1` have the same description.  Those of `1` and `1.0` differ even where the two
    numbers are the same scalar. -/
theorem description_faithful_spelling :
    (Expr.int ⟨.int, "01", 1, 1⟩ 1).describe.Same .exact (Expr.int ⟨.int, "1", 1, 1⟩ 1).describe ∧
    (Json.int 1).Same .numeric (.float 1.0) ∧
    ¬ (Expr.int ⟨.int, "1", 1, 1⟩ 1).describe.Same .numeric (Expr.float ⟨.float, "1.0", 1, 1⟩ 1.0).describe := by
  obtain ⟨j, k, hj, hk, -, -, halike⟩ :=
    description_faithful .exact (.expr (.int ⟨.int, "01", 1, 1⟩ 1)) (.expr (.int ⟨.int, "1", 1, 1⟩ 1))
  obtain ⟨j', k', hj', hk', -, -, hdiffer⟩ :=
    description_faithful .numeric (.expr (.int ⟨.int, "1", 1, 1⟩ 1)) (.expr (.float ⟨.float, "1.0", 1, 1⟩ 1.0))
  cases hj
  cases hk
  cases hj'
  cases hk'
  have hone : Number.equalsInteger 1.0 1 = true := by decide +kernel
  exact ⟨halike.2 ⟨⟨rfl, rfl⟩, rfl⟩, .scalar trivial trivial ⟨1, rfl, hone⟩, hdiffer.1⟩

end ScriptLang
