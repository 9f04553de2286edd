import ScriptLang.Proofs.Tree.Tokens
import ScriptLang.Tree.Infer

/-!
  Trees further down.

  Where a source stands behind other text, its tokens have other lines, and so have the tokens that its
  tree keeps.  `down k` moves a tree by `k` lines.  Nothing else of the tree changes: without the places of
  its tokens it is the same, and the type of a literal moves along with the literal.
-/

namespace ScriptLang

/-- The same token `k` lines further down. -/
def Token.down (k : Nat) (t : Token) : Token := { t with line := t.line + k }

abbrev TypeName.down (k : Nat) : TypeName → TypeName := TypeName.retoken (Token.down k)

abbrev Name.down (k : Nat) : Name → Name := Name.retoken (Token.down k)

abbrev Parameter.down (k : Nat) : Parameter → Parameter := Parameter.retoken (Token.down k)

abbrev Expr.down (k : Nat) : Expr → Expr := Expr.retoken (Token.down k)

abbrev Block.down (k : Nat) : Block → Block := Block.retoken (Token.down k)

abbrev Stmt.down (k : Nat) : Stmt → Stmt := Stmt.retoken (Token.down k)

/-- A move changes the place of a token only. -/
theorem Token.unplaced_down (k : Nat) : Token.unplaced ∘ Token.down k = Token.unplaced := rfl

theorem retokenStmts_unplaced_down (k : Nat) (ss : List Stmt) :
    retokenStmts Token.unplaced (ss.map (Stmt.down k)) = retokenStmts Token.unplaced ss := by
  rw [← retokenStmts_eq_map, retokenStmts_retoken, Token.unplaced_down]

/-- The type of a literal moves along with it. -/
theorem Expr.literalType?_down (k : Nat) (e : Expr) :
    (e.down k).literalType? = e.literalType?.map (TypeName.down k) := by
  cases e with
  | function t ps returns body =>
    show some (TypeName.inferredAt (t.down k) _) = some ((TypeName.inferredAt t _).down k)
    rw [declaredSignature_retoken]
    rfl
  | before t op operand =>
    cases operand with
    | int u n =>
      simp only [Expr.retoken, Expr.literalType?]
      split <;> rfl
    | float u x =>
      simp only [Expr.retoken, Expr.literalType?]
      split <;> rfl
    | _ => rfl
  | _ => rfl

end ScriptLang
