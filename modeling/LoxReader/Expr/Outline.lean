import LoxReader.Expr.Basic

/-!
# Outlines

The nodes of a tree in pre-order, each with its depth; a missing operand has a line of its own.
The depths make the outline as good as the tree.
-/

namespace LoxReader.Expr

inductive Heading where
  | literal (value : Literal)
  | grouping
  | unary (operator : Token)
  | binary (operator : Token)
  | missing
  | ternary (question colon : Token)
deriving DecidableEq

def outlineFrom (depth : Nat) : Expr → List (Nat × Heading)
  | literal value => [(depth, .literal value)]
  | grouping inner => (depth, .grouping) :: outlineFrom (depth + 1) inner
  | unary operator right => (depth, .unary operator) :: outlineFrom (depth + 1) right
  | binary left operator right =>
    (depth, .binary operator) :: (outlineFrom (depth + 1) left ++ outlineFrom (depth + 1) right)
  | missingLeft operator right =>
    (depth, .binary operator) :: (depth + 1, .missing) :: outlineFrom (depth + 1) right
  | ternary condition question onTrue colon onFalse =>
    (depth, .ternary question colon) :: (outlineFrom (depth + 1) condition ++
      outlineFrom (depth + 1) onTrue ++ outlineFrom (depth + 1) onFalse)

/-- The outline of a tree, its root at depth zero. -/
def outline (e : Expr) : List (Nat × Heading) := outlineFrom 0 e

end LoxReader.Expr
