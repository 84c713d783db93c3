import LoxReader.Expr.Basic

/-!
# Putting trees together

Trees are built on a stack, the topmost first, as a postfix text says.
-/

namespace LoxReader.Expr

inductive Assembly where
  | push (value : Literal)
  | group
  | unary (operator : Token)
  | missingLeft (operator : Token)
  | binary (operator : Token)
  | ternary (question colon : Token)
  | duplicate
  | discard
  | exchange

/-- One step on a stack; there is none if the stack is too short. -/
def Assembly.step? : Assembly → List Expr → Option (List Expr)
  | push value, stack => some (.literal value :: stack)
  | group, e :: stack => some (.grouping e :: stack)
  | unary operator, e :: stack => some (.unary operator e :: stack)
  | missingLeft operator, e :: stack => some (.missingLeft operator e :: stack)
  | binary operator, right :: left :: stack => some (.binary left operator right :: stack)
  | ternary question colon, onFalse :: onTrue :: condition :: stack =>
    some (.ternary condition question onTrue colon onFalse :: stack)
  | duplicate, e :: stack => some (e :: e :: stack)
  | discard, _ :: stack => some stack
  | exchange, first :: second :: stack => some (second :: first :: stack)
  | _, _ => none

end LoxReader.Expr
