import LoxReader.Token.Basic

/-!
# Expressions

Expression trees over tokens.  An operator that was found without its left operand still makes a
node, `missingLeft`, so that reading can go on behind it.
-/

namespace LoxReader

inductive Expr where
  | literal (value : Literal)
  | grouping (inner : Expr)
  | unary (operator : Token) (right : Expr)
  | binary (left : Expr) (operator : Token) (right : Expr)
  /-- A binary operator with nothing on its left. -/
  | missingLeft (operator : Token) (right : Expr)
  /-- The choice `condition ? onTrue : onFalse`.  Where no colon was written, its slot holds the token in
  front of `onFalse`. -/
  | ternary (condition : Expr) (question : Token) (onTrue : Expr) (colon : Token) (onFalse : Expr)
deriving DecidableEq, Inhabited

namespace Expr

/-- Some node has no left operand. -/
def lacksOperand : Expr → Bool
  | literal _ => false
  | grouping inner => inner.lacksOperand
  | unary _ right => right.lacksOperand
  | binary left _ right => left.lacksOperand || right.lacksOperand
  | missingLeft _ _ => true
  | ternary condition _ onTrue _ onFalse =>
    condition.lacksOperand || onTrue.lacksOperand || onFalse.lacksOperand

/-- The shape of a node. -/
inductive Shape where
  | literal | grouping | unary | binary | ternary
deriving DecidableEq

def Shape.name : Shape → String
  | literal => "Literal"
  | grouping => "Grouping"
  | unary => "Unary"
  | binary => "Binary"
  | ternary => "Ternary"

def shape : Expr → Shape
  | literal _ => .literal
  | grouping _ => .grouping
  | unary _ _ => .unary
  | binary _ _ _ | missingLeft _ _ => .binary
  | ternary _ _ _ _ _ => .ternary

/-- The left operand of a binary node: `some none` where it is missing. -/
def leftOperand? : Expr → Option (Option Expr)
  | binary left _ _ => some (some left)
  | missingLeft _ _ => some none
  | _ => none

/-- Equality of trees; numbers are compared as numbers, and all of an operator token counts. -/
def equals : Expr → Expr → Bool
  | literal x, literal y => x.equals y
  | grouping a, grouping b => equals a b
  | unary s a, unary t b => s.equals t && equals a b
  | binary a s b, binary c t d => equals a c && s.equals t && equals b d
  | missingLeft s a, missingLeft t b => s.equals t && equals a b
  | ternary a s b t c, ternary a' s' b' t' c' =>
    equals a a' && s.equals s' && equals b b' && t.equals t' && equals c c'
  | _, _ => false

/-- Equality of trees that may be absent. -/
def optionEquals : Option Expr → Option Expr → Bool
  | some a, some b => equals a b
  | none, none => true
  | _, _ => false

/-! ### Writing a tree -/

/-- What stands in the place of a missing operand. -/
def missingText : String := "<missing>"

/-- The prefix form, every inner node in parentheses. -/
def text : Expr → String
  | literal value => value.text
  | grouping inner => "(group " ++ inner.text ++ ")"
  | unary operator right => "(" ++ operator.lexeme ++ " " ++ right.text ++ ")"
  | binary left operator right =>
    "(" ++ operator.lexeme ++ " " ++ left.text ++ " " ++ right.text ++ ")"
  | missingLeft operator right =>
    "(" ++ operator.lexeme ++ " " ++ missingText ++ " " ++ right.text ++ ")"
  | ternary condition _ onTrue _ onFalse =>
    "(?: " ++ condition.text ++ " " ++ onTrue.text ++ " " ++ onFalse.text ++ ")"

/-- The text of a left operand. -/
def operandText (operand : Option Expr) : String := (operand.map text).getD missingText

end Expr
end LoxReader
