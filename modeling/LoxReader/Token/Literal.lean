import LoxReader.Number.Shortest

/-!
# Literals

The value of a number or string token, and of a leaf of an expression.
-/

namespace LoxReader

inductive Literal where
  | number (value : Double)
  | string (value : String)
  | boolean (value : Bool)
  | nil
deriving DecidableEq, Inhabited

namespace Literal

def text : Literal → String
  | number value => value.text
  | string value => value
  | boolean value => if value then "true" else "false"
  | nil => "nil"

/-- Equality of values; numbers are compared as numbers. -/
def equals : Literal → Literal → Bool
  | number x, number y => x.equals y
  | string x, string y => x = y
  | boolean x, boolean y => x = y
  | nil, nil => true
  | _, _ => false

end Literal
end LoxReader
