import LoxReader.Number.Reading
import LoxReader.Token.Basic

/-!
# The values of tokens

A number or string token that carries no literal is worth what its lexeme says.
-/

namespace LoxReader

/-- A lexeme without its two quotes. -/
def stripQuotes? : List Char → Option (List Char)
  | '"' :: rest => if rest.getLast? = some '"' then some rest.dropLast else none
  | _ => none

/-- The value of a number or string token: the one it carries, else the one its lexeme has. -/
def Token.value? (t : Token) : Option Literal :=
  match t.literal, t.kind with
  | some literal, _ => some literal
  | none, .number => (Double.read? t.lexeme).map .number
  | none, .string => (stripQuotes? t.lexeme.toList).map fun cs => .string (String.ofList cs)
  | none, _ => none

end LoxReader
