import LoxReader.Text.Quoted

/-!
# Faults

What can be wrong with an expression, and a fault at a place of a source.
-/

namespace LoxReader

inductive Fault where
  | strayCharacter (character : Char)
  | openString
  | malformedNumber (numeral : String)
  | missingOperand
  | noExpression
  | openGroup
deriving DecidableEq

namespace Fault

def name : Fault → String
  | strayCharacter _ => "UnexpectedCharacter"
  | openString => "UnterminatedString"
  | malformedNumber _ => "NumberParseError"
  | missingOperand => "MissingLeftOperand"
  | noExpression => "ExpectExpression"
  | openGroup => "ExpectClosingParen"

def message : Fault → String
  | strayCharacter _ => "Unexpected character."
  | openString => "Unterminated string."
  | malformedNumber numeral => "error parsing number: " ++ Text.quoted numeral
  | missingOperand => "Missing left operand."
  | noExpression => "Expect expression."
  | openGroup => "Expect ')' after expression."

/-- What may have gone wrong, where there is something to say. -/
def tip? : Fault → Option String
  | strayCharacter character => some s!"Unexpected character \x60{character}\x60"
  | openString => some "String is missing its closing \x60\"\x60"
  | malformedNumber numeral => some s!"Invalid number: \x60{numeral}\x60"
  | missingOperand => some "Binary operator has nothing on its left-hand side"
  | noExpression => none
  | openGroup => some "Did you forget a \x60)\x60?"

end Fault

/-- A fault at a byte of a file. -/
structure SourceError where
  fault : Fault
  position : Nat
  file : String
deriving DecidableEq

def SourceError.message (e : SourceError) : String :=
  s!"{e.fault.message} at {e.file}:{e.position}"

end LoxReader
