import LoxReader.Log
import LoxReader.Token.Basic

/-!
# Diagnostics

A message against a token, as it is shown to a person.
-/

namespace LoxReader

structure Diagnostic where
  token : Token
  message : String
deriving DecidableEq

namespace Diagnostic

def text (d : Diagnostic) : String :=
  if d.token.kind = .eof then s!"[line {d.token.line}] Error at end: {d.message}"
  else s!"[line {d.token.line}] Error at '{d.token.lexeme}': {d.message}"

/-- A diagnostic on the log. -/
def entry (d : Diagnostic) : Log.Entry := ⟨.error, d.text⟩

/-- Equality in every field; numbers are compared as numbers. -/
def equals (d e : Diagnostic) : Bool := d.token.equals e.token && d.message = e.message

end Diagnostic
end LoxReader
