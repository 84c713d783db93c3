import LoxReader.Token.Kind
import LoxReader.Token.Literal

/-!
# Tokens
-/

namespace LoxReader

/-- An offset or a line as it is kept, in 32 bits. -/
def wrap32 (n : Nat) : Nat := n % 0x100000000

theorem wrap32_lt (n : Nat) : wrap32 n < 0x100000000 := Nat.mod_lt n (by decide)

theorem wrap32_of_lt {n : Nat} (h : n < 0x100000000) : wrap32 n = n := Nat.mod_eq_of_lt h

theorem wrap32_wrap32_add (n m : Nat) : wrap32 (wrap32 n + m) = wrap32 (n + m) :=
  Nat.mod_add_mod n _ m

/-- Where a token stands: the bytes from `start` up to `stop` of a file. -/
structure Span where
  start : Nat
  stop : Nat
  file : String
deriving DecidableEq, Inhabited

/-- The span of what was never in a file. -/
def Span.nowhere : Span := ⟨0, 0, "<null>"⟩

structure Token where
  kind : Kind
  /-- The text it was read from. -/
  lexeme : String
  literal : Option Literal
  /-- The line it starts on, counted from one in 32 bits. -/
  line : Nat
  span : Span
deriving DecidableEq, Inhabited

namespace Token

/-- A token on a line of a token list. -/
def text (t : Token) : String :=
  match t.literal with
  | some literal => s!"{t.kind.name} {t.lexeme} {literal.text}"
  | none => s!"{t.kind.name} {t.lexeme}"

def isAmong (t : Token) (kinds : List Kind) : Bool := kinds.contains t.kind

/-- Equality of literals that may be absent. -/
def literalEquals : Option Literal → Option Literal → Bool
  | some x, some y => x.equals y
  | none, none => true
  | _, _ => false

/-- Equality in every field; numbers are compared as numbers. -/
def equals (s t : Token) : Bool :=
  s.kind = t.kind && s.lexeme = t.lexeme && literalEquals s.literal t.literal &&
    s.line = t.line && s.span = t.span

/-- Equality of token lists. -/
def listEquals : List Token → List Token → Bool
  | [], [] => true
  | s :: ss, t :: ts => s.equals t && listEquals ss ts
  | _, _ => false

end Token
end LoxReader
