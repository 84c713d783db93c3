import LoxReader.Token.Basic
import LoxReader.Grammar.Level

/-!
# Cursors

A cursor is a place in a list of tokens.  It knows the tokens in front of it and the one it has just
passed, and never moves past an end token.
-/

namespace LoxReader

structure Cursor where
  /-- How many tokens are behind the cursor. -/
  position : Nat
  /-- The token just passed; at the start of the list the first token. -/
  passed : Token
  /-- The tokens in front of the cursor. -/
  rest : List Token
deriving DecidableEq

namespace Cursor

/-- The start of a list of tokens, if its last token is an end token. -/
def ofTokens? (tokens : List Token) : Option Cursor :=
  match tokens.head?, tokens.getLast? with
  | some first, some last => if last.kind = .eof then some ⟨0, first, tokens⟩ else none
  | _, _ => none

/-- What is wrong with a list of tokens that has no start. -/
def noEndMessage : String := "token sequence must end with an EOF token"

/-- The first token in front of the cursor. -/
def token (c : Cursor) : Token := c.rest.headD c.passed

/-- Its kind.  Where nothing is left, the end is in front of the cursor. -/
def kind (c : Cursor) : Kind :=
  match c.rest with
  | [] => .eof
  | t :: _ => t.kind

def atEnd (c : Cursor) : Bool := c.kind = .eof

/-- The cursor stands in front of a token of this kind.  At the end it sees nothing. -/
def sees (c : Cursor) (kind : Kind) : Bool := !c.atEnd && c.kind = kind

def seesAny (c : Cursor) (kinds : List Kind) : Bool := kinds.any c.sees

/-- One token further, except at the end. -/
def next (c : Cursor) : Cursor :=
  match c.rest with
  | [] => c
  | t :: ts => if t.kind = .eof then c else ⟨c.position + 1, t, ts⟩

/-- The number of tokens in front of the cursor. -/
def remaining (c : Cursor) : Nat := c.rest.length

/-- On to a place behind a semicolon, in front of a word that begins a statement, or at the end. -/
def statementFrom (passed : Token) (position : Nat) : List Token → Cursor
  | [] => ⟨position, passed, []⟩
  | t :: ts =>
    if t.kind = .eof || passed.kind = .semicolon || t.isAmong statementWords then
      ⟨position, passed, t :: ts⟩
    else statementFrom t (position + 1) ts

/-- Over one token, and on to the next place where a statement may begin. -/
def toStatement (c : Cursor) : Cursor :=
  let d := c.next
  statementFrom d.passed d.position d.rest

/-! ### Moving on -/

theorem remaining_next_le (c : Cursor) : c.next.remaining ≤ c.remaining := by
  unfold next remaining
  split
  · simp
  · rename_i t ts h
    split <;> simp [h]

theorem remaining_next_lt {c : Cursor} (h : c.atEnd = false) :
    c.next.remaining < c.remaining := by
  unfold atEnd kind at h
  unfold next remaining
  split at h
  · simp at h
  · rename_i t ts hr
    have ht : t.kind ≠ .eof := by simpa using h
    simp [hr, ht]

theorem atEnd_eq_false_of_sees {c : Cursor} {kind : Kind} (h : c.sees kind) :
    c.atEnd = false := by
  unfold sees at h
  simp only [Bool.and_eq_true, Bool.not_eq_true'] at h
  exact h.1

theorem atEnd_eq_false_of_seesAny {c : Cursor} {kinds : List Kind} (h : c.seesAny kinds) :
    c.atEnd = false := by
  obtain ⟨kind, _, hk⟩ := List.any_eq_true.1 h
  exact atEnd_eq_false_of_sees hk

end Cursor
end LoxReader
