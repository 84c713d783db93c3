import LoxReader.Token.Kind

/-!
# Levels of the grammar

From the loosest to the tightest: comma, ternary, equality, comparison, term, factor, unary and
primary.  The five rungs are the levels of binary operators, and differ only in the tables here.
-/

namespace LoxReader

/-- A level of binary operators. -/
inductive Rung where
  | comma | equality | comparison | term | factor
deriving DecidableEq, Repr

inductive Level where
  | rung (r : Rung)
  | ternary
  | unary
  | primary
deriving DecidableEq, Repr

namespace Level

@[match_pattern] abbrev comma : Level := rung .comma
@[match_pattern] abbrev equality : Level := rung .equality
@[match_pattern] abbrev comparison : Level := rung .comparison
@[match_pattern] abbrev term : Level := rung .term
@[match_pattern] abbrev factor : Level := rung .factor

/-- Where a level stands on the ladder; tighter levels stand higher. -/
def rank : Level → Nat
  | comma => 0
  | ternary => 1
  | equality => 2
  | comparison => 3
  | term => 4
  | factor => 5
  | unary => 6
  | primary => 7

def name : Level → String
  | comma => "Comma"
  | ternary => "Ternary"
  | equality => "Equality"
  | comparison => "Comparison"
  | term => "Term"
  | factor => "Factor"
  | unary => "Unary"
  | primary => "Primary"

def all : List Level :=
  [comma, ternary, equality, comparison, term, factor, unary, primary]

/-- The level of a name. -/
def ofName? (text : String) : Option Level := all.find? fun l => l.name = text

end Level

namespace Rung

def all : List Rung := [comma, equality, comparison, term, factor]

def operators : Rung → List Kind
  | comma => [.comma]
  | equality => [.notEquals, .equals]
  | comparison => [.greater, .greaterEquals, .less, .lessEquals]
  | term => [.minus, .plus]
  | factor => [.slash, .star]

/-- The level of the leftmost operand. -/
def firstOperand : Rung → Level
  | comma => .ternary
  | equality => .comparison
  | comparison => .term
  | term => .factor
  | factor => .unary

/-- The level of each operand to the right of an operator.  A factor stands to the right of a
factor, so a chain of them leans to the right; all other chains lean to the left. -/
def laterOperand : Rung → Level
  | factor => .factor
  | r => r.firstOperand

/-- Whether an operator of the rung may be met without its left operand. -/
def forgives : Rung → Bool
  | comma => false
  | _ => true

theorem rank_lt_rank_firstOperand (r : Rung) : (Level.rung r).rank < r.firstOperand.rank := by
  cases r <;> decide

end Rung

theorem Level.rank_lt (l : Level) : l.rank < 8 := by
  rcases l with (_ | _) | _ | _ | _ <;> decide

/-- The operators in front of an operand. -/
def unaryOperators : List Kind := [.not, .minus]

/-- What a statement begins with. -/
def statementWords : List Kind :=
  [.kwClass, .kwFun, .kwVar, .kwFor, .kwIf, .kwWhile, .kwPrint, .kwReturn]

end LoxReader
