/-!
# Kinds of tokens
-/

namespace LoxReader

inductive Kind where
  | eof | number | string | identifier
  | openParen | closeParen | openCurly | closeCurly
  | comma | dot | semicolon | question | colon
  | minus | plus | slash | star
  | not | notEquals | assignment | equals | greater | greaterEquals | less | lessEquals
  | kwAnd | kwClass | kwElse | kwFalse | kwFor | kwFun | kwIf | kwNil | kwOr | kwPrint | kwReturn
  | kwSuper | kwThis | kwTrue | kwVar | kwWhile
deriving DecidableEq, Repr, Inhabited

namespace Kind

/-- The name a kind goes by in token lists and logs. -/
def name : Kind → String
  | eof => "EOF" | number => "Number" | string => "String" | identifier => "Identifier"
  | openParen => "OpenParen" | closeParen => "CloseParen"
  | openCurly => "OpenCurly" | closeCurly => "CloseCurly"
  | comma => "Comma" | dot => "Dot" | semicolon => "Semicolon"
  | question => "Question" | colon => "Colon"
  | minus => "Minus" | plus => "Plus" | slash => "Slash" | star => "Star"
  | not => "Not" | notEquals => "NotEquals" | assignment => "Assignment" | equals => "Equals"
  | greater => "Greater" | greaterEquals => "GreaterEquals"
  | less => "Less" | lessEquals => "LessEquals"
  | kwAnd => "And" | kwClass => "Class" | kwElse => "Else" | kwFalse => "False" | kwFor => "For"
  | kwFun => "Fun" | kwIf => "If" | kwNil => "Nil" | kwOr => "Or" | kwPrint => "Print"
  | kwReturn => "Return" | kwSuper => "Super" | kwThis => "This" | kwTrue => "True"
  | kwVar => "Var" | kwWhile => "While"

def all : List Kind :=
  [eof, number, string, identifier, openParen, closeParen, openCurly, closeCurly,
   comma, dot, semicolon, question, colon, minus, plus, slash, star,
   not, notEquals, assignment, equals, greater, greaterEquals, less, lessEquals,
   kwAnd, kwClass, kwElse, kwFalse, kwFor, kwFun, kwIf, kwNil, kwOr, kwPrint, kwReturn,
   kwSuper, kwThis, kwTrue, kwVar, kwWhile]

/-- The kind of a name. -/
def ofName? (text : String) : Option Kind := all.find? fun k => k.name = text

/-- The reserved words, in alphabetical order. -/
def keywords : List (String × Kind) :=
  [("and", kwAnd), ("class", kwClass), ("else", kwElse), ("false", kwFalse), ("for", kwFor),
   ("fun", kwFun), ("if", kwIf), ("nil", kwNil), ("or", kwOr), ("print", kwPrint),
   ("return", kwReturn), ("super", kwSuper), ("this", kwThis), ("true", kwTrue), ("var", kwVar),
   ("while", kwWhile)]

/-- The kind of a reserved word. -/
def ofKeyword? (word : String) : Option Kind := keywords.lookup word

/-- The kind of a word. -/
def ofWord (word : String) : Kind := (ofKeyword? word).getD identifier

/-- The operators and the punctuation, each with its first character and what follows it.  Those
of two characters come before the one of their first character. -/
def symbols : List (Kind × Char × List Char) :=
  [(openParen, '(', []), (closeParen, ')', []), (openCurly, '\x7b', []), (closeCurly, '\x7d', []),
   (notEquals, '!', ['=']), (not, '!', []), (equals, '=', ['=']), (assignment, '=', []),
   (lessEquals, '<', ['=']), (less, '<', []), (greaterEquals, '>', ['=']), (greater, '>', []),
   (comma, ',', []), (dot, '.', []), (semicolon, ';', []), (question, '?', []), (colon, ':', []),
   (minus, '-', []), (plus, '+', []), (slash, '/', []), (star, '*', [])]

end Kind
end LoxReader
