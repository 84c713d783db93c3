import LoxReader.Fault
import LoxReader.Number.Reading
import LoxReader.Text.Blank
import LoxReader.Token.Literal
import LoxReader.Token.Kind

/-!
# Lexical rules

A rule takes a text off the front of the input, or does not apply.  The first rule in `Rule.all`
that applies cuts the input and says what the text is.
-/

namespace LoxReader

inductive Rule where
  /-- A run of blanks. -/
  | blank
  /-- Two slashes and the rest of the line. -/
  | comment
  /-- A letter or underscore, then letters, digits and underscores. -/
  | word
  /-- Digits, with a fraction if a point and a digit follow them. -/
  | number
  /-- From a quote to the next quote. -/
  | string
  /-- A quote that is never closed. -/
  | openQuote
  /-- A fixed text. -/
  | symbol (kind : Kind) (first : Char) (rest : List Char)
deriving DecidableEq

namespace Rule

/-- A letter without accents, or an underscore. -/
def isLetter (c : Char) : Bool := c.isAlpha || c = '_'

def isWordChar (c : Char) : Bool := isLetter c || c.isDigit

/-- A point and the digits behind it. -/
def fraction : List Char → List Char
  | '.' :: rest =>
    match rest.takeWhile Char.isDigit with
    | [] => []
    | ds => '.' :: ds
  | _ => []

/-- The text that the rule takes off the front. -/
def take? (rule : Rule) (input : List Char) : Option (List Char) :=
  match rule, input with
  | blank, c :: rest => if Text.isBlank c then some (c :: rest.takeWhile Text.isBlank) else none
  | comment, '/' :: '/' :: rest => some ('/' :: '/' :: rest.takeWhile (· ≠ '\n'))
  | word, c :: rest => if isLetter c then some (c :: rest.takeWhile isWordChar) else none
  | number, c :: rest =>
    if c.isDigit then
      some (c :: rest.takeWhile Char.isDigit ++ fraction (rest.dropWhile Char.isDigit))
    else none
  | string, '"' :: rest =>
    match rest.dropWhile (· ≠ '"') with
    | [] => none
    | quote :: _ => some ('"' :: rest.takeWhile (· ≠ '"') ++ [quote])
  | openQuote, '"' :: _ => some ['"']
  | symbol _ first more, c :: rest =>
    if c = first && more.isPrefixOf rest then some (first :: more) else none
  | _, _ => none

/-- All rules, in the order in which they are tried. -/
def all : List Rule :=
  [blank, comment, word, number, string, openQuote] ++
    Kind.symbols.map fun (kind, first, rest) => symbol kind first rest

/-- The first rule that applies, and what it takes. -/
def first? (input : List Char) : Option (Rule × List Char) :=
  all.findSome? fun rule => (rule.take? input).map (rule, ·)

/-- What a text turns out to be. -/
inductive Reading where
  | skipped
  | token (kind : Kind) (literal : Option Literal)
  | fault (fault : Fault)
deriving DecidableEq

/-- What the text taken by a rule is.  A string is worth what stands between its quotes. -/
def reading (rule : Rule) (text : List Char) : Reading :=
  match rule with
  | blank | comment => .skipped
  | word => .token (Kind.ofWord (String.ofList text)) none
  | number =>
    match Double.read? (String.ofList text) with
    | some value => .token .number (some (.number value))
    | none => .fault (.malformedNumber (String.ofList text))
  | string => .token .string (some (.string (String.ofList text.tail.dropLast)))
  | openQuote => .fault .openString
  | symbol kind _ _ => .token kind none

/-! ### A rule takes something -/

theorem take?_ne_nil {rule : Rule} {input text : List Char} (h : rule.take? input = some text) :
    text ≠ [] := by
  rintro rfl
  unfold take? at h
  split at h <;> (try split at h) <;> simp at h

theorem first?_eq_some {input text : List Char} {rule : Rule} (h : first? input = some (rule, text)) :
    rule ∈ all ∧ rule.take? input = some text := by
  obtain ⟨r, mem, h⟩ := List.exists_of_findSome?_eq_some h
  obtain ⟨t, ht, h⟩ := Option.map_eq_some_iff.1 h
  cases h
  exact ⟨mem, ht⟩

theorem first?_ne_nil {input text : List Char} {rule : Rule} (h : first? input = some (rule, text)) :
    text ≠ [] :=
  take?_ne_nil (first?_eq_some h).2

end Rule
end LoxReader
