import LoxReader.Fault
import LoxReader.Source.Line
import LoxReader.Text.Blank

/-!
# Snippets

An error shown in its line, with a caret under the place:

    Error: UnexpectedCharacter (Unexpected character `#`)
    -> shell
      |
    1 | 1 + #
      | ----^

The spaces in front of the line and the blanks behind it are left out.
-/

namespace LoxReader

/-- The widest field that can be laid out. -/
def maxFieldWidth : Nat := 65535

/-- A bar at the right end of the gutter. -/
def gutterBar (number : Nat) : String :=
  String.ofList (List.replicate ((toString number).length + 1) ' ' ++ ['|'])

/-- The caret at the end of a field of dashes. -/
def caret (width : Nat) : String := String.ofList (List.replicate (width - 1) '-' ++ ['^'])

/-- The first line of a snippet. -/
def Fault.headline (fault : Fault) : String :=
  match fault.tip? with
  | none => s!"Error: {fault.name}"
  | some tip => s!"Error: {fault.name} ({tip})"

/-- The text of a line as a snippet shows it. -/
def strippedLine (line : Line) : String :=
  String.ofList (Text.trimEnd (line.text.dropWhile (· = ' ')))

namespace SourceError

/-- The width of the field with the caret. -/
def caretWidth (line : Line) : Nat :=
  line.column - (line.text.takeWhile (· = ' ')).length + 1

/-- The lines of a snippet.  There is none if the caret is out of reach. -/
def snippetLines? (e : SourceError) (source : String) : Option (List String) :=
  let line := Line.ofOffset source e.position
  if maxFieldWidth < caretWidth line then none
  else
    some
      [e.fault.headline,
       s!"-> {e.file}",
       gutterBar line.number,
       s!"{line.number} | {strippedLine line}",
       s!"{gutterBar line.number} {caret (caretWidth line)}"]

/-- The snippet of an error, its lines joined by newlines. -/
def snippet? (e : SourceError) (source : String) : Option String :=
  (e.snippetLines? source).map (String.intercalate "\n")

end SourceError
end LoxReader
