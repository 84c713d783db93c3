import LoxReader.Proofs.Source.Caret
import Mathlib.Data.List.Basic

/-!
# The lines of a snippet

A snippet of a source that cannot be read has five lines.  The fourth one shows the line at fault
without the spaces in front of it and the blanks at its end, and neither of them reach the character
at fault.  The fifth one has as many dashes in front of the caret as there are bytes between the
spaces and this character.  If these are too many for a field, there is no snippet.
-/

namespace LoxReader

/-! ### Five lines -/

theorem Fault.newline_notMem_headline {fault : Fault} {c : Char}
    (character : fault.character? = some c) (notBlank : Text.isBlank c = false) :
    '\n' ∉ fault.headline.toList := by
  cases fault with
  | strayCharacter d =>
    cases character
    have other : '\n' ≠ c := by
      rintro rfl
      cases notBlank
    simp [headline, name, tip?, toString, other]
  | openString => decide
  | _ => cases character

theorem file_of_lex_error {source : String} {file : Option String} {e : SourceError}
    (failed : lex source file = .error e) : e.file = fileName file := by
  obtain ⟨ts, q, left, fault, -, -, rfl⟩ := exists_lexes_of_error failed
  rfl

/-- The bar behind a number of a line. -/
theorem idxOf_bar (number : Nat) (shown : List Char) :
    ((toString number).toList ++ ' ' :: '|' :: ' ' :: shown).idxOf '|' =
      (toString number).length + 1 := by
  rw [List.idxOf_append_of_notMem (notMem_toString (by decide) number), String.length_toList]
  rfl

namespace SourceError

variable {source : String} {e : SourceError}

theorem snippet?_eq_none_iff :
    e.snippet? source = none ↔ maxFieldWidth < caretWidth (Line.ofOffset source e.position) := by
  simp [snippet?, snippetLines?]

/-- Where its parts have no newline, the newlines of a snippet are those between its lines. -/
theorem splitOn_intercalate_fiveLines {number dashes : Nat} {shown : List Char}
    (headline : '\n' ∉ e.fault.headline.toList) (file : '\n' ∉ e.file.toList)
    (oneLine : '\n' ∉ shown) :
    (['\n'].intercalate (e.fiveLines number shown dashes)).splitOn '\n' =
      e.fiveLines number shown dashes := by
  apply List.splitOn_intercalate
  · intro line mem
    simp only [fiveLines, List.mem_cons, List.not_mem_nil, or_false] at mem
    rcases mem with rfl | rfl | rfl | rfl | rfl
    · exact headline
    · simp [file]
    · simp
    · rw [List.mem_append, not_or]
      exact ⟨notMem_toString (by decide) number, by simp [oneLine]⟩
    · rw [List.mem_append, not_or]
      exact ⟨notMem_caretLead _ _ (by decide), by decide⟩
  · exact List.cons_ne_nil _ _

end SourceError

/-! ### The line at fault -/

/-- The line around a character, without its newline. -/
def lineAround (before : List Char) (c : Char) (rest : List Char) : List Char :=
  lastLine before ++ c :: rest.takeWhile (· ≠ '\n')

/-- How many spaces a line begins with. -/
def indentation (line : List Char) : Nat := (line.takeWhile (· = ' ')).length

/-- A line without the spaces in front of it and the blanks at its end. -/
def unindented (line : List Char) : List Char := Text.trimEnd (line.dropWhile (· = ' '))

/-- The bytes between the spaces in front of a line and a character on it. -/
def bytesBetween (before : List Char) (c : Char) (rest : List Char) : Nat :=
  Text.byteLength (lastLine before) - indentation (lineAround before c rest)

/-- An error at the character `c` is drawn in its line. -/
structure Drawn (e : SourceError) (source : String) (before : List Char) (c : Char)
    (rest : List Char) : Prop where
  /-- The spaces in front of the line are in front of the character. -/
  spaces : indentation (lineAround before c rest) ≤ Text.byteLength (lastLine before)
  none_iff : e.snippet? source = none ↔ 65535 < bytesBetween before c rest + 1
  /-- The bars of the last two lines are below each other. -/
  lines : ∀ text, e.snippet? source = some text →
    let fourth := (toString (1 + before.count '\n')).toList ++
      ' ' :: '|' :: ' ' :: unindented (lineAround before c rest)
    let margin := List.replicate (fourth.idxOf '|') ' '
    text.toList.splitOn '\n' =
      [e.fault.headline.toList, '-' :: '>' :: ' ' :: e.file.toList, margin ++ ['|'], fourth,
       margin ++ '|' :: ' ' :: (List.replicate (bytesBetween before c rest) '-' ++ ['^'])]
  /-- The character is shown, behind as many bytes as there are dashes. -/
  shown : ∃ left right, unindented (lineAround before c rest) = left ++ c :: right ∧
    Text.byteLength left = bytesBetween before c rest

section Character

variable {source : String} {before rest : List Char} {c : Char}

/-- The spaces in front of the line and the blanks at its end do not reach the character. -/
theorem exists_unindented (before rest : List Char) (notBlank : Text.isBlank c = false) :
    indentation (lineAround before c rest) ≤ Text.byteLength (lastLine before) ∧
      ∃ left right, unindented (lineAround before c rest) = left ++ c :: right ∧
        Text.byteLength left = bytesBetween before c rest := by
  obtain ⟨spaces, left, line_eq, -, single, cut⟩ := exists_spaces before notBlank
  have behind := cut (rest.takeWhile (· ≠ '\n'))
  have bytes : Text.byteLength (lastLine before) =
      indentation (lineAround before c rest) + Text.byteLength left := by
    rw [indentation, lineAround, behind.1, line_eq, Text.byteLength_append, single]
  refine ⟨by omega, left, _, behind.2, ?_⟩
  rw [bytesBetween]
  omega

/-- A snippet is one of the line around the character, and its width is that of the bytes in front of
the character. -/
theorem ofOffset_drawn (split : source.toList = before ++ c :: rest)
    (notBlank : Text.isBlank c = false) :
    let line := Line.ofOffset source (Text.byteLength before)
    line.number = 1 + before.count '\n' ∧
      (strippedLine line).toList = unindented (lineAround before c rest) ∧
      SourceError.caretWidth line = bytesBetween before c rest + 1 := by
  intro line
  have found : line = _ := Line.ofOffset_append split
  obtain ⟨more, first⟩ := exists_firstLine_cons c rest
  obtain ⟨spaces, shown, -, -, -, cut⟩ := exists_spaces before notBlank
  have visible : c ≠ '\n' := by
    rintro rfl
    cases notBlank
  -- The line has its newline, which is trimmed.
  have trimmed := Text.trimEnd_firstLine (c :: rest)
  rw [first, List.takeWhile_cons_of_pos (by simpa using visible)] at trimmed
  have text : line.text = lastLine before ++ c :: more := by rw [found, first]
  refine ⟨by rw [found], ?_, ?_⟩
  · rw [strippedLine, String.toList_ofList, text, (cut more).2, unindented, lineAround,
      (cut _).2, ← Text.trimEnd_cons _ notBlank, trimmed, Text.trimEnd_cons _ notBlank]
  · rw [SourceError.caretWidth, bytesBetween, indentation, lineAround, text, (cut more).1,
      (cut _).1, found]

end Character

/-- **The snippet of a source that cannot be read.**  Unless the caret is out of reach, it has five
lines, and the character that the source fails at is on the fourth one, behind as many bytes as there
are dashes on the fifth one. -/
theorem lex_drawn {source : String} {file : Option String} {e : SourceError}
    (short : Text.byteLength source.toList < 0x100000000) (oneLine : '\n' ∉ (fileName file).toList)
    (failed : lex source file = .error e) :
    ∃ before c rest, source.toList = before ++ c :: rest ∧ e.position = Text.byteLength before ∧
      e.fault.character? = some c ∧ Drawn e source before c rest := by
  obtain ⟨before, c, rest, split, position, character, notBlank⟩ :=
    exists_split_of_lex_error short failed
  obtain ⟨number, stripped, width⟩ := ofOffset_drawn split notBlank
  obtain ⟨spaces, shown⟩ := exists_unindented before rest notBlank
  refine ⟨before, c, rest, split, position, character, spaces, ?_, ?_, shown⟩
  · rw [SourceError.snippet?_eq_none_iff, position, width]
    rfl
  · intro text drawn fourth margin
    have headline := e.fault.newline_notMem_headline character notBlank
    have path : '\n' ∉ e.file.toList := by rwa [file_of_lex_error failed]
    have line : '\n' ∉ unindented (lineAround before c rest) := by
      obtain ⟨_, _, _, -, -, -, same, free, -⟩ := exists_indentation split notBlank
      rwa [← same, stripped] at free
    rw [SourceError.toList_snippet drawn, position, number, stripped, width, Nat.add_sub_cancel,
      SourceError.splitOn_intercalate_fiveLines headline path line]
    have gutter : margin = List.replicate ((toString (1 + before.count '\n')).length + 1) ' ' :=
      congrArg (List.replicate · ' ') (idxOf_bar _ _)
    rw [SourceError.fiveLines, caretLead, gutter, List.append_assoc]
    rfl

/-- A line with spaces at both of its ends, a character of two bytes and a stray one. -/
def spacedFault : String := "1;\n  \"é\" # \n2"

def spacedFaultSnippet : String :=
  "Error: UnexpectedCharacter (Unexpected character \x60#\x60)\n-> a.lox\n  |\n2 | \"é\" #\n  | -----^"

theorem lex_drawn_spacedFault :
    Text.byteLength spacedFault.toList < 0x100000000 ∧ '\n' ∉ (fileName (some "a.lox")).toList ∧
      lex spacedFault (some "a.lox") = .error ⟨.strayCharacter '#', 10, "a.lox"⟩ ∧
      SourceError.snippet? ⟨.strayCharacter '#', 10, "a.lox"⟩ spacedFault = some spacedFaultSnippet ∧
      ∃ before c rest, spacedFault.toList = before ++ c :: rest ∧ 10 = Text.byteLength before ∧
        some '#' = some c ∧ Drawn ⟨.strayCharacter '#', 10, "a.lox"⟩ spacedFault before c rest := by
  have short : Text.byteLength spacedFault.toList < 0x100000000 := by decide
  have oneLine : '\n' ∉ (fileName (some "a.lox")).toList := by decide
  have failed : lex spacedFault (some "a.lox") = .error ⟨.strayCharacter '#', 10, "a.lox"⟩ :=
    eq_error_of_error? (by decide +kernel)
  exact ⟨short, oneLine, failed, by decide +kernel, lex_drawn short oneLine failed⟩

end LoxReader
