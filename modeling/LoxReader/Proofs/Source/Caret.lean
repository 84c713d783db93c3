import LoxReader.Proofs.Lexing.Failures
import LoxReader.Proofs.Lexing.Lines
import LoxReader.Source.Snippet

/-!
# Where the caret stands

The last two lines of a snippet: the line at fault, without the spaces it begins with, and the caret
below it.  The caret is moved by the bytes in front of the character at fault, and a line shows
characters.  So it is under this character exactly if everything in front of it on its line takes one
byte.
-/

namespace LoxReader

/-! ### Stripped lines -/

namespace Text

variable {c : Char} {cs : List Char}

theorem byteLength_eq_length_iff : byteLength cs = cs.length ↔ ∀ c ∈ cs, c.utf8Size = 1 := by
  induction cs with
  | nil => simp
  | cons c cs ih =>
    have := c.utf8Size_pos
    have := length_le_byteLength cs
    rw [List.forall_mem_cons, ← ih, byteLength_cons, List.length_cons]
    omega

theorem trimEnd_subset (cs : List Char) : trimEnd cs ⊆ cs := by
  intro c mem
  have mem := (List.dropWhile_suffix isBlank).subset (List.mem_reverse.1 mem)
  exact List.mem_reverse.1 mem

theorem trimEnd_concat (h : isBlank c = true) : trimEnd (cs ++ [c]) = trimEnd cs := by
  rw [trimEnd, List.reverse_append, List.reverse_singleton, List.singleton_append,
    List.dropWhile_cons_of_pos h, trimEnd]

/-- Nothing up to a character that is no blank is trimmed. -/
theorem trimEnd_append_cons (cs ds : List Char) (h : isBlank c = false) :
    trimEnd (cs ++ c :: ds) = cs ++ c :: trimEnd ds := by
  have stop : (c :: cs.reverse).dropWhile isBlank = c :: cs.reverse :=
    List.dropWhile_cons_of_neg (by simp [h])
  have reversed : (cs ++ c :: ds).reverse = ds.reverse ++ c :: cs.reverse := by simp
  rw [trimEnd, reversed, List.dropWhile_append]
  split
  · rename_i all
    rw [stop, trimEnd, List.isEmpty_iff.1 all]
    simp
  · rw [trimEnd]
    simp

theorem trimEnd_cons (ds : List Char) (h : isBlank c = false) :
    trimEnd (c :: ds) = c :: trimEnd ds := trimEnd_append_cons [] ds h

/-- The newline at the end of a line is a blank. -/
theorem trimEnd_firstLine (cs : List Char) :
    trimEnd (firstLine cs) = trimEnd (cs.takeWhile (· ≠ '\n')) := by
  obtain ⟨body, close, -, taken, dropped, run⟩ := exists_run (· ≠ '\n') cs
  rw [firstLine, taken, dropped]
  obtain rfl | ⟨more, rfl⟩ := run.rest_cases
  · rw [List.take_nil, List.append_nil]
  · exact trimEnd_concat (by decide)

/-- A line without the blanks at its end has no newline. -/
theorem newline_notMem_trimEnd (cs : List Char) : '\n' ∉ trimEnd (firstLine cs) := by
  rw [trimEnd_firstLine]
  obtain ⟨body, close, -, taken, -, run⟩ := exists_run (· ≠ '\n') cs
  rw [taken]
  exact fun mem => run.notMem (trimEnd_subset body mem)

end Text

/-! ### The character at fault -/

/-- The character that a source fails at. -/
def Fault.character? : Fault → Option Char
  | .strayCharacter c => some c
  | .openString => some '"'
  | _ => none

theorem Refused.exists_cons {left : List Char} {fault : Fault} (h : Refused left fault) :
    ∃ c rest, left = c :: rest ∧ fault.character? = some c ∧ Text.isBlank c = false := by
  cases h with
  | @stray c more stray =>
    simp only [Rule.begins, Bool.or_eq_false_iff] at stray
    exact ⟨c, more, rfl, rfl, stray.1.1.1.1⟩
  | openQuote => exact ⟨'"', _, rfl, rfl, by decide⟩

/-- The error of a source is at a character of it that is no blank. -/
theorem exists_split_of_lex_error {source : String} {file : Option String} {e : SourceError}
    (short : Text.byteLength source.toList < 0x100000000) (failed : lex source file = .error e) :
    ∃ before c rest, source.toList = before ++ c :: rest ∧ e.position = Text.byteLength before ∧
      e.fault.character? = some c ∧ Text.isBlank c = false := by
  obtain ⟨ts, q, left, fault, derived, refused, rfl⟩ := exists_lexes_of_error failed
  obtain ⟨before, split, rfl⟩ := derived.split
  obtain ⟨c, rest, rfl, character, notBlank⟩ := refused.exists_cons
  refine ⟨before, c, rest, split, ?_, character, notBlank⟩
  rw [split, Text.byteLength_append] at short
  have offset : (Place.start.after before).offset = Text.byteLength before := Nat.zero_add _
  rw [offset, wrap32_of_lt (by omega)]

/-! ### The last two lines -/

/-- What a snippet shows in front of a character behind `before`: the number of the line, a bar, and
the line up to the character without the spaces it begins with. -/
def lead (before : List Char) : List Char :=
  (toString (1 + before.count '\n')).toList ++ ' ' :: '|' :: ' ' :: (lastLine before).dropWhile (· = ' ')

/-- The last two lines of a snippet: the first one shows the character `c` behind `before`, and the
second one the caret behind `under`. -/
structure CaretLines (snippet before : List Char) (c : Char) (under : List Char) : Prop where
  lines : ∃ head tail, snippet = head ++ '\n' :: (lead before ++ c :: tail) ++ '\n' :: (under ++ ['^']) ∧
    '\n' ∉ lead before ++ c :: tail
  under : '\n' ∉ under ∧ '^' ∉ under

/-- The text in front of the caret. -/
def caretLead (number bytes : Nat) : List Char :=
  List.replicate ((toString number).length + 1) ' ' ++ '|' :: ' ' :: List.replicate bytes '-'

namespace SourceError

variable {e : SourceError} {source text : String}

/-- The lines of a snippet that shows `shown` in the line of this number, with the caret behind this
many dashes. -/
def fiveLines (e : SourceError) (number : Nat) (shown : List Char) (dashes : Nat) :
    List (List Char) :=
  [e.fault.headline.toList,
   '-' :: '>' :: ' ' :: e.file.toList,
   List.replicate ((toString number).length + 1) ' ' ++ ['|'],
   (toString number).toList ++ ' ' :: '|' :: ' ' :: shown,
   caretLead number dashes ++ ['^']]

theorem toList_snippet (drawn : e.snippet? source = some text) :
    let line := Line.ofOffset source e.position
    text.toList =
      ['\n'].intercalate (e.fiveLines line.number (strippedLine line).toList (caretWidth line - 1)) := by
  intro line
  simp only [snippet?, snippetLines?, Option.map_eq_some_iff] at drawn
  obtain ⟨lines, fits, rfl⟩ := drawn
  split at fits
  · cases fits
  · cases fits
    rw [String.toList_intercalate]
    simp [fiveLines, toString, caretLead, gutterBar, caret, line]

theorem exists_toList_snippet (drawn : e.snippet? source = some text) :
    let line := Line.ofOffset source e.position
    ∃ head, text.toList = head ++
      '\n' :: ((toString line.number).toList ++ ' ' :: '|' :: ' ' :: (strippedLine line).toList) ++
      '\n' :: (caretLead line.number (caretWidth line - 1) ++ ['^']) := by
  intro line
  let lines := e.fiveLines line.number (strippedLine line).toList (caretWidth line - 1)
  refine ⟨['\n'].intercalate (lines.take 3), ?_⟩
  rw [toList_snippet drawn]
  simp [lines, fiveLines, line]

end SourceError

section Character

variable {source : String} {before rest : List Char} {c : Char}

/-- The spaces in front of a line end in front of a character that is no blank, whatever is behind
it, and the blanks at the end of the line begin behind this character. -/
theorem exists_spaces (before : List Char) (notBlank : Text.isBlank c = false) :
    ∃ spaces shown, lastLine before = spaces ++ shown ∧
      (lastLine before).dropWhile (· = ' ') = shown ∧ Text.byteLength spaces = spaces.length ∧
      ∀ more, (lastLine before ++ c :: more).takeWhile (· = ' ') = spaces ∧
        Text.trimEnd ((lastLine before ++ c :: more).dropWhile (· = ' ')) =
          shown ++ c :: Text.trimEnd more := by
  obtain ⟨spaces, shown, line_eq, -, dropped, run⟩ := exists_run (· = ' ') (lastLine before)
  have single : Text.byteLength spaces = spaces.length := by
    rw [Text.byteLength_eq_length_iff]
    intro d mem
    rw [of_decide_eq_true (run.all d mem)]
    rfl
  refine ⟨spaces, shown, line_eq, dropped, single, fun more => ?_⟩
  have stop : ∀ d ∈ (shown ++ c :: more).head?, decide (d = ' ') = false := by
    cases shown with
    | nil =>
      rintro d ⟨⟩
      rw [decide_eq_false_iff_not]
      rintro rfl
      cases notBlank
    | cons => exact run.stop
  have indented : Run (· = ' ') spaces (shown ++ c :: more) := ⟨run.all, stop⟩
  rw [line_eq, List.append_assoc, indented.takeWhile_append, indented.dropWhile_append,
    Text.trimEnd_append_cons shown more notBlank]
  exact ⟨rfl, rfl⟩

/-- A line with a character that is no blank, cut behind its indentation and at this character. -/
theorem exists_indentation (split : source.toList = before ++ c :: rest) (notBlank : Text.isBlank c = false) :
    let line := Line.ofOffset source (Text.byteLength before)
    ∃ spaces shown tail, lastLine before = spaces ++ shown ∧
      (lastLine before).dropWhile (· = ' ') = shown ∧ Text.byteLength spaces = spaces.length ∧
      (strippedLine line).toList = shown ++ c :: tail ∧ '\n' ∉ shown ++ c :: tail ∧
      line.number = 1 + before.count '\n' ∧
      SourceError.caretWidth line = Text.byteLength shown + 1 := by
  intro line
  have found : line = _ := Line.ofOffset_append split
  obtain ⟨more, first⟩ := exists_firstLine_cons c rest
  obtain ⟨spaces, shown, line_eq, dropped, single, cut⟩ := exists_spaces before notBlank
  have text : line.text = lastLine before ++ c :: more := by rw [found, first]
  have stripped : (strippedLine line).toList = shown ++ c :: Text.trimEnd more := by
    rw [strippedLine, String.toList_ofList, text, (cut more).2]
  refine ⟨spaces, shown, Text.trimEnd more, line_eq, dropped, single, stripped, ?_, ?_, ?_⟩
  · have shown_free : '\n' ∉ shown := by
      have free := notMem_lastLine before
      rw [line_eq, List.mem_append, not_or] at free
      exact free.2
    have tail_free := Text.newline_notMem_trimEnd (c :: rest)
    rw [first, Text.trimEnd_cons more notBlank] at tail_free
    rw [List.mem_append, not_or]
    exact ⟨shown_free, tail_free⟩
  · rw [found]
  · have column : line.column = Text.byteLength spaces + Text.byteLength shown := by
      rw [found, line_eq, Text.byteLength_append]
    rw [SourceError.caretWidth, text, (cut more).1, column, single, Nat.add_sub_cancel_left]

end Character

/-- A number is written in digits. -/
theorem notMem_toString {c : Char} (h : c.isDigit = false) (n : Nat) : c ∉ (toString n).toList := by
  intro mem
  rw [Nat.toString_eq_repr, Nat.repr_eq_ofList_toDigits, String.toList_ofList] at mem
  have digit : c.isDigit = true := Nat.isDigit_of_mem_toDigits (by decide) (by decide) mem
  rw [h] at digit
  cases digit

theorem notMem_caretLead (number bytes : Nat) {c : Char} (h : c ∉ [' ', '|', '-']) :
    c ∉ caretLead number bytes := by
  simp only [List.mem_cons, List.not_mem_nil, or_false, not_or] at h
  simp [caretLead, h]

/-- The caret is as far behind the character at fault as there are bytes that are not the first one of
a character in front of it on its line. -/
theorem exists_caretLines {e : SourceError} {source text : String} {before rest : List Char} {c : Char}
    (split : source.toList = before ++ c :: rest) (position : e.position = Text.byteLength before)
    (notBlank : Text.isBlank c = false) (drawn : e.snippet? source = some text) :
    ∃ under, CaretLines text.toList before c under ∧
      under.length + (lastLine before).length = (lead before).length + Text.byteLength (lastLine before) := by
  obtain ⟨spaces, shown, tail, line_eq, dropped, single, stripped, newlineFree, number, width⟩ :=
    exists_indentation split notBlank
  obtain ⟨head, snippet⟩ := e.exists_toList_snippet drawn
  rw [position, stripped, number, width, Nat.add_sub_cancel] at snippet
  have lead_eq : lead before = (toString (1 + before.count '\n')).toList ++ ' ' :: '|' :: ' ' :: shown := by
    rw [lead, dropped]
  refine ⟨caretLead (1 + before.count '\n') (Text.byteLength shown), ⟨⟨head, tail, ?_, ?_⟩, ?_, ?_⟩, ?_⟩
  · rw [snippet, lead_eq, List.append_assoc (toString _).toList]
    rfl
  · rw [lead_eq, List.append_assoc, List.mem_append, not_or]
    refine ⟨notMem_toString (by decide) _, ?_⟩
    simpa using newlineFree
  · exact notMem_caretLead _ _ (by decide)
  · exact notMem_caretLead _ _ (by decide)
  · rw [lead_eq, line_eq, Text.byteLength_append, single]
    simp only [caretLead, List.length_append, List.length_replicate, List.length_cons, String.length_toList]
    omega

/-- **The caret stands under the character at fault** exactly if all that is in front of this character
on its line takes one byte. -/
theorem lex_caret_iff {source text : String} {file : Option String} {e : SourceError}
    (short : Text.byteLength source.toList < 0x100000000) (failed : lex source file = .error e)
    (drawn : e.snippet? source = some text) :
    ∃ before c rest under, source.toList = before ++ c :: rest ∧ e.position = Text.byteLength before ∧
      e.fault.character? = some c ∧ CaretLines text.toList before c under ∧
      (under.length = (lead before).length ↔ ∀ d ∈ lastLine before, d.utf8Size = 1) := by
  obtain ⟨before, c, rest, split, position, character, notBlank⟩ := exists_split_of_lex_error short failed
  obtain ⟨under, lines, shift⟩ := exists_caretLines split position notBlank drawn
  refine ⟨before, c, rest, under, split, position, character, lines, ?_⟩
  rw [← Text.byteLength_eq_length_iff]
  omega

/-- A string with an accent in front of a stray character. -/
def accentedLine : String := "\"é\"#"

def accentedSnippet : String :=
  "Error: UnexpectedCharacter (Unexpected character \x60#\x60)\n-> shell\n  |\n1 | \"é\"#\n  | ----^"

theorem lex_accentedLine : lex accentedLine none = .error ⟨.strayCharacter '#', 4, "shell"⟩ :=
  eq_error_of_error? (by decide +kernel)

theorem snippet_accentedLine :
    SourceError.snippet? ⟨.strayCharacter '#', 4, "shell"⟩ accentedLine = some accentedSnippet := by
  decide +kernel

theorem lex_caret_iff_accentedLine :
    Text.byteLength accentedLine.toList < 0x100000000 ∧
      lex accentedLine none = .error ⟨.strayCharacter '#', 4, "shell"⟩ ∧
      SourceError.snippet? ⟨.strayCharacter '#', 4, "shell"⟩ accentedLine = some accentedSnippet ∧
      ∃ before c rest under, accentedLine.toList = before ++ c :: rest ∧ 4 = Text.byteLength before ∧
        some '#' = some c ∧ CaretLines accentedSnippet.toList before c under ∧
        (under.length = (lead before).length ↔ ∀ d ∈ lastLine before, d.utf8Size = 1) := by
  have short : Text.byteLength accentedLine.toList < 0x100000000 := by decide
  exact ⟨short, lex_accentedLine, snippet_accentedLine,
    lex_caret_iff short lex_accentedLine snippet_accentedLine⟩

/-- The caret is not always under the character at fault: here it is one too far to the right. -/
theorem not_forall_caret_under :
    ¬ ∀ (source text : String) (file : Option String) (e : SourceError)
        (before rest under : List Char) (c : Char),
      Text.byteLength source.toList < 0x100000000 → lex source file = .error e →
      e.snippet? source = some text → source.toList = before ++ c :: rest →
      e.position = Text.byteLength before → CaretLines text.toList before c under →
        under.length = (lead before).length := by
  intro h
  have lines : CaretLines accentedSnippet.toList ['"', 'é', '"'] '#' "  | ----".toList := by
    refine ⟨⟨"Error: UnexpectedCharacter (Unexpected character \x60#\x60)\n-> shell\n  |".toList, [], ?_, ?_⟩,
      by decide⟩
    · decide +kernel
    · decide +kernel
  have under := h accentedLine accentedSnippet none ⟨.strayCharacter '#', 4, "shell"⟩ ['"', 'é', '"'] []
    "  | ----".toList '#' (by decide) lex_accentedLine snippet_accentedLine (by decide) (by decide) lines
  revert under
  decide +kernel

end LoxReader
