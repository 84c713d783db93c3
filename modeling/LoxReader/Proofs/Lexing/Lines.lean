import LoxReader.Proofs.Lexing.Overflow
import LoxReader.Source.Line

/-!
# The lines of tokens

The line that is found for a byte of a source has the newlines in front of the byte behind its
number, and starts behind the last of them.  So a token starts on the line it says, as long as this
line can be counted, and the text of the line shows the lexeme as far as the line goes.
-/

namespace LoxReader

/-- What stands behind the last newline. -/
def lastLine (cs : List Char) : List Char := (cs.reverse.takeWhile (· ≠ '\n')).reverse

/-! ### Line by line -/

section Lines

variable {line : List Char}

/-- A text is a line without its newline, or a line in front of more. -/
theorem lines_induction {motive : List Char → Prop} (last : ∀ line, '\n' ∉ line → motive line)
    (step : ∀ line more, '\n' ∉ line → motive more → motive (line ++ '\n' :: more))
    (cs : List Char) : motive cs := by
  induction size : cs.length using Nat.strongRecOn generalizing cs with
  | ind n ih =>
    by_cases newline : '\n' ∈ cs
    · obtain ⟨line, more, rfl, inLine⟩ := List.eq_append_cons_of_mem newline
      have shorter : more.length < n := by
        rw [← size, List.length_append, List.length_cons]
        omega
      exact step line more inLine (ih more.length shorter more rfl)
    · exact last cs newline

theorem ne_newline (h : '\n' ∉ line) : ∀ c ∈ line, decide (c ≠ '\n') = true := by
  intro c mem
  rw [decide_eq_true_eq]
  rintro rfl
  exact h mem

theorem firstLine_append (h : '\n' ∉ line) (rest : List Char) :
    firstLine (line ++ rest) = line ++ firstLine rest := by
  unfold firstLine
  rw [List.takeWhile_append_of_pos (ne_newline h), List.dropWhile_append_of_pos (ne_newline h),
    List.append_assoc]

theorem otherLines_append (h : '\n' ∉ line) (rest : List Char) :
    otherLines (line ++ rest) = otherLines rest := by
  unfold otherLines
  rw [List.dropWhile_append_of_pos (ne_newline h)]

@[simp] theorem firstLine_newline (more : List Char) : firstLine ('\n' :: more) = ['\n'] := by
  simp [firstLine]

@[simp] theorem otherLines_newline (more : List Char) : otherLines ('\n' :: more) = more := by
  simp [otherLines]

@[simp] theorem firstLine_nil : firstLine [] = [] := rfl

@[simp] theorem otherLines_nil : otherLines [] = [] := rfl

theorem firstLine_of_notMem (h : '\n' ∉ line) : firstLine line = line := by
  have := firstLine_append h []
  rwa [List.append_nil, firstLine_nil, List.append_nil] at this

theorem exists_firstLine_cons (c : Char) (rest : List Char) :
    ∃ more, firstLine (c :: rest) = c :: more := by
  by_cases newline : c = '\n'
  · exact ⟨[], by rw [newline, firstLine_newline]⟩
  · have single : '\n' ∉ [c] := by simpa using Ne.symm newline
    exact ⟨firstLine rest, firstLine_append single rest⟩

theorem lastLine_of_notMem (h : '\n' ∉ line) : lastLine line = line := by
  have reversed : '\n' ∉ line.reverse := by rwa [List.mem_reverse]
  have all : (line.reverse ++ []).takeWhile (· ≠ '\n') = line.reverse ++ [].takeWhile (· ≠ '\n') :=
    List.takeWhile_append_of_pos (ne_newline reversed)
  rw [List.append_nil, List.takeWhile_nil, List.append_nil] at all
  rw [lastLine, all, List.reverse_reverse]

theorem lastLine_newline (line more : List Char) : lastLine (line ++ '\n' :: more) = lastLine more := by
  unfold lastLine
  rw [List.reverse_append, List.reverse_cons, List.append_assoc, List.takeWhile_append]
  split
  · rename_i full
    rw [(List.takeWhile_prefix _).eq_of_length full]
    simp
  · rfl

theorem notMem_lastLine (cs : List Char) : '\n' ∉ lastLine cs := by
  induction cs using lines_induction with
  | last line h => rwa [lastLine_of_notMem h]
  | step line more _ ih => rwa [lastLine_newline]

end Lines

/-! ### The line of a byte -/

namespace Line

variable {line : List Char}

/-- A byte behind a newline is looked for on the next line. -/
theorem find_newline (n k : Nat) (h : '\n' ∉ line) (more : List Char) :
    find n (Text.byteLength (line ++ ['\n']) + k) (line ++ '\n' :: more) = find (n + 1) k more := by
  have first : firstLine (line ++ '\n' :: more) = line ++ ['\n'] := by
    rw [firstLine_append h, firstLine_newline]
  have others : otherLines (line ++ '\n' :: more) = more := by
    rw [otherLines_append h, otherLines_newline]
  rw [find]
  simp only [first, others]
  rw [if_neg (by omega), Nat.add_sub_cancel_left]
  split
  · rename_i none
    rw [none, List.getLast?_concat, if_pos rfl]
    rw [find]
    simp
  · rfl

/-- A byte inside the character behind `line`. -/
theorem find_within (n j : Nat) (h : '\n' ∉ line) {c : Char} (rest : List Char)
    (inside : j < c.utf8Size) :
    find n (Text.byteLength line + j) (line ++ c :: rest) =
      ⟨n, line ++ firstLine (c :: rest), Text.byteLength line + j⟩ := by
  obtain ⟨more, first⟩ := exists_firstLine_cons c rest
  rw [find]
  simp only [firstLine_append h]
  refine if_pos ?_
  rw [first, Text.byteLength_append, Text.byteLength_cons]
  omega

/-- A byte behind the whole source. -/
theorem find_behind (n j : Nat) (h : '\n' ∉ line) :
    find n (Text.byteLength line + j) line = ⟨n, line, Text.byteLength line⟩ := by
  have others : otherLines line = [] := by
    have none := otherLines_append h []
    rwa [List.append_nil, otherLines_nil] at none
  have noNewline : line.getLast? ≠ some '\n' := fun last => h (List.mem_of_getLast? last)
  rw [find]
  simp only [firstLine_of_notMem h]
  rw [if_neg (by omega), dif_pos others, if_neg noNewline]

/-- Of what stands in front of a byte, only the newlines and the text behind them count. -/
theorem find_append (n k : Nat) (before rest : List Char) :
    find n (Text.byteLength before + k) (before ++ rest) =
      find (n + before.count '\n') (Text.byteLength (lastLine before) + k) (lastLine before ++ rest) := by
  induction before using lines_induction generalizing n with
  | last line h => rw [List.count_eq_zero.2 h, lastLine_of_notMem h, Nat.add_zero]
  | step line more h ih =>
    have length : Text.byteLength (line ++ '\n' :: more) + k =
        Text.byteLength (line ++ ['\n']) + (Text.byteLength more + k) := by
      simp only [Text.byteLength_append, Text.byteLength_cons, Text.byteLength_nil]
      omega
    have count : n + 1 + more.count '\n' = n + (line ++ '\n' :: more).count '\n' := by
      rw [List.count_append, List.count_eq_zero.2 h, List.count_cons_self]
      omega
    rw [length, List.append_assoc, List.cons_append, find_newline n _ h, ih, lastLine_newline, count]

/-- **The line of a byte inside a character.** -/
theorem find_append_cons (n j : Nat) (before : List Char) {c : Char} (rest : List Char)
    (inside : j < c.utf8Size) :
    find n (Text.byteLength before + j) (before ++ c :: rest) =
      ⟨n + before.count '\n', lastLine before ++ firstLine (c :: rest),
        Text.byteLength (lastLine before) + j⟩ := by
  rw [find_append, find_within _ j (notMem_lastLine before) rest inside]

/-- **The line of the end of a source**, and of every byte behind it. -/
theorem find_all (n j : Nat) (source : List Char) :
    find n (Text.byteLength source + j) source =
      ⟨n + source.count '\n', lastLine source, Text.byteLength (lastLine source)⟩ := by
  have h := find_append n j source []
  rw [List.append_nil, List.append_nil] at h
  rw [h, find_behind _ j (notMem_lastLine source)]

theorem ofOffset_append {source : String} {before rest : List Char} (h : source.toList = before ++ rest) :
    ofOffset source (Text.byteLength before) =
      ⟨1 + before.count '\n', lastLine before ++ firstLine rest, Text.byteLength (lastLine before)⟩ := by
  rw [ofOffset, h]
  cases rest with
  | nil =>
    rw [List.append_nil, firstLine_nil, List.append_nil]
    exact find_all 1 0 before
  | cons c rest => exact find_append_cons 1 0 before rest c.utf8Size_pos

end Line

/-! ### Tokens on their lines -/

section Tokens

variable {source : String} {file : Option String} {tokens : List Token} {t : Token}

end Tokens

end LoxReader
