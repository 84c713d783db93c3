import LoxReader.Text.Bytes

/-!
# Lines of a source

A newline ends its line and belongs to it.  A source that ends with a newline, or is empty, has an
empty last line.
-/

namespace LoxReader

/-- A line with a place on it. -/
structure Line where
  /-- Counted from one. -/
  number : Nat
  /-- The line with the newline that ends it. -/
  text : List Char
  /-- Bytes from the start of the line to the place. -/
  column : Nat
deriving DecidableEq

/-- The first line, with its newline if there is one. -/
def firstLine (cs : List Char) : List Char :=
  cs.takeWhile (· ≠ '\n') ++ (cs.dropWhile (· ≠ '\n')).take 1

/-- What stands behind the first line. -/
def otherLines (cs : List Char) : List Char := (cs.dropWhile (· ≠ '\n')).drop 1

theorem firstLine_append_otherLines (cs : List Char) : firstLine cs ++ otherLines cs = cs := by
  rw [firstLine, otherLines, List.append_assoc, List.take_append_drop,
    List.takeWhile_append_dropWhile]

theorem length_otherLines_lt {cs : List Char} (h : otherLines cs ≠ []) :
    (otherLines cs).length < cs.length := by
  have hcs : cs ≠ [] := by rintro rfl; exact h rfl
  have hfirst : firstLine cs ≠ [] := by
    obtain ⟨c, rest, rfl⟩ := List.exists_cons_of_ne_nil hcs
    by_cases hc : c = '\n' <;> simp [firstLine, hc]
  have := congrArg List.length (firstLine_append_otherLines cs)
  have := List.length_pos_iff.2 hfirst
  rw [List.length_append] at *
  omega

namespace Line

/-- The line of `cs` on which the byte `offset` is, if the first line has this number.  Offsets
from the end on are at the end of the last line. -/
def find (number offset : Nat) (cs : List Char) : Line :=
  let line := firstLine cs
  if offset < Text.byteLength line then ⟨number, line, offset⟩
  else if h : otherLines cs = [] then
    if line.getLast? = some '\n' then ⟨number + 1, [], 0⟩
    else ⟨number, line, Text.byteLength line⟩
  else find (number + 1) (offset - Text.byteLength line) (otherLines cs)
termination_by cs.length
decreasing_by exact length_otherLines_lt h

/-- The line of a source on which a byte is. -/
def ofOffset (source : String) (offset : Nat) : Line := find 1 offset source.toList

end Line
end LoxReader
