import LoxReader.Text.Bytes
import LoxReader.Token.Basic

/-!
# Places in a source

How far a source has been read, and the bare reading head that moves over it byte by byte.
-/

namespace LoxReader

/-- A byte offset and the line it is on, which is counted in 32 bits. -/
structure Place where
  offset : Nat
  line : Nat
  line_lt : line < 0x100000000
deriving DecidableEq

namespace Place

def start : Place := ⟨0, 1, by decide⟩

/-- The place some bytes and lines further on.  Behind the last line comes line zero. -/
def moved (bytes lines : Nat) (p : Place) : Place :=
  ⟨p.offset + bytes, wrap32 (p.line + lines), wrap32_lt _⟩

/-- The place behind a text.  A newline ends a line, nothing else does. -/
def after (p : Place) (text : List Char) : Place :=
  p.moved (Text.byteLength text) (text.count '\n')

/-- The span of the next `bytes` bytes. -/
def span (p : Place) (file : String) (bytes : Nat) : Span :=
  ⟨wrap32 p.offset, wrap32 (p.offset + bytes), file⟩

@[simp] theorem moved_zero (p : Place) : p.moved 0 0 = p := by
  simp [moved, wrap32_of_lt p.line_lt]

theorem moved_moved (p : Place) (bytes bytes' lines lines' : Nat) :
    (p.moved bytes lines).moved bytes' lines' = p.moved (bytes + bytes') (lines + lines') := by
  simp only [moved, wrap32_wrap32_add, Nat.add_assoc]

@[simp] theorem after_nil (p : Place) : p.after [] = p := p.moved_zero

theorem after_append (p : Place) (s t : List Char) : p.after (s ++ t) = (p.after s).after t := by
  rw [after, after, after, moved_moved, Text.byteLength_append, List.count_append]

end Place

/-- The name that a source goes by; one without a name of its own was typed in. -/
def fileName (file : Option String) : String := file.getD "shell"

/-- A head over a source.  It can be moved anywhere, past the end and inside a character too. -/
structure ReadingHead where
  source : String
  file : String
  place : Place

namespace ReadingHead

def start (source file : String) : ReadingHead := ⟨source, file, .start⟩

/-- Further by some bytes. -/
def move (h : ReadingHead) (bytes : Nat) : ReadingHead :=
  { h with place := { h.place with offset := h.place.offset + bytes } }

def atEnd (h : ReadingHead) : Bool := Text.byteLength h.source.toList ≤ h.place.offset

def position (h : ReadingHead) : Nat := wrap32 h.place.offset

def span (h : ReadingHead) (bytes : Nat) : Span := h.place.span h.file bytes

/-- What is still to be read, if the head stands between two characters. -/
def ahead? (h : ReadingHead) : Option (List Char) :=
  Text.dropBytes? h.place.offset h.source.toList

end ReadingHead
end LoxReader
