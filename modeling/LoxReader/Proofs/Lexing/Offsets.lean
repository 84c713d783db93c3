import LoxReader.Proofs.Lexing.Derivation

/-!
# Where the tokens of a source stand

The span of a token counts the bytes in front of it and up to its end, as long as the source is so
short that its offsets can be written down.
-/

namespace LoxReader

/-- The text from the byte `start` up to the byte `stop`, if both are between two characters. -/
def Text.slice? (start stop : Nat) (cs : List Char) : Option (List Char) :=
  if stop < start then none
  else do
    let behind ← dropBytes? start cs
    let rest ← dropBytes? (stop - start) behind
    return behind.take (behind.length - rest.length)

theorem Text.slice?_append (before text rest : List Char) :
    slice? (byteLength before) (byteLength before + byteLength text) (before ++ (text ++ rest)) =
      some text := by
  have bound : ¬ byteLength before + byteLength text < byteLength before := by omega
  have length : byteLength before + byteLength text - byteLength before = byteLength text := by omega
  simp [slice?, bound, length, dropBytes?_append]

/-- Both ends of a slice are between two characters, in their order. -/
theorem Text.slice?_eq_some_iff {start stop : Nat} {cs text : List Char} :
    slice? start stop cs = some text ↔
      ∃ before rest, cs = before ++ (text ++ rest) ∧ start = byteLength before ∧
        stop = byteLength before + byteLength text := by
  constructor
  · intro sliced
    unfold slice? at sliced
    split at sliced
    · cases sliced
    · obtain ⟨behind, dropped, inner⟩ := Option.bind_eq_some_iff.1 sliced
      obtain ⟨rest, dropped', kept⟩ := Option.bind_eq_some_iff.1 inner
      obtain ⟨before, rfl, rfl⟩ := dropBytes?_eq_some_iff.1 dropped
      obtain ⟨middle, rfl, length⟩ := dropBytes?_eq_some_iff.1 dropped'
      have taken : (middle ++ rest).take ((middle ++ rest).length - rest.length) = text :=
        Option.some.inj kept
      rw [List.length_append, Nat.add_sub_cancel, List.take_left] at taken
      subst taken
      exact ⟨before, rest, rfl, rfl, by omega⟩
  · rintro ⟨before, rest, rfl, rfl, rfl⟩
    exact slice?_append before text rest

/-! ### Offsets of a short source -/

theorem Place.span_start_after {before : List Char} {bytes : Nat} (file : String)
    (h : Text.byteLength before + bytes < 0x100000000) :
    (Place.start.after before).span file bytes =
      ⟨Text.byteLength before, Text.byteLength before + bytes, file⟩ := by
  have offset : (Place.start.after before).offset = Text.byteLength before := Nat.zero_add _
  rw [span, offset, wrap32_of_lt h, wrap32_of_lt (by omega)]

theorem Text.byteLength_pos {cs : List Char} (h : cs ≠ []) : 0 < byteLength cs := by
  obtain ⟨c, cs, rfl⟩ := List.exists_cons_of_ne_nil h
  have := c.utf8Size_pos
  rw [byteLength_cons]
  omega

section Short

variable {file : String} {source before rest : List Char} {t : Token}

theorem Token.ReadAt.span_eq (h : t.ReadAt file (Place.start.after before))
    (split : source = before ++ (t.lexeme.toList ++ rest))
    (short : Text.byteLength source < 0x100000000) :
    t.span = ⟨Text.byteLength before, Text.byteLength (before ++ t.lexeme.toList), file⟩ := by
  rw [split, Text.byteLength_append, Text.byteLength_append] at short
  rw [h.span, Text.byteLength_append]
  exact Place.span_start_after file (by omega)

theorem Token.span_atEnd (file : String) (short : Text.byteLength source < 0x100000000) :
    (Token.atEnd file (Place.start.after source)).span =
      ⟨Text.byteLength source, Text.byteLength source, file⟩ :=
  Place.span_start_after file short

end Short

end LoxReader
