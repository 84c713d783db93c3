import LoxReader.Proofs.Grammar.Locality

/-!
# Reading sees kinds and values only

Of a token, reading looks at the kind, and of a number or a string at the value.  Where other tokens
with the same kinds and values stand in the place of the ones in a list, reading comes to the same,
with those tokens in the operators of the tree and in the reports: it commutes with the renaming
(`Goal.run_map`).
-/

namespace LoxReader

open Cursor

/-! ### What a renaming does -/

section Map

variable (f : Token → Token)

/-- The cursor at the same position of the renamed list. -/
def Cursor.map (c : Cursor) : Cursor := ⟨c.position, f c.passed, c.rest.map f⟩

def Reply.map (r : Reply) : Reply :=
  ⟨r.tree?.map (Expr.map f), r.cursor.map f, r.events.map (Event.map f id)⟩

def Answer.map : Answer → Answer
  | token t => token (f t)
  | tree e => tree (e.map f)
  | answer => answer

def Turn.map (turn : Turn) : Turn :=
  ⟨turn.answer.map f, turn.cursor.map f, turn.events.map (Event.map f id)⟩

/-- The tokens of the list are read alike under both names. -/
structure Renames (tokens : List Token) : Prop where
  kind : ∀ t ∈ tokens, (f t).kind = t.kind
  value : ∀ t ∈ tokens, t.kind = .number ∨ t.kind = .string → (f t).value? = t.value?

end Map

variable {f : Token → Token} {tokens ts : List Token} {t : Token} {c c' d m : Cursor}

theorem Renames.kept (h : Renames f tokens) (mem : t ∈ tokens) : t.Kept f := by
  have kind := h.kind t mem
  refine ⟨kind, ?_⟩
  unfold Token.leaf?
  rw [kind]
  split
  · rfl
  · rfl
  · rfl
  · exact h.value t mem (.inl ‹_›)
  · exact h.value t mem (.inr ‹_›)
  · rfl

/-! ### Cursors of a renamed list -/

namespace Cursor

theorem token_map (c : Cursor) : (c.map f).token = f c.token := by
  unfold token map
  cases c.rest <;> rfl

/-- A cursor of the renamed list is the renamed cursor of the list at its position. -/
theorem In.eq_map (hc : c.In tokens) (hc' : c'.In (tokens.map f)) (same : c'.position = c.position) :
    c' = c.map f := by
  obtain ⟨i, passed', rest'⟩ := c'
  obtain rfl : i = c.position := same
  have rest : rest' = (tokens.map f).drop c.position := hc'.rest
  have passed : (tokens.map f)[c.position - 1]? = some passed' := hc'.passed
  rw [List.getElem?_map, hc.passed] at passed
  rw [← List.map_drop, ← hc.rest] at rest
  cases passed
  rw [rest]
  rfl

theorem In.token_mem (hc : c.In tokens) : c.token ∈ tokens :=
  List.mem_of_getElem? hc.getElem?_position

theorem In.kind_map (hc : c.In tokens) (h : Renames f tokens) : (c.map f).kind = c.kind := by
  obtain ⟨t, us, rest, -⟩ := hc.exists_rest
  have front : (c.map f).rest = f t :: us.map f := by
    rw [map, rest]
    rfl
  rw [kind_of_rest front, kind_of_rest rest, ← token_of_rest rest]
  exact h.kind _ hc.token_mem

theorem Passes.map (hp : c.Passes ts d) (kinds : ∀ t ∈ ts, (f t).kind = t.kind) :
    (c.map f).Passes (ts.map f) (d.map f) := by
  refine ⟨?_, ?_, ?_, ?_⟩
  · show c.rest.map f = ts.map f ++ d.rest.map f
    rw [hp.rest, List.map_append]
  · show d.position = c.position + (ts.map f).length
    rw [hp.position, List.length_map]
  · show f d.passed = (ts.map f).getLast?.getD (f c.passed)
    rw [hp.passed, List.getLast?_map]
    cases ts.getLast? <;> rfl
  · refine List.forall_mem_map.2 fun t mem => ?_
    rw [kinds t mem]
    exact hp.running t mem

theorem In.next_map (hc : c.In tokens) (h : Renames f tokens) : (c.map f).next = c.next.map f := by
  have kind := hc.kind_map h
  by_cases hne : c.kind = .eof
  · rw [next_of_kind_eq hne, next_of_kind_eq (kind.trans hne)]
  · obtain ⟨t, us, rest, notEnd, -, next⟩ := rest_of_kind_ne hne
    have front : (c.map f).rest = f t :: us.map f := by
      rw [map, rest]
      rfl
    rw [kind_of_rest front] at kind
    rw [next, next_of_rest front (kind.trans_ne hne)]
    rfl

/-- What is passed in the list has its echo in the renamed list. -/
theorem In.echoes_map (hc : c.In tokens) (h : Renames f tokens) (hp : c.Passes ts d) :
    Echoes f id c d (c.map f) (d.map f) := by
  have renamed := hp.map fun t mem => h.kind t (hc.mem_of_passes hp mem)
  refine ⟨⟨ts, hp, renamed, fun t mem => h.kept (hc.mem_of_passes hp mem)⟩, fun i => rfl, .inl ?_⟩
  exact (hc.passes hp).kind_map h

end Cursor

/-! ### Reading a renamed list -/

/-- **Reading commutes with renaming.** -/
theorem Goal.run_map (goal : Goal) (hc : c.In tokens) (h : Renames f tokens) :
    (goal.map f).run (c.map f) = (goal.run c).map f := by
  rcases goal.ends c with ⟨e, d, xs, reads⟩ | ⟨d, xs, fails⟩
  · obtain ⟨ts, hp⟩ := reads.passes
    rw [reads.run_eq, (reads.echoes (hc.echoes_map h hp)).run_eq]
    rfl
  · obtain ⟨m, failsAt⟩ := fails.exists_failsAt
    obtain ⟨ts, hp⟩ := failsAt.passes
    have hm := hc.passes hp
    obtain ⟨d', again, stops⟩ :=
      failsAt.echoes (hc.echoes_map h hp) (hm.kind_map h) m.token_map (h.kept hm.token_mem)
    have stop : d' = d.map f := by
      obtain ⟨rfl, rfl⟩ | ⟨rfl, rfl⟩ := stops
      · rfl
      · exact hm.next_map h
    rw [fails.run_eq, again.fails.run_eq, stop]
    rfl

theorem Cursor.readAll_map (hc : c.In tokens) (h : Renames f tokens) :
    (c.map f).readAll = c.readAll.map f := by
  have comma : (c.map f).read .comma = (c.read .comma).map f := (Goal.level .comma).run_map hc h
  cases tree : (c.read .comma).tree? with
  | some e =>
    have tree' : ((c.map f).read .comma).tree? = some (e.map f) := by
      rw [comma, Reply.map, tree]
      rfl
    rw [readAll_of_some tree, readAll_of_some tree', comma]
  | none =>
    have tree' : ((c.map f).read .comma).tree? = none := by
      rw [comma, Reply.map, tree]
      rfl
    rw [readAll_of_none tree, readAll_of_none tree', comma]
    simp [Reply.map, Event.map, Cursor.map]

theorem Reply.turn_map (r : Reply) : (r.map f).turn = r.turn.map f := by
  obtain ⟨tree?, c, xs⟩ := r
  cases tree? <;> rfl

/-- **Reading is blind to everything but kinds and values.** In a list with other tokens, each of
the kind of the one it stands for and with its value if this is a number or a string, the same command
at the same position stops at the same position, with the tree and the reports renamed. -/
theorem Command.run_renamed {command : Command} (reads : command.Reads) (here : c.In tokens)
    (there : c'.In (tokens.map f)) (same : c'.position = c.position) (renames : Renames f tokens) :
    command.run c' = (command.run c).map f ∧
      diagnostics (command.run c').events =
        (diagnostics (command.run c).events).map (Diagnostic.map f) := by
  obtain rfl := here.eq_map there same
  have turn : command.run (c.map f) = (command.run c).map f := by
    cases command with
    | readAll => exact (congrArg Reply.turn (readAll_map here renames)).trans (Reply.turn_map _)
    | read l =>
      exact (congrArg Reply.turn ((Goal.level l).run_map here renames)).trans (Reply.turn_map _)
    | _ => exact reads.elim
  rw [turn]
  exact ⟨rfl, diagnostics_map f id _⟩

section Sample

open Token

/-- The token without its text and its place. -/
def Token.bare (t : Token) : Token := ⟨t.kind, "", t.value?, 0, .nowhere⟩

/-- `, "a" ? * 2 nil`, where a colon and an operand were left out, without the texts. -/
theorem Command.run_renamed_of_bare :
    let tokens := [loose .comma ",", loose .string "\"a\"", loose .question "?", loose .star "*",
      loose .number "2", loose .kwNil "nil", loose .eof ""]
    let c : Cursor := ⟨1, loose .comma ",", tokens.drop 1⟩
    let c' : Cursor := ⟨1, bare (loose .comma ","), (tokens.map bare).drop 1⟩
    readAll.run c' = (readAll.run c).map bare ∧
      diagnostics (readAll.run c').events = [⟨bare (loose .star "*"), "Missing left operand."⟩] := by
  intro tokens c c'
  have here : c.In tokens := ⟨⟨loose .eof "", rfl, rfl⟩, rfl, rfl, by decide⟩
  have there : c'.In (tokens.map bare) := ⟨⟨bare (loose .eof ""), rfl, rfl⟩, rfl, rfl, by decide⟩
  have renames : Renames bare tokens := ⟨by decide, by decide +kernel⟩
  have reads : readAll.Reads := trivial
  obtain ⟨turn, reported⟩ := Command.run_renamed reads here there rfl renames
  refine ⟨turn, reported.trans ?_⟩
  decide +kernel

end Sample

end LoxReader
