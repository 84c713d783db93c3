import LoxReader.Grammar.Session
import LoxReader.Proofs.Grammar.Echo

/-!
# Reading looks at nothing else

To read an expression, the tokens that are passed are looked at and the one in front of which the
cursor stops.  Wherever these tokens stand, the reading comes to the same.
-/

namespace LoxReader

/-- The tokens from one position up to another one and with it. -/
def tokensBetween (tokens : List Token) (first last : Nat) : List Token :=
  (tokens.drop first).take (last + 1 - first)

/-- The commands that read an expression. -/
def Command.Reads : Command → Prop
  | .readAll | .read _ => True
  | _ => False

namespace Cursor

variable {c c' m d : Cursor} {ts tokens : List Token} {n : Nat}

/-- Where a position is, seen from another cursor. -/
def shift (c c' : Cursor) (position : Nat) : Nat := c'.position + (position - c.position)

theorem shift_add (c c' : Cursor) (i : Nat) : c.shift c' (c.position + i) = c'.position + i := by
  rw [shift, Nat.add_sub_cancel_left]

theorem tokensBetween_eq (h : c.rest = tokens.drop c.position) :
    tokensBetween tokens c.position (c.position + n) = c.rest.take (n + 1) := by
  rw [tokensBetween, h, Nat.add_assoc, Nat.add_sub_cancel_left]

/-- The same tokens at another place, in front of a token that ends a reading in the same way. -/
theorem Passes.echoes {m' : Cursor} (hp : c.Passes ts m) (hp' : c'.Passes ts m')
    (behind : m'.kind = m.kind ∨ m'.kind ∉ steeringKinds) : Echoes id (c.shift c') c m c' m' :=
  ⟨⟨ts, hp, by rwa [List.map_id], fun t _ => t.kept_id⟩, c.shift_add c', behind⟩

/-- The tokens up to `m` and the one in front of it are found again behind `c'`. -/
theorem exists_echo (hp : c.Passes ts m) (hm : m.In tokens)
    (same : c'.rest.take (ts.length + 1) = c.rest.take (ts.length + 1)) :
    ∃ m', c'.Passes ts m' ∧ m'.kind = m.kind ∧ m'.token = m.token ∧
      Echoes id (c.shift c') c m c' m' := by
  obtain ⟨t, us, hr, -⟩ := hm.exists_rest
  have front : c.rest.take (ts.length + 1) = ts ++ [t] := by
    rw [hp.rest, hr, List.append_cons]
    exact List.take_left' (by simp)
  have split : c'.rest = ts ++ t :: c'.rest.drop (ts.length + 1) := by
    rw [List.append_cons, ← front, ← same, List.take_append_drop]
  obtain ⟨m', hp', hr'⟩ := passes_of_rest split hp.running
  have hk : m'.kind = m.kind := by rw [kind_of_rest hr', kind_of_rest hr]
  exact ⟨m', hp', hk, by rw [token_of_rest hr', token_of_rest hr], hp.echoes hp' (.inl hk)⟩

theorem take_of_le {k : Nat} (h : k ≤ n) (same : c'.rest.take (n + 1) = c.rest.take (n + 1)) :
    c'.rest.take (k + 1) = c.rest.take (k + 1) := by
  have := congrArg (List.take (k + 1)) same
  rwa [List.take_take, List.take_take, Nat.min_eq_left (by omega)] at this

end Cursor

/-- The reply `r'` to a call at `c'` is the reply `r` to a call at `c`, moved there. -/
structure Reply.Moved (r : Reply) (c c' : Cursor) (r' : Reply) : Prop where
  tree : r'.tree? = r.tree?
  passed : ∃ ts, c.Passes ts r.cursor ∧ c'.Passes ts r'.cursor
  events : r'.events = r.events.map (Event.map id (c.shift c'))

namespace Goal

open Cursor

variable {goal : Goal} {c c' m d : Cursor} {e : Expr} {xs : List Event} {tokens tokens' : List Token}

theorem Reads.elsewhere (h : Reads goal c e d xs) (hc : c.In tokens)
    (same : c'.rest.take (d.position - c.position + 1) = c.rest.take (d.position - c.position + 1)) :
    (goal.run c).Moved c c' (goal.run c') := by
  obtain ⟨ts, hp⟩ := h.passes
  rw [hp.position, Nat.add_sub_cancel_left] at same
  obtain ⟨d', hp', -, -, he⟩ := exists_echo hp (hc.passes hp) same
  have again := h.echoes he
  rw [Goal.map_id, Expr.map_id] at again
  rw [h.run_eq, again.run_eq]
  exact ⟨rfl, ⟨ts, hp, hp'⟩, rfl⟩

theorem Fails.elsewhere (h : Fails goal c d xs) (hc : c.In tokens)
    (same : c'.rest.take (d.position - c.position + 1) = c.rest.take (d.position - c.position + 1)) :
    (goal.run c).Moved c c' (goal.run c') := by
  obtain ⟨m, hm⟩ := h.exists_failsAt
  obtain ⟨ts, hp⟩ := hm.passes
  have le : ts.length ≤ d.position - c.position := by
    have := hp.position
    obtain rfl | ⟨rfl, -⟩ := hm.cursor_cases
    · omega
    · have := m.position_le_next
      omega
  obtain ⟨m', hp', hk, ht, he⟩ := exists_echo hp (hc.passes hp) (take_of_le le same)
  obtain ⟨d', again, stops⟩ := hm.echoes he hk ht m.token.kept_id
  rw [Goal.map_id] at again
  have again := again.fails
  have passed : ∃ ts, c.Passes ts d ∧ c'.Passes ts d' := by
    obtain ⟨rfl, rfl⟩ | ⟨rfl, rfl⟩ := stops
    · exact ⟨ts, hp, hp'⟩
    · by_cases hne : m.kind = .eof
      · rw [next_of_kind_eq hne, next_of_kind_eq (hk.trans hne)]
        exact ⟨ts, hp, hp'⟩
      · have hq' := passes_next (hk.trans_ne hne)
        rw [ht] at hq'
        exact ⟨_, hp.trans (passes_next hne), hp'.trans hq'⟩
  rw [h.run_eq, again.run_eq]
  exact ⟨rfl, passed, rfl⟩

/-- What a goal comes to in one list, it comes to wherever the same tokens stand in another one. -/
theorem elsewhere (goal : Goal) (hc : c.In tokens) (hc' : c'.rest = tokens'.drop c'.position)
    (same : tokensBetween tokens' c'.position
        (c'.position + ((goal.run c).cursor.position - c.position)) =
      tokensBetween tokens c.position (goal.run c).cursor.position) :
    (goal.run c).Moved c c' (goal.run c') := by
  obtain ⟨ts, hp⟩ := goal.exists_passes_run c
  rw [hp.position, Nat.add_sub_cancel_left, tokensBetween_eq hc', tokensBetween_eq hc.rest] at same
  have stop : (goal.run c).cursor.position - c.position = ts.length := by
    rw [hp.position, Nat.add_sub_cancel_left]
  rcases goal.ends c with ⟨e, d, xs, h⟩ | ⟨d, xs, h⟩
  · rw [h.run_eq] at stop
    exact h.elsewhere hc (stop ▸ same)
  · rw [h.run_eq] at stop
    exact h.elsewhere hc (stop ▸ same)

end Goal

/-! ### Commands -/

section Turns

open Cursor

variable {c c' : Cursor} {tokens tokens' : List Token}

/-- The turn at `c'` is the turn at `c`, moved there. -/
structure Turn.Moved (turn : Turn) (c c' : Cursor) (turn' : Turn) : Prop where
  answer : turn'.answer = turn.answer
  passed : ∃ ts, c.Passes ts turn.cursor ∧ c'.Passes ts turn'.cursor
  position : turn'.cursor.position = c'.position + (turn.cursor.position - c.position)
  events : turn'.events = turn.events.map (Event.map id (c.shift c'))
  diagnostics : diagnostics turn'.events = diagnostics turn.events

/-- The diagnostics do not depend on the positions. -/
theorem diagnostics_map_id (g : Nat → Nat) (xs : List Event) :
    diagnostics (xs.map (Event.map id g)) = diagnostics xs :=
  (diagnostics_map id g xs).trans (List.map_id _)

theorem Reply.Moved.position {r r' : Reply} (h : r.Moved c c' r') :
    r'.cursor.position = c.shift c' r.cursor.position := by
  obtain ⟨ts, hp, hp'⟩ := h.passed
  rw [hp.position, hp'.position, shift_add]

/-- The event of an abandoned expression moves with the others. -/
theorem Reply.Moved.readAll (h : (c.read .comma).Moved c c' (c'.read .comma)) :
    c.readAll.Moved c c' c'.readAll := by
  cases ht : (c.read .comma).tree? with
  | some e =>
    rw [readAll_of_some ht, readAll_of_some (h.tree.trans ht)]
    exact h
  | none =>
    rw [readAll_of_none ht, readAll_of_none (h.tree.trans ht)]
    refine ⟨h.tree, h.passed, ?_⟩
    simp only [h.events, h.position, List.map_append, List.map_cons, List.map_nil, Event.map]

theorem Reply.Moved.turn {r r' : Reply} (h : r.Moved c c' r') : r.turn.Moved c c' r'.turn := by
  refine ⟨?_, h.passed, h.position, h.events, ?_⟩
  · rw [Reply.turn, Reply.turn, h.tree]
  · rw [Reply.turn, Reply.turn, h.events, diagnostics_map_id]

/-- **Reading looks at nothing else** than the tokens from the cursor up to the one it stops in front
of.  Wherever the same tokens stand, in whatever list and behind whatever token just passed, the same
command answers the same, passes the same tokens and reports the same. -/
theorem Command.run_elsewhere {command : Command} (reads : command.Reads) (here : c.In tokens)
    (there : c'.rest = tokens'.drop c'.position)
    (same : tokensBetween tokens' c'.position
        (c'.position + ((command.run c).cursor.position - c.position)) =
      tokensBetween tokens c.position (command.run c).cursor.position) :
    (command.run c).Moved c c' (command.run c') := by
  cases command with
  | readAll =>
    have stop : (readAll.run c).cursor = (c.read .comma).cursor := c.readAll_cursor
    rw [stop] at same
    exact ((Goal.level .comma).elsewhere here there same).readAll.turn
  | read l => exact ((Goal.level l).elsewhere here there same).turn
  | _ => exact reads.elim

section Sample

open Token

/-- `( == "`, where the string has no value, behind another token and in front of other ones. -/
theorem Command.run_elsewhere_of_worthless :
    let tokens := [loose .kwNil "nil", loose .openParen "(", loose .equals "==",
      loose .string "\"", loose .comma ",", loose .eof ""]
    let tokens' := [loose .openParen "(", loose .equals "==", loose .string "\"", loose .comma ",",
      loose .kwTrue "true", loose .eof ""]
    let c : Cursor := ⟨1, loose .kwNil "nil", tokens.drop 1⟩
    let c' : Cursor := ⟨0, loose .openParen "(", tokens'⟩
    (readAll.run c).Moved c c' (readAll.run c') ∧ (readAll.run c).cursor.position = 4 ∧
      reports (readAll.run c').events =
        [⟨1, loose .equals "==", .missingOperand⟩, ⟨3, loose .string "\"", .noExpression⟩] := by
  intro tokens tokens' c c'
  have here : c.In tokens := ⟨⟨loose .eof "", rfl, rfl⟩, rfl, rfl, by decide⟩
  have stop : (readAll.run c).cursor.position = 4 := by decide +kernel
  refine ⟨?_, stop, by decide +kernel⟩
  refine Command.run_elsewhere trivial here rfl ?_
  rw [stop]
  decide

end Sample

end Turns
end LoxReader
