import LoxReader.Grammar.Reply
import LoxReader.Token.Value

/-!
# Reading an expression

The levels of the grammar as one recursive function on cursors.  A call either moves the cursor
forward or goes on to a tighter level where it is, so it comes to an end on every list of tokens.

An operator of a forgiving rung that stands where an operand should begin is reported, and reading
goes on behind it; every other fault ends the reading.
-/

namespace LoxReader

/-! ### Goals -/

/-- What is to be read. -/
inductive Goal where
  /-- An expression of a level. -/
  | level (level : Level)
  /-- The rest of a chain of operators of a rung, behind the operand `left`. -/
  | chain (rung : Rung) (left : Expr)

/-- A chain may be empty, all else takes at least one token. -/
def Goal.strict : Goal → Bool
  | level _ => true
  | chain _ _ => false

/-- How many goals can follow each other at one token. -/
def Goal.rank : Goal → Nat
  | level l => 8 - l.rank
  | chain _ _ => 0

theorem Goal.rank_le (goal : Goal) : goal.rank ≤ 8 := by
  cases goal <;> simp [rank]

theorem Goal.rank_firstOperand_lt (rung : Rung) :
    (level rung.firstOperand).rank < (level (.rung rung)).rank := by
  have := rung.rank_lt_rank_firstOperand
  have := rung.firstOperand.rank_lt
  simp only [rank]
  omega

/-- Behind the next token every goal is smaller than every goal here. -/
theorem Goal.measure_lt {goal goal' : Goal} {c d : Cursor} (h : d.remaining < c.remaining) :
    9 * d.remaining + goal.rank < 9 * c.remaining + goal'.rank := by
  have := goal.rank_le
  omega

/-- Over a colon, if there is one. -/
def Cursor.skipColon (c : Cursor) : Cursor := if c.sees .colon then c.next else c

theorem Cursor.remaining_skipColon_le (c : Cursor) : c.skipColon.remaining ≤ c.remaining := by
  unfold skipColon
  split
  · exact c.remaining_next_le
  · exact Nat.le_refl _

/-! ### The levels -/

/-- The reply to a goal at a cursor. -/
def Goal.reply (goal : Goal) (c : Cursor) : { r : Reply // r.Follows goal.strict c } :=
  match goal with
  | .level (.rung rung) =>
    if h : rung.forgives && c.seesAny rung.operators then
      have hc := Cursor.remaining_next_lt
        (Cursor.atEnd_eq_false_of_seesAny (Bool.and_eq_true_iff.1 h).2)
      let r := Reply.bind (Goal.reply (.level rung.laterOperand) c.next) fun right d _ =>
        Goal.reply (.chain rung (.missingLeft c.token right)) d
      ⟨r.1.after [.entered rung c.position, .reported c.position c.token .missingOperand],
        r.2.of_lt hc⟩
    else
      let r := Reply.bind (Goal.reply (.level rung.firstOperand) c) fun left d _ =>
        Goal.reply (.chain rung left) d
      ⟨r.1.after [.entered rung c.position], r.2⟩
  | .chain rung left =>
    if h : c.seesAny rung.operators then
      have hc := Cursor.remaining_next_lt (Cursor.atEnd_eq_false_of_seesAny h)
      let r := Reply.bind (Goal.reply (.level rung.laterOperand) c.next) fun right d _ =>
        Goal.reply (.chain rung (.binary left c.token right)) d
      ⟨r.1, r.2.of_lt hc⟩
    else ⟨.done left c, Nat.le_refl _, fun h => by simp [Goal.strict] at h⟩
  | .level .ternary =>
    Reply.bind (Goal.reply (.level .equality) c) fun condition d _ =>
      if h : d.sees .question then
        have hd := Cursor.remaining_next_lt (Cursor.atEnd_eq_false_of_sees h)
        let r := Reply.bind (Goal.reply (.level .ternary) d.next) fun onTrue e _ =>
          have he := e.remaining_skipColon_le
          let r := Reply.bind (Goal.reply (.level .ternary) e.skipColon) fun onFalse f _ =>
            ⟨.done (.ternary condition d.token onTrue e.skipColon.passed onFalse) f,
              Nat.le_refl _, fun h => by simp at h⟩
          ⟨r.1, Nat.le_trans r.2.1 he, fun h => by simp at h⟩
        ⟨r.1, r.2.of_lt hd⟩
      else ⟨.done condition d, Nat.le_refl _, fun h => by simp at h⟩
  | .level .unary =>
    if h : c.seesAny unaryOperators then
      have hc := Cursor.remaining_next_lt (Cursor.atEnd_eq_false_of_seesAny h)
      let r := Reply.bind (Goal.reply (.level .unary) c.next) fun right d _ =>
        ⟨.done (.unary c.token right) d, Nat.le_refl _, fun h => by simp at h⟩
      ⟨r.1, r.2.of_lt hc⟩
    else
      let r := Goal.reply (.level .primary) c
      ⟨r.1, r.2⟩
  | .level .primary =>
    if h : c.atEnd then
      ⟨.fail c c.token .noExpression, Reply.fail_follows (Nat.le_refl _)⟩
    else
      have hc := Cursor.remaining_next_lt (by simpa using h)
      match c.kind with
      | .kwFalse => ⟨.done (.literal (.boolean false)) c.next, Reply.done_follows hc⟩
      | .kwTrue => ⟨.done (.literal (.boolean true)) c.next, Reply.done_follows hc⟩
      | .kwNil => ⟨.done (.literal .nil) c.next, Reply.done_follows hc⟩
      | .number | .string =>
        match c.token.value? with
        | some value => ⟨.done (.literal value) c.next, Reply.done_follows hc⟩
        | none =>
          ⟨.fail c.next c.token .noExpression, Reply.fail_follows (Nat.le_of_lt hc)⟩
      | .openParen =>
        let r := Reply.bind (Goal.reply (.level .ternary) c.next) fun inner d _ =>
          if d.sees .closeParen then
            ⟨.done (.grouping inner) d.next, d.remaining_next_le, fun h => by simp at h⟩
          else
            ⟨.fail d d.token .openGroup, Reply.fail_follows (Nat.le_refl _)⟩
        ⟨r.1, r.2.of_lt hc⟩
      | _ => ⟨.fail c c.token .noExpression, Reply.fail_follows (Nat.le_refl _)⟩
termination_by 9 * c.remaining + goal.rank
decreasing_by
  · exact Goal.measure_lt hc
  · exact Goal.measure_lt (by omega)
  · exact Nat.add_lt_add_left (Goal.rank_firstOperand_lt rung) _
  · exact Goal.measure_lt ‹_›
  · exact Goal.measure_lt hc
  · exact Goal.measure_lt (by omega)
  · exact Nat.add_lt_add_left (by decide) _
  · exact Goal.measure_lt (by omega)
  · exact Goal.measure_lt (by omega)
  · exact Goal.measure_lt hc
  · exact Nat.add_lt_add_left (by decide) _
  · exact Goal.measure_lt hc

/-! ### The levels as equations -/

namespace Cursor

/-- Reads an expression of a level. -/
def read (c : Cursor) (level : Level) : Reply := (Goal.reply (.level level) c).1

/-- Reads the rest of a chain of operators. -/
def readChain (c : Cursor) (rung : Rung) (left : Expr) : Reply := (Goal.reply (.chain rung left) c).1

theorem read_rung (c : Cursor) (rung : Rung) :
    c.read (.rung rung) =
      if rung.forgives && c.seesAny rung.operators then
        ((c.next.read rung.laterOperand).andThen fun right d =>
          d.readChain rung (.missingLeft c.token right)).after
            [.entered rung c.position, .reported c.position c.token .missingOperand]
      else
        ((c.read rung.firstOperand).andThen fun left d => d.readChain rung left).after
          [.entered rung c.position] := by
  rw [read, Goal.reply.eq_def]
  dsimp only
  by_cases h : rung.forgives && c.seesAny rung.operators
  · rw [dif_pos h, if_pos h]
    exact congrArg (Reply.after · _) (Reply.bind_val fun _ _ _ => rfl)
  · rw [dif_neg h, if_neg h]
    exact congrArg (Reply.after · _) (Reply.bind_val fun _ _ _ => rfl)

theorem readChain_eq (c : Cursor) (rung : Rung) (left : Expr) :
    c.readChain rung left =
      if c.seesAny rung.operators then
        (c.next.read rung.laterOperand).andThen fun right d =>
          d.readChain rung (.binary left c.token right)
      else .done left c := by
  rw [readChain, Goal.reply.eq_def]
  dsimp only
  by_cases h : c.seesAny rung.operators
  · rw [dif_pos h, if_pos h]
    exact Reply.bind_val fun _ _ _ => rfl
  · rw [dif_neg h, if_neg h]

theorem read_ternary (c : Cursor) :
    c.read .ternary =
      (c.read .equality).andThen fun condition d =>
        if d.sees .question then
          (d.next.read .ternary).andThen fun onTrue e =>
            (e.skipColon.read .ternary).andThen fun onFalse f =>
              .done (.ternary condition d.token onTrue e.skipColon.passed onFalse) f
        else .done condition d := by
  rw [read, Goal.reply.eq_def]
  dsimp only
  refine Reply.bind_val fun condition d _ => ?_
  split
  · refine Reply.bind_val fun onTrue e _ => ?_
    exact Reply.bind_val fun _ _ _ => rfl
  · rfl

theorem read_unary (c : Cursor) :
    c.read .unary =
      if c.seesAny unaryOperators then
        (c.next.read .unary).andThen fun right d => .done (.unary c.token right) d
      else c.read .primary := by
  rw [read, Goal.reply.eq_def]
  dsimp only
  by_cases h : c.seesAny unaryOperators
  · rw [dif_pos h, if_pos h]
    exact Reply.bind_val fun _ _ _ => rfl
  · rw [dif_neg h, if_neg h, read]

theorem read_primary (c : Cursor) :
    c.read .primary =
      match c.kind with
      | .kwFalse => .done (.literal (.boolean false)) c.next
      | .kwTrue => .done (.literal (.boolean true)) c.next
      | .kwNil => .done (.literal .nil) c.next
      | .number | .string =>
        match c.token.value? with
        | some value => .done (.literal value) c.next
        | none => .fail c.next c.token .noExpression
      | .openParen =>
        (c.next.read .ternary).andThen fun inner d =>
          if d.sees .closeParen then .done (.grouping inner) d.next
          else .fail d d.token .openGroup
      | _ => .fail c c.token .noExpression := by
  rw [read, Goal.reply.eq_def]
  dsimp only
  split
  · rename_i h
    rw [show c.kind = .eof by simpa [atEnd] using h]
  · split
    · rfl
    · rfl
    · rfl
    · split <;> rfl
    · split <;> rfl
    · refine Reply.bind_val fun inner d _ => ?_
      split <;> rfl
    · rfl

/-- Reads one whole expression, commas included.  What stands behind it is left alone. -/
def readAll (c : Cursor) : Reply :=
  let r := c.read .comma
  match r.tree? with
  | some _ => r
  | none => { r with events := r.events ++ [.abandoned r.cursor.position] }

end Cursor
end LoxReader
