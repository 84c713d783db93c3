import LoxReader.Grammar.Session
import LoxReader.Proofs.Grammar.Pending

/-!
# The cursor of a session

Whatever commands are given one after the other, the cursor stays in its list: each token that is
looked at stands there, the cursor never moves back, and it never comes behind the first end token.
Tokens are looked at in front of the cursor and just behind it only, so all this is said of the
places where the cursor stands while a command is carried out, also inside a reading that comes to
nothing.
-/

namespace LoxReader

open Cursor

/-! ### Where the cursor stands -/

/-- While a goal is read from `c`, the cursor stands at `x` at some time. -/
inductive Goal.Visits : Goal → Cursor → Cursor → Prop
  | start {goal c} : Visits goal c c
  | stop {goal c} : Visits goal c (goal.run c).cursor
  /-- While a goal is read that this one goes on with, whatever it comes to. -/
  | awaited {goal c goal' c' x xs due} : Awaits goal c goal' c' xs due → Visits goal' c' x →
      Visits goal c x

/-- A statement may begin in front of the cursor, or nothing is left. -/
def Cursor.AtStatement (c : Cursor) : Prop :=
  c.kind = .eof ∨ c.passed.kind = .semicolon ∨ c.token.isAmong statementWords

/-- On the way from `c` to where a statement may begin, the cursor comes to `x`. -/
inductive Cursor.Searches : Cursor → Cursor → Prop
  | refl {c} : Searches c c
  | next {c x} (goesOn : ¬ c.AtStatement) : Searches c.next x → Searches c x

/-- While a command is carried out at `c`, the cursor stands at `x` at some time. -/
inductive Command.Visits : Command → Cursor → Cursor → Prop
  | start {command c} : Visits command c c
  | stop {command c} : Visits command c (command.run c).cursor
  | readAll {c x} : Goal.Visits (.level .comma) c x → Visits .readAll c x
  | read {l c x} : Goal.Visits (.level l) c x → Visits (.read l) c x
  | toStatement {c x} : c.next.Searches x → Visits .toStatement c x

/-- Where the cursor stands when the event happens. -/
def Event.position : Event → Nat
  | entered _ i | reported i _ _ | abandoned i => i

/-- All events happen where the cursor has been. -/
def Located (visited : Cursor → Prop) (xs : List Event) : Prop :=
  ∀ event ∈ xs, ∃ x, visited x ∧ event.position = x.position

/-- In a session that begins at the first cursor, the command is given at the second one. -/
inductive Command.Given : List Command → Cursor → Command → Cursor → Prop
  | here {command commands c} : Given (command :: commands) c command c
  | later {command commands c command' d} : Given commands (command.run c).cursor command' d →
      Given (command :: commands) c command' d

variable {c d x : Cursor} {tokens : List Token} {command : Command}

/-! ### Reading moves on -/

/-- What follows a reply moves on from where the reply stops. -/
theorem Reply.exists_passes_andThen {r : Reply} {next : Expr → Cursor → Reply}
    (h : ∀ tree, ∃ ts, r.cursor.Passes ts (next tree r.cursor).cursor) :
    ∃ ts, r.cursor.Passes ts (r.andThen next).cursor := by
  obtain ⟨tree?, d, xs⟩ := r
  cases tree? with
  | none => exact ⟨[], .refl d⟩
  | some tree => exact h tree

theorem Cursor.exists_passes_step (c : Cursor) : ∃ ts, c.Passes ts c.next := by
  by_cases h : c.kind = .eof
  · rw [next_of_kind_eq h]
    exact ⟨[], .refl c⟩
  · exact ⟨_, passes_next h⟩

namespace Goal

variable {goal goal' : Goal} {c' : Cursor} {xs : List Event} {due : List Token}

/-- Reading on from `d`, and then on from there, moves on from what is in front of `d`. -/
theorem exists_passes_run_andThen {next : Expr → Cursor → Reply} (goal : Goal)
    (hd : ∃ ts, c.Passes ts d) (h : ∀ (tree : Expr) (e : Cursor), ∃ ts, e.Passes ts (next tree e).cursor) :
    ∃ ts, c.Passes ts ((goal.run d).andThen next).cursor := by
  refine exists_passes_trans hd (exists_passes_trans (goal.exists_passes_run d) ?_)
  exact Reply.exists_passes_andThen fun tree => h tree _

/-- A goal moves on from where the goals stop that it goes on with. -/
theorem Awaits.exists_passes_run (h : Awaits goal c goal' c' xs due) :
    ∃ ts, (goal'.run c').cursor.Passes ts (goal.run c).cursor := by
  have refl (d : Cursor) : ∃ ts, d.Passes ts d := ⟨[], .refl d⟩
  cases h with
  | forgiven hf ho =>
    rw [run, run, read_forgiven hf ho]
    exact Reply.exists_passes_andThen fun right => (chain _ _).exists_passes_run _
  | @forgivenChain rung _ right d _ hf ho hr =>
    have right : c.next.read rung.laterOperand = _ := hr.run_eq
    rw [run, run, read_forgiven hf ho, right, Reply.andThen_some]
    exact refl _
  | operand ho =>
    rw [run, run, read_operand ho]
    exact Reply.exists_passes_andThen fun left => (chain _ _).exists_passes_run _
  | @operandChain rung _ left d _ ho hl =>
    have left : c.read rung.firstOperand = _ := hl.run_eq
    rw [run, run, read_operand ho, left, Reply.andThen_some]
    exact refl _
  | link ho =>
    rw [run, run, readChain_link ho]
    exact Reply.exists_passes_andThen fun right => (chain _ _).exists_passes_run _
  | @linkChain rung _ _ right d _ ho hr =>
    have right : c.next.read rung.laterOperand = _ := hr.run_eq
    rw [run, run, readChain_link ho, right, Reply.andThen_some]
    exact refl _
  | condition =>
    rw [run, run, read_ternary]
    refine Reply.exists_passes_andThen fun condition => ?_
    split
    · refine (level .ternary).exists_passes_run_andThen (exists_passes_step _) fun onTrue e => ?_
      exact (level .ternary).exists_passes_run_andThen (exists_passes_skipColon e) fun _ => refl
    · exact refl _
  | @onTrue _ condition d _ hc hq =>
    have condition : c.read .equality = _ := hc.run_eq
    rw [run, run, read_ternary c, condition, Reply.andThen_some, if_pos ((sees_iff (by decide)).2 hq)]
    refine Reply.exists_passes_andThen fun onTrue => ?_
    exact (level .ternary).exists_passes_run_andThen (exists_passes_skipColon _) fun _ => refl
  | @onFalse _ condition d onTrue e _ _ hc hq ht =>
    have condition : c.read .equality = _ := hc.run_eq
    have onTrue : d.next.read .ternary = _ := ht.run_eq
    rw [run, run, read_ternary c, condition, Reply.andThen_some, if_pos ((sees_iff (by decide)).2 hq),
      onTrue, Reply.andThen_some]
    exact Reply.exists_passes_andThen fun onFalse => refl _
  | prefixed ho =>
    rw [run, run, read_prefixed ho]
    exact Reply.exists_passes_andThen fun right => refl _
  | primary ho =>
    rw [run, run, read_notPrefixed ho]
    exact refl _
  | group ho =>
    rw [run, run, read_group ho]
    refine Reply.exists_passes_andThen fun inner => ?_
    split
    · exact exists_passes_step _
    · exact refl _

/-- The places that are visited lie between the ones where the cursor starts and stops. -/
theorem Visits.between (h : Visits goal c x) :
    (∃ ts, c.Passes ts x) ∧ ∃ us, x.Passes us (goal.run c).cursor := by
  induction h with
  | start => exact ⟨⟨[], .refl _⟩, exists_passes_run _ _⟩
  | stop => exact ⟨exists_passes_run _ _, [], .refl _⟩
  | awaited ha _ ih =>
    exact ⟨exists_passes_trans ha.passes ih.1, exists_passes_trans ih.2 ha.exists_passes_run⟩

end Goal

/-! ### Where the events happen -/

namespace Located

variable {visited visited' : Cursor → Prop} {event : Event} {xs ys : List Event}

theorem nil : Located visited [] := fun _ h => absurd h List.not_mem_nil

theorem cons (hx : visited x) (position : event.position = x.position) (h : Located visited xs) :
    Located visited (event :: xs) := by
  intro y hy
  rcases List.mem_cons.1 hy with rfl | hy
  · exact ⟨x, hx, position⟩
  · exact h y hy

theorem append (h : Located visited xs) (h' : Located visited ys) : Located visited (xs ++ ys) := by
  intro y hy
  exact (List.mem_append.1 hy).elim (h y) (h' y)

theorem mono (h : Located visited xs) (sub : ∀ x, visited x → visited' x) : Located visited' xs := by
  intro y hy
  obtain ⟨x, hx, position⟩ := h y hy
  exact ⟨x, sub x hx, position⟩

end Located

namespace Goal

variable {goal goal' : Goal} {c' : Cursor} {e : Expr} {xs ys : List Event} {due : List Token}

theorem Awaits.located (h : Awaits goal c goal' c' xs due) (located : Located (Visits goal' c') ys) :
    Located (Visits goal c) ys :=
  located.mono fun _ hx => .awaited h hx

theorem Reads.located (h : Reads goal c e d xs) : Located (Visits goal c) xs := by
  induction h with
  | forgiven hf ho hr _ ihRight ihChain =>
    have right := Awaits.located (.forgiven hf ho) ihRight
    have chain := Awaits.located (.forgivenChain hf ho hr) ihChain
    exact .cons .start rfl (.cons .start rfl (right.append chain))
  | operand ho hl _ ihLeft ihChain =>
    have left := Awaits.located (.operand ho) ihLeft
    exact .cons .start rfl (left.append (Awaits.located (.operandChain ho hl) ihChain))
  | link ho hr _ ihRight ihChain =>
    have chain := Awaits.located (.linkChain ho hr) ihChain
    exact (Awaits.located (.link ho) ihRight).append chain
  | stop | leaf => exact .nil
  | choice hc hq ht _ ihCondition ihTrue ihFalse =>
    have condition := Awaits.located .condition ihCondition
    have onTrue := Awaits.located (.onTrue hc hq) ihTrue
    exact condition.append (onTrue.append (Awaits.located (.onFalse hc hq ht) ihFalse))
  | noChoice _ _ ih => exact Awaits.located .condition ih
  | prefixed ho _ ih => exact Awaits.located (.prefixed ho) ih
  | primary ho _ ih => exact Awaits.located (.primary ho) ih
  | group ho _ _ ih => exact Awaits.located (.group ho) ih

theorem Reads.visits (h : Reads goal c e d xs) : Visits goal c d := by
  have stop : Visits goal c (goal.run c).cursor := .stop
  rwa [h.run_eq] at stop

theorem Fails.visits (h : Fails goal c d xs) : Visits goal c d := by
  have stop : Visits goal c (goal.run c).cursor := .stop
  rwa [h.run_eq] at stop

theorem Fails.located (h : Fails goal c d xs) : Located (Visits goal c) xs := by
  induction h with
  | forgiven hf ho _ ih =>
    exact .cons .start rfl (.cons .start rfl (Awaits.located (.forgiven hf ho) ih))
  | forgivenChain hf ho hr _ ih =>
    have right := Awaits.located (.forgiven hf ho) hr.located
    have chain := Awaits.located (.forgivenChain hf ho hr) ih
    exact .cons .start rfl (.cons .start rfl (right.append chain))
  | operand ho _ ih => exact .cons .start rfl (Awaits.located (.operand ho) ih)
  | operandChain ho hl _ ih =>
    have left := Awaits.located (.operand ho) hl.located
    exact .cons .start rfl (left.append (Awaits.located (.operandChain ho hl) ih))
  | link ho _ ih => exact Awaits.located (.link ho) ih
  | linkChain ho hr _ ih =>
    have chain := Awaits.located (.linkChain ho hr) ih
    exact (Awaits.located (.link ho) hr.located).append chain
  | condition _ ih => exact Awaits.located .condition ih
  | onTrue hc hq _ ih =>
    exact (Awaits.located .condition hc.located).append (Awaits.located (.onTrue hc hq) ih)
  | onFalse hc hq ht _ ih =>
    have condition := Awaits.located .condition hc.located
    have onTrue := Awaits.located (.onTrue hc hq) ht.located
    exact condition.append (onTrue.append (Awaits.located (.onFalse hc hq ht) ih))
  | prefixed ho _ ih => exact Awaits.located (.prefixed ho) ih
  | primary ho _ ih => exact Awaits.located (.primary ho) ih
  | worthless hw hne => exact .cons (Fails.worthless hw hne).visits rfl .nil
  | group ho _ ih => exact Awaits.located (.group ho) ih
  | unclosed ho hi hd =>
    have inner := Awaits.located (.group ho) hi.located
    exact inner.append (.cons (.awaited (.group ho) hi.visits) rfl .nil)
  | stray => exact .cons .start rfl .nil

theorem located_run (goal : Goal) (c : Cursor) : Located (Visits goal c) (goal.run c).events := by
  rcases goal.ends c with ⟨e, d, xs, h⟩ | ⟨d, xs, h⟩
  · rw [h.run_eq]
    exact h.located
  · rw [h.run_eq]
    exact h.located

end Goal

/-! ### Looking for a statement moves on -/

namespace Cursor

theorem statementFrom_of_atStatement (h : c.AtStatement) :
    statementFrom c.passed c.position c.rest = c := by
  obtain ⟨i, t, ts⟩ := c
  cases ts with
  | nil => rfl
  | cons u us =>
    rw [statementFrom, if_pos]
    simpa [AtStatement, kind, token, or_assoc] using h

theorem statementFrom_of_not (h : ¬ c.AtStatement) :
    statementFrom c.passed c.position c.rest =
      statementFrom c.next.passed c.next.position c.next.rest := by
  have hne : c.kind ≠ .eof := fun hk => h (.inl hk)
  obtain ⟨t, ts, hr, -, ht, hn⟩ := rest_of_kind_ne hne
  rw [hn, hr, statementFrom, if_neg]
  rw [← ht, kind_token hne]
  simpa [AtStatement, or_assoc] using h

theorem searches_statementFrom (c : Cursor) :
    c.Searches (statementFrom c.passed c.position c.rest) := by
  induction hn : c.remaining using Nat.strongRecOn generalizing c with
  | ind n ih =>
    by_cases h : c.AtStatement
    · rw [statementFrom_of_atStatement h]
      exact .refl
    · have hlt := remaining_next_lt_of_kind_ne fun hk => h (.inl hk)
      rw [statementFrom_of_not h]
      exact .next h (ih _ (hn ▸ hlt) _ rfl)

theorem Searches.exists_passes (h : c.Searches x) : ∃ ts, c.Passes ts x := by
  induction h with
  | refl => exact ⟨[], .refl _⟩
  | next _ _ ih => exact Goal.exists_passes_trans (exists_passes_step _) ih

/-- The search goes on from each place that it comes to. -/
theorem Searches.statementFrom_eq (h : c.Searches x) :
    statementFrom c.passed c.position c.rest = statementFrom x.passed x.position x.rest := by
  induction h with
  | refl => rfl
  | next goesOn _ ih => rw [statementFrom_of_not goesOn, ih]

theorem Searches.between (h : c.next.Searches x) :
    (∃ ts, c.Passes ts x) ∧ ∃ us, x.Passes us c.toStatement := by
  refine ⟨Goal.exists_passes_trans c.exists_passes_step h.exists_passes, ?_⟩
  have stop : c.toStatement = statementFrom x.passed x.position x.rest := h.statementFrom_eq
  rw [stop]
  exact (searches_statementFrom x).exists_passes

end Cursor

/-! ### Commands move on -/

namespace Command

theorem exists_passes_run (command : Command) (c : Cursor) :
    ∃ ts, c.Passes ts (command.run c).cursor := by
  have refl : ∃ ts, c.Passes ts c := ⟨[], .refl c⟩
  cases command with
  | readAll =>
    have stop : (readAll.run c).cursor = (c.read .comma).cursor := c.readAll_cursor
    rw [stop]
    exact (Goal.level .comma).exists_passes_run c
  | read l => exact (Goal.level l).exists_passes_run c
  | next => exact c.exists_passes_step
  | nextIf kinds =>
    rw [run]
    split
    · exact c.exists_passes_step
    · exact refl
  | demand k fault =>
    rw [run]
    split
    · exact c.exists_passes_step
    · exact refl
  | toStatement =>
    have search := searches_statementFrom c.next
    exact Goal.exists_passes_trans c.exists_passes_step search.exists_passes
  | _ => exact refl

/-- The places that are visited lie between the ones where the cursor starts and stops. -/
theorem Visits.between (h : command.Visits c x) :
    (∃ ts, c.Passes ts x) ∧ ∃ us, x.Passes us (command.run c).cursor := by
  cases h with
  | start => exact ⟨⟨[], .refl _⟩, exists_passes_run _ _⟩
  | stop => exact ⟨exists_passes_run _ _, [], .refl _⟩
  | readAll h =>
    have stop : (Command.readAll.run c).cursor = (c.read .comma).cursor := c.readAll_cursor
    rw [stop]
    exact h.between
  | read h => exact h.between
  | toStatement h => exact h.between

theorem located_run (command : Command) (c : Cursor) :
    Located (command.Visits c) (command.run c).events := by
  cases command with
  | readAll =>
    have inside := (Goal.located_run (.level .comma) c).mono fun x => Visits.readAll
    have stop : readAll.Visits c c.readAll.cursor := .stop
    show Located _ c.readAll.events
    cases tree : (c.read .comma).tree? with
    | some e =>
      rw [readAll_of_some tree]
      exact inside
    | none =>
      rw [c.readAll_cursor] at stop
      rw [readAll_of_none tree]
      exact inside.append (.cons stop rfl .nil)
  | read l => exact (Goal.located_run (.level l) c).mono fun x => Visits.read
  | nextIf kinds =>
    rw [run]
    split <;> exact .nil
  | demand k fault =>
    rw [run]
    split
    · exact .nil
    · exact .cons .start rfl .nil
  | fail | failAt | report | reportAt => exact .cons .start rfl .nil
  | token | passed | kind | atEnd | sees | seesAny | next | toStatement => exact .nil

/-- What a command does that keeps to its list. -/
structure Keeps (tokens : List Token) (command : Command) (c : Cursor) : Prop where
  /-- The tokens that are looked at stand in the list. -/
  access : ∀ x, command.Visits c x → tokens[x.position]? = some x.token ∧ x.kind = x.token.kind ∧
    tokens[x.position - 1]? = some x.passed
  /-- The cursor does not move back. -/
  forward : ∀ x, command.Visits c x →
    c.position ≤ x.position ∧ x.position ≤ (command.run c).cursor.position
  /-- It does not come behind the first end token. -/
  bounded : ∀ x, command.Visits c x → x.position ≤ tokens.findIdx (·.kind = .eof)
  /-- What happens, happens at these places. -/
  located : Located (command.Visits c) (command.run c).events

end Command

theorem Cursor.In.position_le_findIdx (h : c.In tokens) :
    c.position ≤ tokens.findIdx (·.kind = .eof) := by
  have inside := h.position_lt
  refine List.le_findIdx_of_not inside fun i hi => ?_
  have mem : tokens[i] ∈ tokens.take c.position := List.mem_take_iff_getElem.2 ⟨i, by omega, rfl⟩
  simpa using h.running _ mem

/-- One command keeps to the list of the cursor. -/
theorem Cursor.In.keeps (h : c.In tokens) (command : Command) : command.Keeps tokens c := by
  have visited {x : Cursor} (hx : command.Visits c x) : x.In tokens := by
    obtain ⟨⟨ts, hp⟩, -⟩ := hx.between
    exact h.passes hp
  have bounded x (hx : command.Visits c x) := (visited hx).position_le_findIdx
  refine ⟨fun x hx => ?_, fun x hx => ?_, bounded, command.located_run c⟩
  · exact ⟨(visited hx).getElem?_position, (visited hx).kind_token.symm, (visited hx).passed⟩
  · obtain ⟨⟨ts, hp⟩, us, hq⟩ := hx.between
    rw [hq.position, hp.position]
    omega

theorem Cursor.In.run (h : c.In tokens) (command : Command) : (command.run c).cursor.In tokens := by
  obtain ⟨ts, hp⟩ := command.exists_passes_run c
  exact h.passes hp

namespace Command

variable {commands : List Command}

/-- A cursor of a list stays one, command after command. -/
theorem Given.in (h : Given commands c command d) (hc : c.In tokens) : d.In tokens := by
  induction h with
  | here => exact hc
  | later _ ih => exact ih (hc.run _)

/-- Where the cursor stands at the start of a session and after each of its commands. -/
def positions (commands : List Command) (c : Cursor) : List Nat :=
  c.position :: (runAll commands c).map fun turn => turn.cursor.position

theorem le_of_mem_positions (commands : List Command) (c : Cursor) :
    ∀ i ∈ positions commands c, c.position ≤ i := by
  induction commands generalizing c with
  | nil => simp [positions, runAll]
  | cons command commands ih =>
    intro i hi
    rcases List.mem_cons.1 hi with rfl | hi
    · exact Nat.le_refl _
    · obtain ⟨ts, hp⟩ := command.exists_passes_run c
      have later := ih (command.run c).cursor i hi
      rw [hp.position] at later
      omega

theorem positions_pairwise (commands : List Command) (c : Cursor) :
    (positions commands c).Pairwise (· ≤ ·) := by
  induction commands generalizing c with
  | nil => simp [positions, runAll]
  | cons command commands ih =>
    refine List.pairwise_cons.2 ⟨fun i hi => ?_, ih (command.run c).cursor⟩
    exact le_of_mem_positions (command :: commands) c i (List.mem_cons_of_mem _ hi)

/-- **A session keeps to its list**, whatever is done in it. -/
theorem runAll_keeps {t : Token} (last : tokens.getLast? = some t) (ends : t.kind = .eof)
    (commands : List Command) :
    ∃ start, ofTokens? tokens = some start ∧
      (∀ command c, Given commands start command c → command.Keeps tokens c) ∧
      (positions commands start).Pairwise (· ≤ ·) := by
  obtain ⟨start, hs⟩ := exists_ofTokens? last ends
  refine ⟨start, hs, fun command c given => ?_, positions_pairwise commands start⟩
  exact (given.in (in_of_ofTokens? hs)).keeps command

section Sample

open Token

/-- A group that is not closed in front of an end token, with more tokens behind that one. -/
theorem runAll_keeps_of_innerEnd :
    let tokens := [loose .openParen "(", loose .comma ",", loose .eof "", loose .kwNil "nil",
      loose .eof ""]
    let commands := [.sees .openParen, .read .unary, .readAll, .toStatement, .next, .read .primary,
      .report .openGroup, .demand .eof .noExpression, .nextIf [.eof], .passed]
    let start : Cursor := ⟨0, loose .openParen "(", tokens⟩
    positions commands start = [0, 0, 1, 1, 2, 2, 2, 2, 2, 2, 2] ∧
      ∀ command c, Given commands start command c → command.Keeps tokens c := by
  intro tokens commands start
  have last : tokens.getLast? = some (loose .eof "") := rfl
  obtain ⟨c, hc, keeps, -⟩ := runAll_keeps last rfl commands
  obtain rfl : start = c := Option.some.inj hc
  exact ⟨by decide +kernel, keeps⟩

end Sample

end Command
end LoxReader
