import LoxReader.Proofs.Grammar.Follow
import LoxReader.Proofs.Grammar.Yield

/-!
# Reading goes as far as it can

A level that has come to a tree stands in front of a token that carries nothing on: no operator of
the level itself or of a tighter one, and no question mark that a choice could be made of.  In a
factor the operand behind an operator has taken all operators there are, so its loop finds at most
one.
-/

namespace LoxReader

/-- The cursor stands in its list in front of a token that carries no expression of the level on. -/
structure Level.Stops (tokens : List Token) (l : Level) (c : Cursor) : Prop where
  token : tokens[c.position]? = some c.token
  operator : ∀ r : Rung, l.rank ≤ (rung r).rank → c.token.kind ∉ r.operators
  question : l.rank ≤ ternary.rank → c.token.kind ≠ .question

theorem Level.operators_subset_carriers_of_le {l : Level} {r : Rung}
    (h : l.rank ≤ (rung r).rank) : r.operators ⊆ l.carriers := by
  intro k hk
  unfold carriers
  refine List.mem_append_left _ (List.mem_flatMap.2 ⟨r, ?_, hk⟩)
  rw [List.mem_filter, decide_eq_true_eq]
  refine ⟨?_, h⟩
  cases r <;> decide

theorem Level.question_mem_carriers {l : Level} (h : l.rank ≤ ternary.rank) :
    .question ∈ l.carriers := by
  unfold carriers
  rw [if_pos h]
  exact List.mem_append_right _ (List.mem_singleton_self _)

theorem Level.stops_of_notMem {tokens : List Token} {l : Level} {c : Cursor} (hc : c.In tokens)
    (h : c.kind ∉ l.carriers) : l.Stops tokens c := by
  rw [← hc.kind_token] at h
  refine ⟨hc.getElem?_position, fun r hr hk => ?_, fun hq hk => ?_⟩
  · exact h (operators_subset_carriers_of_le hr hk)
  · exact h (hk ▸ question_mem_carriers hq)

/-! ### How often a chain goes on -/

/-- The tree of a first operand and the operators behind it, each with its right operand. -/
def Expr.linked (first : Expr) (links : List (Token × Expr)) : Expr :=
  links.foldl (fun left link => .binary left link.1 link.2) first

namespace Cursor

theorem remaining_read_next_lt {c : Cursor} {kinds : List Kind} (h : c.seesAny kinds) (l : Level) :
    (c.next.read l).cursor.remaining < c.remaining :=
  Nat.lt_of_le_of_lt (Goal.reply (.level l) c.next).2.1
    (remaining_next_lt (atEnd_eq_false_of_seesAny h))

/-- How many operators a chain of the rung goes on over.  Behind the last one the right operand may
come to nothing. -/
def turns (rung : Rung) (c : Cursor) : Nat :=
  if _ : c.seesAny rung.operators then
    match (c.next.read rung.laterOperand).tree? with
    | some _ => turns rung (c.next.read rung.laterOperand).cursor + 1
    | none => 1
  else 0
termination_by c.remaining
decreasing_by exact remaining_read_next_lt ‹_› _

/-- What is read in front of the loop of a rung: the first operand, or an operator without one and
the operand behind it. -/
def opening (rung : Rung) (c : Cursor) : Reply :=
  if rung.forgives && c.seesAny rung.operators then
    (c.next.read rung.laterOperand).andThen fun right d => .done (.missingLeft c.token right) d
  else c.read rung.firstOperand

/-- How often the loop of a rung goes round that is read at the cursor.  It begins behind the first
operand, and not at all if there is none. -/
def loops (rung : Rung) (c : Cursor) : Nat :=
  match (c.opening rung).tree? with
  | some _ => turns rung (c.opening rung).cursor
  | none => 0

variable {c d : Cursor} {rung : Rung} {e right : Expr} {xs : List Event}

theorem turns_stop (h : c.kind ∉ rung.operators) : c.turns rung = 0 := by
  rw [turns, dif_neg (mt seesAny_operators.1 h)]

theorem turns_link (h : c.kind ∈ rung.operators)
    (hr : Goal.Reads (.level rung.laterOperand) c.next right d xs) :
    c.turns rung = d.turns rung + 1 := by
  have reply : c.next.read rung.laterOperand = ⟨some right, d, xs⟩ := hr.run_eq
  rw [turns, dif_pos (seesAny_operators.2 h), reply]

theorem turns_broken (h : c.kind ∈ rung.operators)
    (hr : Goal.Fails (.level rung.laterOperand) c.next d xs) : c.turns rung = 1 := by
  have reply : c.next.read rung.laterOperand = ⟨none, d, xs⟩ := hr.run_eq
  rw [turns, dif_pos (seesAny_operators.2 h), reply]

theorem opening_forgiven (hf : rung.forgives) (ho : c.kind ∈ rung.operators)
    (hr : Goal.Reads (.level rung.laterOperand) c.next right d xs) :
    c.opening rung = ⟨some (.missingLeft c.token right), d, xs⟩ := by
  have reply : c.next.read rung.laterOperand = ⟨some right, d, xs⟩ := hr.run_eq
  rw [opening, if_pos (forgives_and_seesAny_iff.2 ⟨hf, ho⟩), reply, Reply.andThen_some]
  simp [Reply.done, Reply.after]

theorem opening_operand (ho : rung.forgives → c.kind ∉ rung.operators)
    (hr : Goal.Reads (.level rung.firstOperand) c e d xs) : c.opening rung = ⟨some e, d, xs⟩ := by
  have reply : c.read rung.firstOperand = ⟨some e, d, xs⟩ := hr.run_eq
  rw [opening, if_neg, reply]
  intro h
  obtain ⟨forgives, operator⟩ := forgives_and_seesAny_iff.1 h
  exact ho forgives operator

theorem loops_of_opening (h : c.opening rung = ⟨some e, d, xs⟩) : c.loops rung = d.turns rung := by
  rw [loops, h]

/-- The right operand of a factor is a factor, which stops in front of no operator of a factor. -/
theorem turns_factor_le (c : Cursor) : c.turns .factor ≤ 1 := by
  by_cases ho : c.kind ∈ Rung.factor.operators
  · obtain ⟨right, d, xs, hr⟩ | ⟨d, xs, hr⟩ := Goal.ends (.level .factor) c.next
    · have closed : d.kind ∉ Level.factor.carriers := hr.closes
      have stopped : d.turns .factor = 0 := turns_stop (Level.notMem_carriers_rung.1 closed).1
      exact Nat.le_of_eq (by rw [turns_link ho hr, stopped])
    · exact Nat.le_of_eq (turns_broken ho hr)
  · rw [turns_stop ho]
    exact Nat.zero_le 1

theorem loops_factor_le (c : Cursor) : c.loops .factor ≤ 1 := by
  rw [loops]
  split
  · exact turns_factor_le _
  · exact Nat.zero_le 1

end Cursor

namespace Goal

open Cursor

variable {goal : Goal} {c d : Cursor} {e : Expr} {xs : List Event}

/-- Each turn of a loop has made one node, and the first of them stands upon what was read in front
of the loop. -/
def Folds (goal : Goal) (c : Cursor) (e : Expr) : Prop :=
  match goal with
  | .level (.rung rung) => ∃ first links, (c.opening rung).tree? = some first ∧
    e = first.linked links ∧ links.length = c.loops rung
  | .level _ => True
  | .chain rung left => ∃ links, e = left.linked links ∧ links.length = c.turns rung

theorem Reads.folds (h : Reads goal c e d xs) : goal.Folds c e := by
  induction h with
  | forgiven hf ho hr _ _ ihChain =>
    obtain ⟨links, tree, turns⟩ := ihChain
    have opening := opening_forgiven hf ho hr
    exact ⟨_, links, by rw [opening], tree, by rw [turns, loops_of_opening opening]⟩
  | operand ho hl _ _ ihChain =>
    obtain ⟨links, tree, turns⟩ := ihChain
    have opening := opening_operand ho hl
    exact ⟨_, links, by rw [opening], tree, by rw [turns, loops_of_opening opening]⟩
  | @link rung left c right _ _ _ _ _ ho hr _ _ ihChain =>
    obtain ⟨links, tree, turns⟩ := ihChain
    refine ⟨(c.token, right) :: links, tree, ?_⟩
    rw [List.length_cons, turns, turns_link ho hr]
  | stop ho => exact ⟨[], rfl, (turns_stop ho).symm⟩
  | choice | noChoice | prefixed | primary | leaf | group => trivial

end Goal

/-- **Reading goes as far as it can.**  A level that comes to a tree, and a whole expression that
does, ends in front of a token that carries it on no more.  The loop of a rung begins with the operand
that was read in front of it and makes a node each time it goes round, and that of a factor goes round
once at most. -/
theorem Cursor.read_maximal {tokens : List Token} {c : Cursor} (hc : c.In tokens) :
    (∀ l e, (c.read l).tree? = some e → l.Stops tokens (c.read l).cursor) ∧
      (∀ e, c.readAll.tree? = some e → ∃ t, tokens[c.readAll.cursor.position]? = some t ∧
        (∀ r : Rung, t.kind ∉ r.operators) ∧ t.kind ≠ .question) ∧
      (∀ r e, (c.read (.rung r)).tree? = some e →
        ∃ first links, (c.opening r).tree? = some first ∧ e = first.linked links ∧
          links.length = c.loops r) ∧
      c.loops .factor ≤ 1 := by
  have stops l e (tree : (c.read l).tree? = some e) : l.Stops tokens (c.read l).cursor := by
    have reads := Goal.reads_of_tree?_eq_some tree
    exact Level.stops_of_notMem (reads.in hc) reads.closes
  refine ⟨stops, fun e tree => ?_, fun r e tree => ?_, c.loops_factor_le⟩
  · obtain ⟨d, xs, reads⟩ := exists_reads_of_readAll tree
    have reply : c.read .comma = ⟨some e, d, xs⟩ := reads.run_eq
    have stop := stops .comma e (by rw [reply])
    rw [← c.readAll_cursor] at stop
    exact ⟨_, stop.token, fun r => stop.operator r (Nat.zero_le _), stop.question (Nat.zero_le _)⟩
  · exact (Goal.reads_of_tree?_eq_some tree).folds

section Sample

open Token

/-- `nil / true / false !`, in front of an operator that begins another expression. -/
theorem Cursor.read_maximal_of_divisions :
    let tokens := [loose .kwNil "nil", loose .slash "/", loose .kwTrue "true", loose .slash "/",
      loose .kwFalse "false", loose .not "!", loose .eof ""]
    let c : Cursor := ⟨0, loose .kwNil "nil", tokens⟩
    let quotient : Expr := .binary (.literal .nil) (loose .slash "/")
      (.binary (.literal (.boolean true)) (loose .slash "/") (.literal (.boolean false)))
    (c.read .factor).tree? = some quotient ∧ (c.read .factor).cursor.position = 5 ∧
      Level.factor.Stops tokens (c.read .factor).cursor ∧
      (c.opening .factor).tree? = some (.literal .nil) ∧
      (∃ first links, (c.opening .factor).tree? = some first ∧ quotient = first.linked links ∧
        links.length = c.loops .factor) ∧
      c.loops .factor = 1 ∧ c.loops .factor ≤ 1 ∧
      c.readAll.tree? = some quotient ∧ c.readAll.cursor.position = 5 ∧
      ∃ t, tokens[c.readAll.cursor.position]? = some t ∧ (∀ r : Rung, t.kind ∉ r.operators) ∧
        t.kind ≠ .question := by
  intro tokens c quotient
  have hc : c.In tokens := in_of_ofTokens? (by decide)
  obtain ⟨stops, ends, folds, once⟩ := Cursor.read_maximal hc
  have factor : (c.read .factor).tree? = some quotient := by decide +kernel
  have whole : c.readAll.tree? = some quotient := by decide +kernel
  exact ⟨factor, by decide +kernel, stops _ quotient factor, by decide +kernel,
    folds .factor quotient factor, by decide +kernel, once, whole, by decide +kernel,
    ends quotient whole⟩

end Sample

end LoxReader
