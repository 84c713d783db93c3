import LoxReader.Proofs.Grammar.Sessions
import Mathlib.Order.Bounds.Defs

/-!
# Going on at the next statement

A search for a statement stops at the first place behind the token it passes where one may begin.
It moves the cursor forward unless this is at the end, and no other command moves it back; so a
session with as many searches as there are tokens in front of the first end token comes to this one,
whatever else is done in it.
-/

namespace LoxReader

open Cursor

/-- A statement may begin at this place of a list, or there is its end. -/
inductive StatementAt (tokens : List Token) : Nat → Prop
  | ended {j t} (here : tokens[j]? = some t) (ends : t.kind = .eof) : StatementAt tokens j
  | word {j t} (here : tokens[j]? = some t) (begins : t.kind ∈ statementWords) :
    StatementAt tokens j
  | separated {j t} (before : tokens[j]? = some t) (separates : t.kind = .semicolon) :
    StatementAt tokens (j + 1)

/-- The command looks for a statement. -/
def Command.isSearch : Command → Bool
  | toStatement => true
  | _ => false

/-- An expression is read and a statement is looked for, so many times. -/
def Command.rounds : Nat → List Command
  | 0 => []
  | n + 1 => readAll :: toStatement :: rounds n

/-- Where the cursor stands at the end of a session. -/
def Command.finish (commands : List Command) (c : Cursor) : Cursor :=
  ((runAll commands c).getLast?.map Turn.cursor).getD c

variable {c x : Cursor} {tokens : List Token}

/-! ### Where a search stops -/

namespace Cursor

theorem In.statementAt_iff (h : c.In tokens) (moved : 0 < c.position) :
    StatementAt tokens c.position ↔ c.AtStatement := by
  have here := h.getElem?_position
  constructor
  · intro statement
    generalize place : c.position = j at statement
    cases statement with
    | ended same ends =>
      rw [← place, here] at same
      cases same
      exact .inl (h.kind_token.symm.trans ends)
    | word same begins =>
      rw [← place, here] at same
      cases same
      exact .inr (.inr (List.contains_iff_mem.2 begins))
    | @separated j t before separates =>
      have passed := h.passed
      rw [place, Nat.add_sub_cancel, before] at passed
      cases passed
      exact .inr (.inl separates)
  · rintro (ends | separates | begins)
    · exact .ended here (h.kind_token.trans ends)
    · have behind : StatementAt tokens (c.position - 1 + 1) := .separated h.passed separates
      rwa [Nat.sub_add_cancel moved] at behind
    · exact .word here (List.contains_iff_mem.1 begins)

theorem atStatement_statementFrom (passed : Token) (i : Nat) (ts : List Token) :
    (statementFrom passed i ts).AtStatement := by
  induction ts generalizing passed i with
  | nil => exact .inl rfl
  | cons t ts ih =>
    rw [statementFrom]
    split
    · rename_i stops
      simpa [AtStatement, kind, token, or_assoc] using stops
    · exact ih t (i + 1)

/-- A search goes over the places where no statement may begin. -/
theorem Searches.not_statementAt (h : c.Searches x) (hc : c.In tokens) (moved : 0 < c.position)
    {j : Nat} (from_le : c.position ≤ j) (lt : j < x.position) : ¬ StatementAt tokens j := by
  induction h with
  | refl => omega
  | @next c x goesOn _ ih =>
    have position := position_next fun ends => goesOn (.inl ends)
    obtain rfl | beyond := Nat.eq_or_lt_of_le from_le
    · rwa [hc.statementAt_iff moved]
    · exact ih hc.next (by omega) (by omega) lt

theorem toStatement_of_end (ends : c.kind = .eof) : c.toStatement = c := by
  rw [toStatement, next_of_kind_eq ends]
  exact statementFrom_of_atStatement (.inl ends)

theorem In.toStatement_isLeast (hc : c.In tokens) (running : c.kind ≠ .eof) :
    IsLeast {j | c.position < j ∧ StatementAt tokens j} c.toStatement.position := by
  have position := position_next running
  have moved : 0 < c.next.position := by omega
  have search : c.next.Searches c.toStatement := searches_statementFrom c.next
  obtain ⟨ts, passes⟩ := search.exists_passes
  have behind : c.position < c.toStatement.position := by
    rw [passes.position]
    omega
  have stops := (hc.next.passes passes).statementAt_iff (Nat.zero_lt_of_lt behind)
  refine ⟨⟨behind, stops.2 (atStatement_statementFrom _ _ _)⟩, fun j ⟨later, statement⟩ => ?_⟩
  refine Nat.le_of_not_lt fun before => ?_
  exact search.not_statementAt hc.next moved (by omega) before statement

/-! ### What a session comes to -/

theorem In.position_eq_findIdx_iff (hc : c.In tokens) :
    c.position = tokens.findIdx (·.kind = .eof) ↔ c.kind = .eof := by
  have inside := hc.position_lt
  have here : tokens[c.position] = c.token := by
    have front := hc.getElem?_position
    rwa [List.getElem?_eq_getElem inside, Option.some.injEq] at front
  constructor
  · intro first
    have found : tokens.findIdx (·.kind = .eof) < tokens.length := by rwa [← first]
    have ends := @List.findIdx_getElem _ (·.kind = .eof) tokens found
    simp only [← first, here, decide_eq_true_eq] at ends
    rw [← hc.kind_token, ends]
  · intro ends
    refine Nat.le_antisymm hc.position_le_findIdx (Nat.le_of_not_lt fun before => ?_)
    have running := List.not_of_lt_findIdx before
    rw [here, hc.kind_token, ends] at running
    simp at running

/-- A search that is not at the end moves the cursor forward, and nothing moves it back. -/
theorem In.progress (hc : c.In tokens) (command : Command) :
    min (tokens.findIdx (·.kind = .eof)) (c.position + if command.isSearch then 1 else 0) ≤
      (command.run c).cursor.position := by
  obtain ⟨ts, passes⟩ := command.exists_passes_run c
  have forward := passes.position
  by_cases search : command.isSearch
  · cases command with
    | toStatement =>
      by_cases ends : c.kind = .eof
      · rw [hc.position_eq_findIdx_iff.2 ends] at forward
        omega
      · have further : c.position < c.toStatement.position := (hc.toStatement_isLeast ends).1.1
        rw [if_pos search]
        show _ ≤ c.toStatement.position
        omega
    | _ => cases search
  · rw [if_neg search]
    omega

end Cursor

namespace Command

theorem finish_cons (command : Command) (commands : List Command) (c : Cursor) :
    finish (command :: commands) c = finish commands (command.run c).cursor := by
  rw [finish, finish, runAll, List.getLast?_cons]
  cases (runAll commands (command.run c).cursor).getLast? <;> rfl

theorem finish_in (hc : c.In tokens) (commands : List Command) : (finish commands c).In tokens := by
  induction commands generalizing c with
  | nil => exact hc
  | cons command commands ih =>
    rw [finish_cons]
    exact ih (hc.run command)

/-- Each search of a session brings the cursor nearer to the first end token. -/
theorem min_le_finish (hc : c.In tokens) (commands : List Command) :
    min (tokens.findIdx (·.kind = .eof)) (c.position + commands.countP isSearch) ≤
      (finish commands c).position := by
  induction commands generalizing c with
  | nil => exact Nat.min_le_right _ _
  | cons command commands ih =>
    have step := hc.progress command
    have rest := ih (hc.run command)
    rw [finish_cons, List.countP_cons]
    omega

/-- A session with enough searches comes to the first end token. -/
theorem finish_position (hc : c.In tokens) {commands : List Command}
    (enough : tokens.findIdx (·.kind = .eof) - c.position ≤ commands.countP isSearch) :
    (finish commands c).position = tokens.findIdx (·.kind = .eof) := by
  have low := min_le_finish hc commands
  have high := (finish_in hc commands).position_le_findIdx
  omega

theorem countP_rounds (n : Nat) : (rounds n).countP isSearch = n := by
  induction n with
  | zero => rfl
  | succ n ih =>
    rw [rounds, List.countP_cons_of_neg (by simp [isSearch]), List.countP_cons_of_pos rfl, ih]

/-- **A search for a statement** reports nothing.  At the end it stays where it is.  Otherwise it
stops at the first place behind the token in front of it where a statement may begin.  So a session
that has a search for each token in front of the first end token comes there and stays there, and so
do as many rounds of reading and searching. -/
theorem toStatement_resumes {t : Token} (hc : c.In tokens) (here : tokens[c.position]? = some t) :
    let turn := toStatement.run c
    turn.answer = .nothing ∧ turn.events = [] ∧ turn.cursor.In tokens ∧
      (t.kind = .eof → turn.cursor = c) ∧
      (t.kind ≠ .eof →
        IsLeast {j | c.position < j ∧ StatementAt tokens j} turn.cursor.position) ∧
      (∀ commands : List Command,
        tokens.findIdx (·.kind = .eof) - c.position ≤ commands.countP isSearch →
          (finish commands c).position = tokens.findIdx (·.kind = .eof)) ∧
      ∀ n, tokens.findIdx (·.kind = .eof) - c.position ≤ n →
        (finish (rounds n) c).position = tokens.findIdx (·.kind = .eof) := by
  intro turn
  have kind : t.kind = c.kind := by
    rw [hc.getElem?_position] at here
    cases here
    exact hc.kind_token
  rw [kind]
  refine ⟨rfl, rfl, hc.run toStatement, toStatement_of_end, hc.toStatement_isLeast,
    fun commands => finish_position hc, fun n enough => finish_position hc ?_⟩
  rwa [countP_rounds]

section Sample

open Token

/-- `( nil = ; * class nil` from the `nil` on: a place behind a semicolon, and then no more. -/
theorem toStatement_resumes_of_nil :
    let tokens := [loose .openParen "(", loose .kwNil "nil", loose .assignment "=",
      loose .semicolon ";", loose .star "*", loose .kwClass "class", loose .kwNil "nil",
      loose .eof "", loose .semicolon ";", loose .eof ""]
    let c : Cursor := ⟨1, loose .openParen "(", tokens.drop 1⟩
    c.In tokens ∧ tokens[c.position]? = some (loose .kwNil "nil") ∧
      IsLeast {j | 1 < j ∧ StatementAt tokens j} 4 ∧
      positions (rounds 2) c = [1, 2, 4, 5, 7] ∧ (finish (rounds 6) c).position = 7 := by
  intro tokens c
  have hc : c.In tokens := ⟨⟨loose .eof "", rfl, rfl⟩, rfl, rfl, by decide⟩
  have here : tokens[c.position]? = some (loose .kwNil "nil") := rfl
  obtain ⟨-, -, -, -, least, -, rounds_end⟩ := toStatement_resumes hc here
  exact ⟨hc, here, least (by decide), by decide +kernel, rounds_end 6 (by decide)⟩

end Sample

end Command
end LoxReader
