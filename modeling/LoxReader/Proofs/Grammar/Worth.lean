import LoxReader.Proofs.Grammar.Grouping
import LoxReader.Proofs.Grammar.Renaming
import LoxReader.Proofs.Lexing.Derivation

/-!
# What a token is worth is in its lexeme

The lexer writes the value of a number or a string down beside its lexeme, and reading an expression
finds the same value in the lexeme alone.  So the tokens of a source can be read without their
literals, and none of them is a number or a string that could not be read.
-/

namespace LoxReader

open Cursor

/-- The token with nothing written down beside its lexeme. -/
def Token.withoutLiteral (t : Token) : Token := { t with literal := none }

/-! ### The value of a lexeme -/

theorem stripQuotes?_quoted (inside : List Char) :
    stripQuotes? ('"' :: inside ++ ['"']) = some inside := by
  simp [stripQuotes?]

theorem Lexeme.value?_withoutLiteral {t : Token} (h : Lexeme t.lexeme.toList t.kind t.literal) :
    t.withoutLiteral.value? = t.value? := by
  obtain ⟨kind, lexeme, literal, line, span⟩ := t
  dsimp only at h
  generalize text : lexeme.toList = cs at h
  cases h with
  | word | symbol => rfl
  | number read =>
    rw [← text, String.ofList_toList] at read
    simp [Token.withoutLiteral, Token.value?, read]
  | @string inside quoteless =>
    have stripped : stripQuotes? lexeme.toList = some inside := by
      rw [text, stripQuotes?_quoted]
    simp [Token.withoutLiteral, Token.value?, stripped]

section Source

variable {source : String} {file : Option String} {tokens : List Token} {t : Token}

theorem value?_withoutLiteral_of_lex (lexed : lex source file = .ok tokens) (mem : t ∈ tokens) :
    t.withoutLiteral.value? = t.value? := by
  obtain ⟨rest, cut⟩ | rfl := mem_cases_of_lex lexed mem
  · exact cut.worth.value?_withoutLiteral
  · rfl

theorem renames_withoutLiteral (lexed : lex source file = .ok tokens) :
    Renames Token.withoutLiteral tokens :=
  ⟨fun _ _ => rfl, fun _ mem _ => value?_withoutLiteral_of_lex lexed mem⟩

/-- A number or a string of a source carries its value. -/
theorem exists_literal_of_lex (lexed : lex source file = .ok tokens) (mem : t ∈ tokens)
    (kind : t.kind = .number ∨ t.kind = .string) : ∃ value, t.literal = some value := by
  obtain ⟨rest, cut⟩ | rfl := mem_cases_of_lex lexed mem
  · exact Option.isSome_iff_exists.1 (cut.worth.isSome_literal_iff.2 kind)
  · simp [Token.atEnd] at kind

theorem Token.leaf?_of_kind (kind : t.kind = .number ∨ t.kind = .string) : t.leaf? = t.value? := by
  unfold leaf?
  rcases kind with kind | kind <;> rw [kind]

theorem Token.value?_of_literal {value : Literal} (h : t.literal = some value) :
    t.value? = some value := by
  rw [Token.value?, h]

theorem not_worthless_of_lex (lexed : lex source file = .ok tokens) (mem : t ∈ tokens) :
    ¬ t.Worthless := by
  rintro ⟨kind, none⟩
  obtain ⟨value, literal⟩ := exists_literal_of_lex lexed mem kind
  rw [Token.value?_of_literal literal] at none
  cases none

end Source

/-! ### Numbers and strings that are reported -/

namespace Goal

variable {goal : Goal} {c d m : Cursor} {xs : List Event} {tokens : List Token}

/-- A number or a string that is reported as no expression has no value. -/
theorem FailsAt.worthless (h : FailsAt goal c m d xs) (hm : m.In tokens) :
    ∀ x ∈ reports xs, x.fault = .noExpression →
      x.token.kind = .number ∨ x.token.kind = .string → x.token.Worthless := by
  obtain ⟨ys, fault, rfl, harmless, ended⟩ := h.exists_last
  intro x mem noExpression kind
  rw [reports_append] at mem
  rcases List.mem_append.1 mem with mem | mem
  · cases noExpression.symm.trans (fault_eq_of_harmless harmless x mem)
  · obtain rfl := List.mem_singleton.1 mem
    rcases ended with rfl | ⟨-, worthless | other⟩
    · cases noExpression
    · exact worthless
    · rw [← hm.kind_token] at other
      rcases kind with kind | kind <;> exact absurd (kind ▸ by decide) other

theorem worthless_of_run (goal : Goal) (hc : c.In tokens) :
    ∀ x ∈ reports (goal.run c).events, x.fault = .noExpression →
      x.token.kind = .number ∨ x.token.kind = .string → x.token.Worthless := by
  rcases goal.ends c with ⟨e, d, xs, reads⟩ | ⟨d, xs, fails⟩
  · rw [reads.run_eq]
    intro x mem fault
    rw [reads.fault_eq x mem] at fault
    cases fault
  · obtain ⟨m, failsAt⟩ := fails.exists_failsAt
    obtain ⟨ts, passes⟩ := failsAt.passes
    rw [fails.run_eq]
    exact failsAt.worthless (hc.passes passes)

/-- All that is reported are tokens of the list. -/
theorem reported_mem (goal : Goal) (hc : c.In tokens) :
    ∀ x ∈ reports (goal.run c).events, x.token ∈ tokens := by
  rcases goal.ends c with ⟨e, d, xs, reads⟩ | ⟨d, xs, fails⟩
  · rw [reads.run_eq]
    exact fun x mem => List.mem_of_getElem? ((reads.placed hc).token x mem)
  · obtain ⟨rs, x, split, halted⟩ := fails.halts hc
    rw [fails.run_eq, split]
    exact fun x mem => List.mem_of_getElem? (halted.placed.token x mem)

end Goal

/-! ### Reading without the literals -/

section Reading

variable {source : String} {file : Option String} {tokens : List Token} {c : Cursor}

theorem Cursor.reports_readAll (c : Cursor) :
    reports c.readAll.events = reports (c.read .comma).events := by
  cases tree : (c.read .comma).tree? with
  | some e => rw [readAll_of_some tree]
  | none =>
    rw [readAll_of_none tree, reports_append]
    exact List.append_nil _

/-- A command that reads reports what one goal does. -/
theorem Command.Reads.exists_goal {command : Command} (reads : command.Reads) :
    ∃ goal : Goal, ∀ c, reports (command.run c).events = reports (goal.run c).events := by
  cases command with
  | readAll => exact ⟨.level .comma, Cursor.reports_readAll⟩
  | read l => exact ⟨.level l, fun _ => rfl⟩
  | _ => exact reads.elim

/-- Only a report against a token without a value has another index when its token is changed. -/
theorem Report.index_map_withoutLiteral (lexed : lex source file = .ok tokens) {x : Report}
    (mem : x.token ∈ tokens) : (x.map Token.withoutLiteral id).index = x.index := by
  rw [index_of_not_late, index_of_not_late]
  · rfl
  · exact fun late => not_worthless_of_lex lexed mem late.2
  · rintro ⟨-, kind, none⟩
    rw [Report.map, value?_withoutLiteral_of_lex lexed mem] at none
    exact not_worthless_of_lex lexed mem ⟨kind, none⟩

/-- **The lexemes of a source say everything.**  Read without the literals, its tokens come to the
same tree with the same literals in its leaves, to the same place, and to the same reports of the
same tokens.  And wherever reading begins, no number and no string is reported as no expression: as the
first token of an operand each of them is one, with the value that was written down. -/
theorem lex_lexemes_suffice (lexed : lex source file = .ok tokens) :
    (∃ start start', ofTokens? tokens = some start ∧
      ofTokens? (tokens.map Token.withoutLiteral) = some start' ∧
      start'.readAll.tree? = start.readAll.tree?.map (Expr.map Token.withoutLiteral) ∧
      start'.readAll.cursor.position = start.readAll.cursor.position ∧
      (reports start'.readAll.events).map (fun x => (x.index, x.fault.message)) =
        (reports start.readAll.events).map (fun x => (x.index, x.fault.message)) ∧
      diagnostics start'.readAll.events =
        (diagnostics start.readAll.events).map (Diagnostic.map Token.withoutLiteral)) ∧
    (∀ (command : Command) (c : Cursor), command.Reads → c.In tokens →
      ∀ x ∈ reports (command.run c).events, x.fault = .noExpression →
        x.token.kind ≠ .number ∧ x.token.kind ≠ .string) ∧
    ∀ c : Cursor, c.In tokens → c.kind = .number ∨ c.kind = .string →
      ∃ value, c.token.literal = some value ∧
        c.read .primary = .done (.literal value) c.next := by
  refine ⟨?_, fun command c reads hc x mem fault => ?_, fun c hc kind => ?_⟩
  · obtain ⟨t, last, ends⟩ := exists_getLast?_of_lex lexed
    obtain ⟨start, hs⟩ := exists_ofTokens? last ends
    have last' : (tokens.map Token.withoutLiteral).getLast? = some t.withoutLiteral := by
      rw [List.getLast?_map, last, Option.map_some]
    obtain ⟨start', hs'⟩ := exists_ofTokens? last' ends
    have hc := in_of_ofTokens? hs
    have same : start'.position = start.position := by
      rw [(start_of_ofTokens? hs).1, (start_of_ofTokens? hs').1]
    obtain rfl := hc.eq_map (in_of_ofTokens? hs') same
    have renamed := readAll_map hc (renames_withoutLiteral lexed)
    have located := (readAll_disciplined hc).located
    refine ⟨start, _, hs, hs', ?_, ?_, ?_, ?_⟩
    · rw [renamed]
      rfl
    · rw [renamed]
      rfl
    · rw [renamed, Reply.map, reports_map, List.map_map]
      refine List.map_congr_left fun x mem => ?_
      have index := Report.index_map_withoutLiteral lexed (List.mem_of_getElem? (located x mem).1)
      exact congrArg (·, x.fault.message) index
    · rw [renamed]
      exact diagnostics_map _ id _
  · obtain ⟨goal, same⟩ := reads.exists_goal
    rw [same] at mem
    have worthless := goal.worthless_of_run hc x mem fault
    have valued := not_worthless_of_lex lexed (goal.reported_mem hc x mem)
    exact ⟨fun kind => valued (worthless (.inl kind)), fun kind => valued (worthless (.inr kind))⟩
  · have running : c.kind ≠ .eof := by
      rintro ends
      simp [ends] at kind
    rw [← hc.kind_token] at kind
    obtain ⟨value, literal⟩ := exists_literal_of_lex lexed hc.token_mem kind
    refine ⟨value, literal, read_leaf running ?_⟩
    rw [Token.leaf?_of_kind kind, Token.value?_of_literal literal]

end Reading

section Sample

/-- An operand and a colon were left out. -/
def starredSource : String := "* \"é//\" ? 1.5 2"

def starredTokens : List Token :=
  [⟨.star, "*", none, 1, ⟨0, 1, "shell"⟩⟩,
   ⟨.string, "\"é//\"", some (.string "é//"), 1, ⟨2, 8, "shell"⟩⟩,
   ⟨.question, "?", none, 1, ⟨9, 10, "shell"⟩⟩,
   ⟨.number, "1.5", some (.number ⟨0x3ff8000000000000⟩), 1, ⟨11, 14, "shell"⟩⟩,
   ⟨.number, "2", some (.number ⟨0x4000000000000000⟩), 1, ⟨15, 16, "shell"⟩⟩,
   ⟨.eof, "", none, 1, ⟨16, 16, "shell"⟩⟩]

theorem lex_starredSource : lex starredSource none = .ok starredTokens :=
  eq_ok_of_toOption (by decide +kernel)

/-- The number in front of the missing colon stands in its slot, without its literal in the second
tree. -/
theorem lex_lexemes_suffice_starredSource :
    let c (tokens : List Token) : Cursor := ⟨0, tokens.headD default, tokens⟩
    let start := c starredTokens
    let start' := c (starredTokens.map Token.withoutLiteral)
    lex starredSource none = .ok starredTokens ∧
      start.readAll.tree?.map Expr.text = some "(?: (* <missing> é//) 1.5 2)" ∧
      start'.readAll.tree? = start.readAll.tree?.map (Expr.map Token.withoutLiteral) ∧
      start'.readAll.tree? ≠ start.readAll.tree? ∧ start'.readAll.cursor.position = 5 ∧
      (reports start'.readAll.events).map (fun x => (x.index, x.fault.message)) =
        [(0, "Missing left operand.")] := by
  intro c start start'
  obtain ⟨⟨a, b, hs, hs', tree, position, reported, -⟩, -⟩ := lex_lexemes_suffice lex_starredSource
  obtain rfl : start = a := Option.some.inj hs
  obtain rfl : start' = b := Option.some.inj hs'
  have read : start.readAll.tree?.map Expr.text = some "(?: (* <missing> é//) 1.5 2)" := by
    decide +kernel
  refine ⟨lex_starredSource, read, tree, by decide +kernel, ?_, ?_⟩
  · rw [position]
    decide +kernel
  · rw [reported]
    decide +kernel

end Sample

end LoxReader
