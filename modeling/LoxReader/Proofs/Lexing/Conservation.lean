import LoxReader.Proofs.Lexing.Offsets

/-!
# A source is in its tokens and the gaps between them

The tokens of a source stand in it one behind the other.  Each but the end token covers its
lexeme, and what is between two of them is skippable.  The source has to be so short that its
offsets can be written down.
-/

namespace LoxReader

/-- The gap in front of each token: from where the one before it stops, the first one before
stopping at `n`, to where it starts. -/
def gapsFrom (n : Nat) : List Token → List (Nat × Nat)
  | [] => []
  | t :: ts => (n, t.span.start) :: gapsFrom t.span.stop ts

/-- What stands from the one byte up to the other is no part of a token. -/
def SkippableGap (source : List Char) (gap : Nat × Nat) : Prop :=
  ∃ text behind, Text.slice? gap.1 gap.2 source = some text ∧
    Text.dropBytes? gap.2 source = some behind ∧ Skippable behind text

/-- What the tokens of a source keep of it. -/
structure Conserves (source : List Char) (tokens : List Token) : Prop where
  ordered : tokens.Pairwise fun s t => s.span.stop ≤ t.span.start
  /-- A span is not empty, and its bytes are the lexeme. -/
  covered : ∀ t ∈ tokens, t.kind ≠ .eof →
    t.span.start < t.span.stop ∧ t.span.stop ≤ Text.byteLength source ∧
      Text.slice? t.span.start t.span.stop source = some t.lexeme.toList
  skipped : ∀ gap ∈ gapsFrom 0 tokens, SkippableGap source gap
  /-- The last token is the only end token, and stands at the end of the source. -/
  ended : ∃ front last, tokens = front ++ [last] ∧ (∀ t ∈ front, t.kind ≠ .eof) ∧
    last.kind = .eof ∧ last.lexeme = "" ∧ last.span.start = Text.byteLength source ∧
      last.span.stop = Text.byteLength source
  valued : ∀ t ∈ tokens, t.literal.isSome = true ↔ t.kind = .number ∨ t.kind = .string
  unquoted : ∀ t ∈ tokens, t.kind = .string → ∃ inside, t.lexeme.toList = '"' :: inside ++ ['"'] ∧
    '"' ∉ inside ∧ t.literal = some (.string (String.ofList inside))

section Short

variable {file : String} {source before rest gap cs : List Char} {t : Token} {ts : List Token}

/-! ### Order and gaps -/

/-- The first token behind `before`, with its place in the source. -/
theorem Lexes.uncons
    (h : Lexes file (Place.start.after before) cs (t :: ts) (Place.start.after source) [])
    (split : source = before ++ cs) (short : Text.byteLength source < 0x100000000) :
    ∃ gap rest, source = before ++ (gap ++ (t.lexeme.toList ++ rest)) ∧
      Skippable (t.lexeme.toList ++ rest) gap ∧
      t.span = ⟨Text.byteLength (before ++ gap),
        Text.byteLength (before ++ gap ++ t.lexeme.toList), file⟩ ∧
      Lexes file (Place.start.after (before ++ gap ++ t.lexeme.toList)) rest ts
        (Place.start.after source) [] ∧ source = before ++ gap ++ t.lexeme.toList ++ rest := by
  obtain ⟨gap, rest, rfl, skippable, readAt, further⟩ := h.cons_inv rfl
  rw [← Place.after_append] at readAt further
  rw [← List.append_assoc] at further
  have behind : source = before ++ gap ++ (t.lexeme.toList ++ rest) := by
    rw [split, List.append_assoc]
  refine ⟨gap, rest, split, skippable, readAt.span_eq behind short, further, ?_⟩
  rw [behind, List.append_assoc (before ++ gap)]

/-- What is read behind `before` starts there or later, each token where the last one stops or
later. -/
theorem Lexes.ordered
    (h : Lexes file (Place.start.after before) cs ts (Place.start.after source) [])
    (split : source = before ++ cs) (short : Text.byteLength source < 0x100000000) :
    (∀ t ∈ ts ++ [Token.atEnd file (Place.start.after source)],
      Text.byteLength before ≤ t.span.start) ∧
    (ts ++ [Token.atEnd file (Place.start.after source)]).Pairwise
      fun s t => s.span.stop ≤ t.span.start := by
  induction ts generalizing before cs with
  | nil =>
    refine ⟨List.forall_mem_singleton.2 ?_, List.pairwise_singleton _ _⟩
    rw [Token.span_atEnd file short, split, Text.byteLength_append]
    exact Nat.le_add_right _ _
  | cons t ts ih =>
    obtain ⟨gap, rest, -, -, span, further, behind⟩ := h.uncons split short
    obtain ⟨later, ordered⟩ := ih further behind
    have start_le : Text.byteLength before ≤ Text.byteLength (before ++ gap) := by
      rw [Text.byteLength_append]
      exact Nat.le_add_right _ _
    have stop_le : Text.byteLength before ≤ Text.byteLength (before ++ gap ++ t.lexeme.toList) := by
      rw [Text.byteLength_append]
      exact Nat.le_trans start_le (Nat.le_add_right _ _)
    constructor
    · refine List.forall_mem_cons.2 ⟨?_, fun u mem => Nat.le_trans stop_le (later u mem)⟩
      rw [span]
      exact start_le
    · refine List.pairwise_cons.2 ⟨fun u mem => ?_, ordered⟩
      rw [span]
      exact later u mem

theorem Skippable.skippableGap (h : Skippable rest gap) (split : source = before ++ (gap ++ rest)) :
    SkippableGap source (Text.byteLength before, Text.byteLength (before ++ gap)) := by
  refine ⟨gap, rest, ?_, ?_, h⟩
  · rw [split, Text.byteLength_append, Text.slice?_append]
  · rw [split, ← List.append_assoc, Text.dropBytes?_append]

theorem Lexes.skippableGap
    (h : Lexes file (Place.start.after before) cs ts (Place.start.after source) [])
    (split : source = before ++ cs) (short : Text.byteLength source < 0x100000000) :
    ∀ gap ∈ gapsFrom (Text.byteLength before) (ts ++ [Token.atEnd file (Place.start.after source)]),
      SkippableGap source gap := by
  induction ts generalizing before cs with
  | nil =>
    obtain ⟨gap, rfl, -, skippable⟩ := h.nil_inv rfl
    have last := skippable.skippableGap split
    rw [List.append_nil] at split
    rw [← split] at last
    rw [List.nil_append, gapsFrom, gapsFrom, Token.span_atEnd file short]
    exact List.forall_mem_singleton.2 last
  | cons t ts ih =>
    obtain ⟨gap, rest, split, skippable, span, further, behind⟩ := h.uncons split short
    rw [List.cons_append, gapsFrom, span]
    exact List.forall_mem_cons.2 ⟨skippable.skippableGap split, ih further behind⟩

end Short

/-- **Nothing of a source is lost.** -/
theorem lex_conserves {source : String} {file : Option String} {tokens : List Token}
    (short : Text.byteLength source.toList < 0x100000000) (lexed : lex source file = .ok tokens) :
    Conserves source.toList tokens := by
  obtain ⟨ts, derived, rfl⟩ := exists_lexes_of_lex lexed
  -- A token is one of the derivation or the end token.
  have tokens_cases : ∀ t ∈ ts ++ [Token.atEnd (fileName file) (Place.start.after source.toList)],
      t ∈ ts ∨ t = Token.atEnd (fileName file) (Place.start.after source.toList) := by
    intro t mem
    rwa [List.mem_append, List.mem_singleton] at mem
  have started : Lexes (fileName file) (Place.start.after []) source.toList ts
      (Place.start.after source.toList) [] := derived
  refine ⟨(started.ordered rfl short).2, ?_, started.skippableGap rfl short, ?_, ?_, ?_⟩
  · intro t mem notEnd
    obtain mem | rfl := tokens_cases t mem
    · obtain ⟨before, rest, split, readAt⟩ := derived.exists_of_mem mem
      have positive := Text.byteLength_pos readAt.nonempty
      rw [readAt.span_eq split short, split]
      simp only [Text.byteLength_append, Text.slice?_append]
      exact ⟨by omega, by omega, trivial⟩
    · exact absurd rfl notEnd
  · refine ⟨ts, _, rfl, fun _ mem => (derived.lexeme_of_mem mem).kind_ne_eof, rfl, rfl, ?_, ?_⟩
    · rw [Token.span_atEnd _ short]
    · rw [Token.span_atEnd _ short]
  · intro t mem
    obtain mem | rfl := tokens_cases t mem
    · exact (derived.lexeme_of_mem mem).isSome_literal_iff
    · simp [Token.atEnd]
  · intro t mem string
    obtain mem | rfl := tokens_cases t mem
    · have lexeme := derived.lexeme_of_mem mem
      rw [string] at lexeme
      exact lexeme.inside
    · cases string

/-- A number, a comment with an accent, a wide blank and a string over two lines. -/
def commentedSource : String := "1 //é\n\u3000\"a\nb\" "

def commentedTokens : List Token :=
  [⟨.number, "1", some (.number ⟨0x3ff0000000000000⟩), 1, ⟨0, 1, "shell"⟩⟩,
   ⟨.string, "\"a\nb\"", some (.string "a\nb"), 2, ⟨10, 15, "shell"⟩⟩,
   ⟨.eof, "", none, 3, ⟨16, 16, "shell"⟩⟩]

theorem lex_commentedSource : lex commentedSource none = .ok commentedTokens :=
  eq_ok_of_toOption (by decide +kernel)

theorem lex_conserves_commentedSource :
    Text.byteLength commentedSource.toList < 0x100000000 ∧
      lex commentedSource none = .ok commentedTokens ∧
      Conserves commentedSource.toList commentedTokens := by
  have short : Text.byteLength commentedSource.toList < 0x100000000 := by decide
  exact ⟨short, lex_commentedSource, lex_conserves short lex_commentedSource⟩

end LoxReader
