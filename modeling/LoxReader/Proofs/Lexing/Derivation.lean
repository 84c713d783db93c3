import LoxReader.Proofs.Lexing.Pieces
import LoxReader.Token.Lexing

/-!
# How a source is cut into tokens

`Lexes` goes from a place to a later one, cut by cut.  It may stop anywhere, so that what stands
in front of a place can be told apart from what stands behind it; from the start to the end of a
source it is the lexer (`lexFrom_eq_ok_iff`).  Between two tokens of a derivation stands a
skippable text.
-/

namespace LoxReader

/-- The token of the text at a place. -/
def Token.ofText (file : String) (p : Place) (text : List Char) (kind : Kind)
    (literal : Option Literal) : Token :=
  ⟨kind, String.ofList text, literal, p.line, p.span file (Text.byteLength text)⟩

/-- The first rule that applies to `cs` takes `text` off the front and leaves `rest`. -/
structure Cut (rule : Rule) (cs text rest : List Char) : Prop where
  first : Rule.first? cs = some (rule, text)
  append : cs = text ++ rest

/-- With `cs` still to be read at `p`, the rules cut off `ts` and get to `q`, where `left` is still
to be read. -/
inductive Lexes (file : String) : Place → List Char → List Token → Place → List Char → Prop
  | refl (p : Place) (cs : List Char) : Lexes file p cs [] p cs
  | skipped {p q : Place} {cs text rest left : List Char} {rule : Rule} {ts : List Token}
    (cut : Cut rule cs text rest) (read : rule.reading text = .skipped)
    (further : Lexes file (p.after text) rest ts q left) : Lexes file p cs ts q left
  | token {p q : Place} {cs text rest left : List Char} {rule : Rule} {kind : Kind}
    {literal : Option Literal} {ts : List Token} (cut : Cut rule cs text rest)
    (read : rule.reading text = .token kind literal)
    (further : Lexes file (p.after text) rest ts q left) :
    Lexes file p cs (Token.ofText file p text kind literal :: ts) q left

/-! ### One cut -/

namespace Cut

variable {rule : Rule} {cs text rest : List Char}

theorem of_first? (h : Rule.first? cs = some (rule, text)) : Cut rule cs text (cs.drop text.length) := by
  obtain ⟨rest, rfl, -⟩ := Rule.takes_of_take? (Rule.first?_eq_some h).2
  rw [List.drop_left]
  exact ⟨h, rfl⟩

theorem takes (h : Cut rule cs text rest) : rule.Takes text rest := by
  obtain ⟨other, split, takes⟩ := Rule.takes_of_take? (Rule.first?_eq_some h.first).2
  rw [h.append] at split
  rwa [List.append_cancel_left split]

theorem ne_nil (h : Cut rule cs text rest) : text ≠ [] := Rule.first?_ne_nil h.first

theorem input_ne_nil (h : Cut rule cs text rest) : cs ≠ [] := by
  rw [h.append]
  exact List.append_ne_nil_of_left_ne_nil h.ne_nil rest

theorem lexeme {kind : Kind} {literal : Option Literal} (h : Cut rule cs text rest)
    (read : rule.reading text = .token kind literal) : Lexeme text kind literal :=
  h.takes.lexeme (Rule.first?_eq_some h.first).1 read

end Cut

section Equations

variable {file : String} {p : Place} {cs text rest : List Char} {rule : Rule}

theorem lexFrom_nil (file : String) (p : Place) :
    lexFrom file p [] = .ok [Token.atEnd file p] := by
  rw [lexFrom]

theorem lexFrom_cut (h : Cut rule cs text rest) :
    lexFrom file p cs =
      match rule.reading text with
      | .fault fault => .error ⟨fault, wrap32 p.offset, file⟩
      | .skipped => lexFrom file (p.after text) rest
      | .token kind literal =>
        (lexFrom file (p.after text) rest).map (Token.ofText file p text kind literal :: ·) := by
  obtain ⟨c, behind, rfl⟩ := List.exists_cons_of_ne_nil h.input_ne_nil
  rw [lexFrom]
  split
  · rename_i none
    rw [h.first] at none
    cases none
  · rename_i other taken some
    cases h.first.symm.trans some
    have left : (c :: behind).drop text.length = rest := by rw [h.append, List.drop_left]
    simp only [left]
    rfl

theorem lexFrom_stuck {c : Char} (h : Rule.first? (c :: rest) = none) :
    lexFrom file p (c :: rest) = .error ⟨.strayCharacter c, wrap32 p.offset, file⟩ := by
  rw [lexFrom]
  split
  · rfl
  · rename_i rule text some
    cases h.symm.trans some

end Equations

/-! ### Derivations and the lexer -/

namespace Lexes

variable {file : String} {p q : Place} {cs left : List Char} {ts us : List Token} {t : Token}

/-- The lexer goes where a derivation goes. -/
theorem lexFrom_eq (h : Lexes file p cs ts q left) :
    lexFrom file p cs = (lexFrom file q left).map (ts ++ ·) := by
  induction h with
  | refl p cs => cases lexFrom file p cs <;> rfl
  | skipped cut read _ ih =>
    rw [lexFrom_cut cut, read]
    exact ih
  | @token _ q _ _ _ left _ _ _ _ cut read _ ih =>
    rw [lexFrom_cut cut, read]
    simp only [ih]
    cases lexFrom file q left <;> rfl

end Lexes

theorem exists_lexes {file : String} {p : Place} {cs : List Char} {tokens : List Token}
    (h : lexFrom file p cs = .ok tokens) :
    ∃ ts q, Lexes file p cs ts q [] ∧ tokens = ts ++ [Token.atEnd file q] := by
  induction p, cs using lexFrom.induct file generalizing tokens with
  | case1 p =>
    rw [lexFrom_nil] at h
    cases h
    exact ⟨[], p, .refl p [], rfl⟩
  | case2 p c rest stuck =>
    rw [lexFrom_stuck stuck] at h
    cases h
  | case3 p c rest rule text first _ fault read =>
    rw [lexFrom_cut (.of_first? first), read] at h
    cases h
  | case4 p c rest rule text first _ read ih =>
    have cut := Cut.of_first? first
    rw [lexFrom_cut cut, read] at h
    obtain ⟨ts, q, further, rfl⟩ := ih h
    exact ⟨ts, q, .skipped cut read further, rfl⟩
  | case5 p c rest rule text first _ kind literal read ih =>
    have cut := Cut.of_first? first
    rw [lexFrom_cut cut, read] at h
    cases lexed : lexFrom file (p.after text) ((c :: rest).drop text.length) with
    | error e =>
      rw [lexed] at h
      cases h
    | ok us =>
      rw [lexed] at h
      cases h
      obtain ⟨ts, q, further, rfl⟩ := ih lexed
      exact ⟨_, q, .token cut read further, rfl⟩

/-- **The lexer follows the derivations that come to the end.** -/
theorem lexFrom_eq_ok_iff {file : String} {p : Place} {cs : List Char} {tokens : List Token} :
    lexFrom file p cs = .ok tokens ↔
      ∃ ts q, Lexes file p cs ts q [] ∧ tokens = ts ++ [Token.atEnd file q] := by
  constructor
  · exact exists_lexes
  · rintro ⟨ts, q, h, rfl⟩
    rw [h.lexFrom_eq, lexFrom_nil]
    rfl

theorem eq_ok_of_toOption {ε α : Type} {x : Except ε α} {a : α} (h : x.toOption = some a) :
    x = .ok a := by
  cases x with
  | error e => cases h
  | ok b =>
    cases h
    rfl

/-- The error of what has failed. -/
def error? {ε α : Type} : Except ε α → Option ε
  | .error e => some e
  | .ok _ => none

theorem eq_error_of_error? {ε α : Type} {x : Except ε α} {e : ε} (h : error? x = some e) :
    x = .error e := by
  cases x with
  | error d =>
    cases h
    rfl
  | ok a => cases h

/-! ### The places of a derivation -/

theorem Lexes.split {file : String} {p q : Place} {cs left : List Char} {ts : List Token}
    (h : Lexes file p cs ts q left) : ∃ taken, cs = taken ++ left ∧ q = p.after taken := by
  induction h with
  | refl p cs => exact ⟨[], rfl, p.after_nil.symm⟩
  | @skipped p _ _ text _ _ _ _ cut _ _ ih | @token p _ _ text _ _ _ _ _ _ cut _ _ ih =>
    obtain ⟨taken, split, rfl⟩ := ih
    refine ⟨text ++ taken, ?_, (p.after_append text taken).symm⟩
    rw [cut.append, split, List.append_assoc]

/-- The end token stands behind the whole source. -/
theorem exists_lexes_of_lex {source : String} {file : Option String} {tokens : List Token}
    (h : lex source file = .ok tokens) :
    ∃ ts, Lexes (fileName file) .start source.toList ts (Place.start.after source.toList) [] ∧
      tokens = ts ++ [Token.atEnd (fileName file) (Place.start.after source.toList)] := by
  obtain ⟨ts, q, derived, rfl⟩ := lexFrom_eq_ok_iff.1 h
  obtain ⟨taken, split, rfl⟩ := derived.split
  rw [List.append_nil] at split
  rw [← split] at derived
  exact ⟨ts, derived, by rw [← split]⟩

/-! ### The tokens of a derivation -/

/-- What a token says, wherever it stands. -/
def Token.content (t : Token) : Kind × String × Option Literal := (t.kind, t.lexeme, t.literal)

/-- In front of `rest` the lexeme of the token is cut off, and is this token. -/
def Token.CutBefore (rest : List Char) (t : Token) : Prop :=
  ∃ rule, Cut rule (t.lexeme.toList ++ rest) t.lexeme.toList rest ∧
    rule.reading t.lexeme.toList = .token t.kind t.literal

/-- The token stands at a place, and is one. -/
structure Token.ReadAt (file : String) (p : Place) (t : Token) : Prop where
  nonempty : t.lexeme.toList ≠ []
  worth : Lexeme t.lexeme.toList t.kind t.literal
  line : t.line = p.line
  span : t.span = p.span file (Text.byteLength t.lexeme.toList)

namespace Lexes

variable {file : String} {p q : Place} {cs left : List Char} {ts us : List Token} {t : Token}

/-- Without a token, a derivation only skips. -/
theorem nil_inv (h : Lexes file p cs us q left) (none : us = []) :
    ∃ gap, cs = gap ++ left ∧ q = p.after gap ∧ Skippable left gap := by
  induction h with
  | refl p cs => exact ⟨[], rfl, p.after_nil.symm, .nil⟩
  | @skipped p _ _ text _ _ _ _ cut read _ ih =>
    obtain ⟨gap, split, rfl, skippable⟩ := ih none
    have skipped := cut.takes.skippable read
    rw [split] at skipped
    refine ⟨text ++ gap, ?_, (p.after_append text gap).symm, skipped.append skippable⟩
    rw [cut.append, split, List.append_assoc]
  | token => cases none

/-- Up to its first token, a derivation only skips. -/
theorem cons_cut (h : Lexes file p cs us q left) (some : us = t :: ts) :
    ∃ gap rest, cs = gap ++ (t.lexeme.toList ++ rest) ∧
      Skippable (t.lexeme.toList ++ rest) gap ∧ t.CutBefore rest ∧
      t = Token.ofText file (p.after gap) t.lexeme.toList t.kind t.literal ∧
      Lexes file (p.after (gap ++ t.lexeme.toList)) rest ts q left := by
  induction h with
  | refl => cases some
  | @skipped p _ _ text _ _ _ _ cut read _ ih =>
    obtain ⟨gap, rest, split, skippable, cutBefore, eq, further⟩ := ih some
    have skipped := cut.takes.skippable read
    rw [split] at skipped
    rw [← p.after_append] at eq further
    refine ⟨text ++ gap, rest, ?_, skipped.append skippable, cutBefore, eq, ?_⟩
    · rw [cut.append, split, List.append_assoc]
    · rwa [List.append_assoc]
  | @token p _ _ text rest _ rule kind literal _ cut read further _ =>
    cases some
    have lexeme : (Token.ofText file p text kind literal).lexeme.toList = text := String.toList_ofList
    obtain rfl := cut.append
    refine ⟨[], rest, ?_, .nil, ⟨rule, ?_, ?_⟩, ?_, ?_⟩
    · rw [lexeme]
      rfl
    · rw [lexeme]
      exact cut
    · rw [lexeme]
      exact read
    · rw [lexeme, p.after_nil]
      rfl
    · rw [lexeme]
      exact further

theorem cons_inv (h : Lexes file p cs us q left) (some : us = t :: ts) :
    ∃ gap rest, cs = gap ++ (t.lexeme.toList ++ rest) ∧
      Skippable (t.lexeme.toList ++ rest) gap ∧ t.ReadAt file (p.after gap) ∧
      Lexes file (p.after (gap ++ t.lexeme.toList)) rest ts q left := by
  obtain ⟨gap, rest, split, skippable, ⟨rule, cut, read⟩, eq, further⟩ := h.cons_cut some
  have line := congrArg Token.line eq
  have span := congrArg Token.span eq
  exact ⟨gap, rest, split, skippable, ⟨cut.ne_nil, cut.lexeme read, line, span⟩, further⟩

theorem cutBefore_of_mem (h : Lexes file p cs ts q left) (mem : t ∈ ts) : ∃ rest, t.CutBefore rest := by
  induction ts generalizing p cs with
  | nil => cases mem
  | cons u us ih =>
    obtain ⟨gap, rest, -, -, cutBefore, -, further⟩ := h.cons_cut rfl
    obtain rfl | mem := List.mem_cons.1 mem
    · exact ⟨rest, cutBefore⟩
    · exact ih further mem

theorem exists_of_mem (h : Lexes file p cs ts q left) (mem : t ∈ ts) :
    ∃ before rest, cs = before ++ (t.lexeme.toList ++ rest) ∧ t.ReadAt file (p.after before) := by
  induction ts generalizing p cs with
  | nil => cases mem
  | cons u us ih =>
    obtain ⟨gap, rest, rfl, -, readAt, further⟩ := h.cons_inv rfl
    obtain rfl | mem := List.mem_cons.1 mem
    · exact ⟨gap, rest, rfl, readAt⟩
    · obtain ⟨before, rest, rfl, readAt⟩ := ih further mem
      rw [← p.after_append] at readAt
      exact ⟨_, rest, by simp only [List.append_assoc], readAt⟩

theorem lexeme_of_mem (h : Lexes file p cs ts q left) (mem : t ∈ ts) :
    Lexeme t.lexeme.toList t.kind t.literal := by
  obtain ⟨_, _, -, readAt⟩ := h.exists_of_mem mem
  exact readAt.worth

end Lexes

/-- A token of a source is cut off it, or is its end token. -/
theorem mem_cases_of_lex {source : String} {file : Option String} {tokens : List Token} {t : Token}
    (lexed : lex source file = .ok tokens) (mem : t ∈ tokens) :
    (∃ rest, t.CutBefore rest) ∨ t = Token.atEnd (fileName file) (Place.start.after source.toList) := by
  obtain ⟨ts, derived, rfl⟩ := exists_lexes_of_lex lexed
  rw [List.mem_append, List.mem_singleton] at mem
  exact mem.imp_left derived.cutBefore_of_mem

theorem exists_getLast?_of_lex {source : String} {file : Option String} {tokens : List Token}
    (lexed : lex source file = .ok tokens) : ∃ t, tokens.getLast? = some t ∧ t.kind = .eof := by
  obtain ⟨ts, -, rfl⟩ := exists_lexes_of_lex lexed
  exact ⟨_, List.getLast?_concat, rfl⟩

theorem Token.CutBefore.worth {rest : List Char} {t : Token} (h : t.CutBefore rest) :
    Lexeme t.lexeme.toList t.kind t.literal := by
  obtain ⟨rule, cut, read⟩ := h
  exact cut.lexeme read

end LoxReader
