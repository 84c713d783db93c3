import LoxReader.Proofs.Grammar.Worth
import LoxReader.Proofs.Lexing.Failures
import Mathlib.Data.List.Forall2

/-!
# Equality of what is lexed and read

Tokens, trees and diagnostics are compared field by field, and numbers as numbers: one that is not a
number differs from itself.  The lexer makes none, and its literals say no more than the lexemes
beside them.  So equality is reflexive on all that comes from a source, and what is read of equal
token lists is equal.
-/

namespace LoxReader

open Cursor

/-! ### Numerals are numbers -/

theorem Double.magnitudeOfRatio_le (n d : Nat) : magnitudeOfRatio n d ≤ infinityMagnitude := by
  unfold magnitudeOfRatio
  split
  · exact Nat.zero_le _
  · exact Nat.min_le_right _ _

/-- What is too large becomes infinite. -/
theorem Decimal.magnitude_le (x : Decimal) : x.magnitude ≤ Double.infinityMagnitude := by
  unfold magnitude
  split
  · exact Nat.zero_le _
  split
  · exact Nat.le_refl _
  split
  · exact Nat.zero_le _
  · exact Double.magnitudeOfRatio_le _ _

theorem Double.magnitude_ofMagnitude {m : Nat} (h : m < signBit) :
    (ofMagnitude false m).magnitude = m := by
  have bits : (ofMagnitude false m).bits = UInt64.ofNat m :=
    congrArg UInt64.ofNat (Nat.mod_eq_of_lt h)
  have word : (UInt64.ofNat m).toNat = m := UInt64.toNat_ofNat_of_lt' (Nat.lt_trans h (by decide))
  rw [magnitude, bits, word, Nat.mod_eq_of_lt h]

theorem Double.isNaN_ofMagnitude {m : Nat} (h : m ≤ infinityMagnitude) :
    (ofMagnitude false m).isNaN = false := by
  rw [isNaN, magnitude_ofMagnitude (Nat.lt_of_le_of_lt h (by decide))]
  exact decide_eq_false (Nat.not_lt_of_le h)

/-- A number that the lexer writes down beside a lexeme is one. -/
theorem Token.CutBefore.isNaN_eq_false {rest : List Char} {t : Token} {value : Double}
    (h : t.CutBefore rest) (number : t.literal = some (.number value)) : value.isNaN = false := by
  obtain ⟨kind, lexeme, literal, line, span⟩ := t
  obtain ⟨rule, cut, read⟩ := h
  dsimp only at number cut read
  rw [number] at read
  cases rule with
  | number =>
    obtain ⟨x, numeral⟩ := cut.takes.exists_decimal
    simp only [Rule.reading, numeral] at read
    cases read
    exact Double.isNaN_ofMagnitude x.magnitude_le
  | blank | comment | word | string | openQuote | symbol => cases read

/-! ### Tokens that equal themselves -/

/-- The literal is the value of the lexeme, and a number only if it is one. -/
structure Token.Sound (t : Token) : Prop where
  worth : t.literal = t.withoutLiteral.value?
  number : ∀ value, t.literal = some (.number value) → value.isNaN = false

section Source

variable {source : String} {file : Option String} {tokens : List Token} {t : Token}

theorem Token.value?_withoutLiteral_of_kind (h : ¬ (t.kind = .number ∨ t.kind = .string)) :
    t.withoutLiteral.value? = none := by
  rw [not_or] at h
  unfold value? withoutLiteral
  split <;> simp_all

theorem literal_eq_of_lex (lexed : lex source file = .ok tokens) (mem : t ∈ tokens) :
    t.literal = t.withoutLiteral.value? := by
  by_cases valued : t.kind = .number ∨ t.kind = .string
  · obtain ⟨value, literal⟩ := exists_literal_of_lex lexed mem valued
    rw [value?_withoutLiteral_of_lex lexed mem, Token.value?_of_literal literal, literal]
  · have none : t.literal = none := by
      obtain ⟨rest, cut⟩ | rfl := mem_cases_of_lex lexed mem
      · exact Option.not_isSome_iff_eq_none.1 (mt cut.worth.isSome_literal_iff.1 valued)
      · rfl
    rw [none, Token.value?_withoutLiteral_of_kind valued]

theorem sound_of_lex (lexed : lex source file = .ok tokens) (mem : t ∈ tokens) : t.Sound := by
  refine ⟨literal_eq_of_lex lexed mem, fun value number => ?_⟩
  obtain ⟨rest, cut⟩ | rfl := mem_cases_of_lex lexed mem
  · exact cut.isNaN_eq_false number
  · cases number

end Source

theorem Literal.equals_self {x : Literal} (h : ∀ value, x = .number value → value.isNaN = false) :
    x.equals x = true := by
  cases x with
  | number value => simp [equals, Double.equals, h value rfl]
  | string | boolean => exact decide_eq_true rfl
  | nil => rfl

namespace Token

variable {s t : Token} {ss ts : List Token}

theorem listEquals_iff :
    listEquals ss ts = true ↔ List.Forall₂ (fun s t => s.equals t = true) ss ts := by
  induction ss generalizing ts with
  | nil => cases ts <;> simp [listEquals]
  | cons s ss ih => cases ts <;> simp [listEquals, ih]

namespace Sound

theorem equals_self (h : t.Sound) : t.equals t = true := by
  have literal : literalEquals t.literal t.literal = true := by
    cases literal : t.literal with
    | none => rfl
    | some value => exact Literal.equals_self fun x number => h.number x (by rw [literal, number])
  simp [equals, literal]

/-- Equal tokens have the same lexeme, and the literal goes by it. -/
theorem eq_of_equals (h : s.Sound) (h' : t.Sound) (same : s.equals t = true) : s = t := by
  obtain ⟨kind, lexeme, literal, line, span⟩ := s
  obtain ⟨kind', lexeme', literal', line', span'⟩ := t
  simp only [equals, Bool.and_eq_true, decide_eq_true_eq] at same
  obtain ⟨⟨⟨⟨rfl, rfl⟩, -⟩, rfl⟩, rfl⟩ := same
  obtain rfl : literal = literal' := h.worth.trans h'.worth.symm
  rfl

theorem value?_eq (h : t.Sound) : t.value? = t.literal := by
  cases literal : t.literal with
  | some value => exact value?_of_literal literal
  | none =>
    have same : t.withoutLiteral = t := by rw [withoutLiteral, ← literal]
    rw [← same, ← h.worth, literal]

theorem leaf_equals_self {value : Literal} (h : t.Sound) (leaf : t.leaf? = some value) :
    value.equals value = true := by
  refine Literal.equals_self fun x number => ?_
  subst number
  unfold leaf? at leaf
  split at leaf
  case h_4 | h_5 => exact h.number x (h.value?_eq ▸ leaf)
  all_goals cases leaf

end Sound

theorem eq_of_listEquals (h : ∀ t ∈ ss, t.Sound) (h' : ∀ t ∈ ts, t.Sound)
    (same : listEquals ss ts = true) : ss = ts := by
  rw [listEquals_iff] at same
  induction same with
  | nil => rfl
  | cons same _ ih =>
    rw [List.forall_mem_cons] at h h'
    rw [h.1.eq_of_equals h'.1 same, ih h.2 h'.2]

end Token

/-! ### What is read -/

namespace Expr

variable {e : Expr} {ts : List Token}

theorem Yields.equals_self (h : e.Yields ts) (sound : ∀ t ∈ ts, t.Sound) : e.equals e = true := by
  induction h with
  | literal leaf => exact (sound _ List.mem_cons_self).leaf_equals_self leaf
  | grouping _ _ _ ih =>
    exact ih fun t mem => sound t (List.mem_append_left _ (List.mem_cons_of_mem _ mem))
  | unary _ ih | missingLeft _ ih =>
    rw [List.forall_mem_cons] at sound
    simp [equals, sound.1.equals_self, ih sound.2]
  | binary _ _ ihLeft ihRight =>
    rw [List.forall_mem_append, List.forall_mem_cons] at sound
    obtain ⟨left, operator, right⟩ := sound
    simp [equals, ihLeft left, operator.equals_self, ihRight right]
  | colon _ _ _ _ ihCondition ihTrue ihFalse =>
    rw [List.forall_mem_append, List.forall_mem_append, List.forall_mem_cons,
      List.forall_mem_cons] at sound
    obtain ⟨⟨condition, question, onTrue⟩, colon, onFalse⟩ := sound
    simp [equals, ihCondition condition, question.equals_self, ihTrue onTrue, colon.equals_self,
      ihFalse onFalse]
  | noColon _ _ last _ _ ihCondition ihTrue ihFalse =>
    rw [List.forall_mem_append, List.forall_mem_append, List.forall_mem_cons] at sound
    obtain ⟨⟨condition, question, onTrue⟩, onFalse⟩ := sound
    -- the slot of the colon holds a token of the branch in front of it
    have slot := onTrue _ (List.mem_of_getLast? last)
    simp [equals, ihCondition condition, question.equals_self, ihTrue onTrue, slot.equals_self,
      ihFalse onFalse]

end Expr

/-- Two readings come to equal trees or to none, at the same place, with equal diagnostics. -/
structure Reply.Equals (r s : Reply) : Prop where
  tree : Expr.optionEquals r.tree? s.tree? = true
  position : r.cursor.position = s.cursor.position
  diagnostics : List.Forall₂ (fun d d' => d.equals d' = true) (diagnostics r.events)
    (diagnostics s.events)

/-- A reading of sound tokens equals itself. -/
theorem Cursor.In.readAll_equals_self {c : Cursor} {tokens : List Token} (hc : c.In tokens)
    (sound : ∀ t ∈ tokens, t.Sound) : c.readAll.Equals c.readAll := by
  refine ⟨?_, rfl, ?_⟩
  · cases tree : c.readAll.tree? with
    | none => rfl
    | some e =>
      obtain ⟨d, xs, reads⟩ := exists_reads_of_readAll tree
      obtain ⟨ts, passes, written⟩ := reads.makes
      exact written.equals_self fun t mem => sound t (hc.mem_of_passes passes mem)
  · rw [List.forall₂_same, diagnostics_eq_map_reports, List.forall_mem_map]
    intro x mem
    have located := (readAll_disciplined hc).located x mem
    have token := (sound x.token (List.mem_of_getElem? located.1)).equals_self
    simp [Report.diagnostic, Diagnostic.equals, token]

section Source

variable {source source' : String} {file file' : Option String} {tokens tokens' : List Token}

/-- On the tokens of sources, equality is the identity. -/
theorem listEquals_iff_of_lex (lexed : lex source file = .ok tokens)
    (lexed' : lex source' file' = .ok tokens') :
    Token.listEquals tokens tokens' = true ↔ tokens = tokens' := by
  constructor
  · intro same
    exact Token.eq_of_listEquals (fun _ => sound_of_lex lexed) (fun _ => sound_of_lex lexed') same
  · rintro rfl
    rw [Token.listEquals_iff, List.forall₂_same]
    exact fun _ mem => (sound_of_lex lexed mem).equals_self

/-- **Equality is well behaved on what the lexer makes.**  The tokens of a source equal themselves and
no others that a source can have, all numbers among them are numbers, and where the tokens of two
sources are equal, so is what is read of them. -/
theorem lex_equals (lexed : lex source file = .ok tokens)
    (lexed' : lex source' file' = .ok tokens') :
    Token.listEquals tokens tokens = true ∧
      (∀ t ∈ tokens, ∀ value, t.literal = some (.number value) → value.isNaN = false) ∧
      (Token.listEquals tokens tokens' = true ↔ tokens = tokens') ∧
      ∃ start start', ofTokens? tokens = some start ∧ ofTokens? tokens' = some start' ∧
        (Token.listEquals tokens tokens' = true → start.readAll.Equals start'.readAll) := by
  have itself := (listEquals_iff_of_lex lexed lexed).2 rfl
  have identity := listEquals_iff_of_lex lexed lexed'
  refine ⟨itself, fun t mem => (sound_of_lex lexed mem).number, identity, ?_⟩
  obtain ⟨t, last, ends⟩ := exists_getLast?_of_lex lexed
  obtain ⟨t', last', ends'⟩ := exists_getLast?_of_lex lexed'
  obtain ⟨start, hs⟩ := exists_ofTokens? last ends
  obtain ⟨start', hs'⟩ := exists_ofTokens? last' ends'
  refine ⟨start, start', hs, hs', fun same => ?_⟩
  obtain rfl := identity.1 same
  obtain rfl := Option.some.inj (hs.symm.trans hs')
  exact (in_of_ofTokens? hs).readAll_equals_self fun _ => sound_of_lex lexed

end Source

section Sample

/-- The sample between other blanks. -/
def tabbedSource : String := "*\t\"é//\"\x0c?\t1.5\r2"

theorem lex_equals_tabbedSource :
    let c : Cursor := ⟨0, starredTokens.headD default, starredTokens⟩
    starredSource ≠ tabbedSource ∧ lex starredSource none = .ok starredTokens ∧
      lex tabbedSource (some "shell") = .ok starredTokens ∧
      Token.listEquals starredTokens starredTokens = true ∧ c.readAll.Equals c.readAll ∧
      c.readAll.tree?.isSome ∧ (diagnostics c.readAll.events).length = 1 := by
  intro c
  have lexed : lex tabbedSource (some "shell") = .ok starredTokens :=
    eq_ok_of_toOption (by decide +kernel)
  obtain ⟨same, -, -, start, start', hs, hs', equals⟩ := lex_equals lex_starredSource lexed
  obtain rfl : c = start := Option.some.inj hs
  obtain rfl : c = start' := Option.some.inj hs'
  refine ⟨by decide, lex_starredSource, lexed, same, equals same, ?_, ?_⟩
  · decide +kernel
  · decide +kernel

end Sample

end LoxReader
