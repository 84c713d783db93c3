import LoxReader.Expr.Basic
import LoxReader.Proofs.Lexing.Derivation

/-!
# Trees that are alike

Trees with the same nodes, as far as their text can tell: tokens may stand elsewhere, and numbers
need only be written alike.  Seen as a head in front of some operands, nodes are alike if their heads
are and their operands one by one.
-/

namespace LoxReader

/-! ### The texts of numbers -/

theorem Decimal.text_chars (x : Decimal) : ∀ c ∈ x.text.toList, c.isDigit = true ∨ c = '.' := by
  have digit : ∀ c ∈ Nat.toDigits 10 x.digits, c.isDigit = true := fun c =>
    Nat.isDigit_of_mem_toDigits (by decide) (by decide)
  intro c
  unfold text
  dsimp only
  split
  · rw [String.toList_ofList, List.mem_append]
    rintro (mem | mem)
    · exact .inl (digit c mem)
    · obtain rfl := List.eq_of_mem_replicate mem
      exact .inl (by decide)
  · split
    · rw [String.toList_ofList, List.mem_append, List.mem_cons]
      rintro (mem | point | mem)
      · exact .inl (digit c (List.mem_of_mem_take mem))
      · exact .inr point
      · exact .inl (digit c (List.mem_of_mem_drop mem))
    · rw [String.toList_ofList, List.cons_append, List.cons_append, List.mem_cons, List.mem_cons,
        List.mem_append]
      rintro (rfl | point | mem | mem)
      · exact .inl (by decide)
      · exact .inr point
      · obtain rfl := List.eq_of_mem_replicate mem
        exact .inl (by decide)
      · exact .inl (digit c mem)

/-- The character may stand in the text of a number: a digit, a point, a sign, or a letter of `NaN`
and `inf`. -/
def inNumeral (c : Char) : Bool := c.isDigit || ".-NaNinf".toList.contains c

theorem Double.text_chars (x : Double) : ∀ c ∈ x.text.toList, inNumeral c = true := by
  have all : ∀ word ∈ ["NaN", "inf", "0", "-"], word.toList.all inNumeral = true := by decide
  have word (word : String) (mem : word ∈ ["NaN", "inf", "0", "-"]) :
      ∀ c ∈ word.toList, inNumeral c = true := List.all_eq_true.1 (all word mem)
  have unsigned : ∀ c ∈ (if x.isInfinite then "inf" else if x.isZero then "0"
      else x.parts.shortest.text).toList, inNumeral c = true := by
    split
    · exact word "inf" (by decide)
    · split
      · exact word "0" (by decide)
      · intro c mem
        obtain digit | rfl := Decimal.text_chars _ c mem
        · simp [inNumeral, digit]
        · decide
  unfold text
  split
  · exact word "NaN" (by decide)
  · dsimp only
    split
    · rw [String.toList_append]
      intro c mem
      obtain sign | mem := List.mem_append.1 mem
      · exact word "-" (by decide) c sign
      · exact unsigned c mem
    · exact unsigned

theorem Double.notMem_text (x : Double) {c : Char} (h : inNumeral c = false) : c ∉ x.text.toList := by
  intro mem
  rw [x.text_chars c mem] at h
  cases h

/-! ### The texts of leaves -/

/-- The character may stand in the text of a leaf, if this is no string. -/
def inWord (c : Char) : Bool := inNumeral c || "truefalsenil".toList.contains c

/-- The same value, as far as its text tells. -/
inductive Literal.Alike : Literal → Literal → Prop
  | number {x y : Double} (same : x.text = y.text) : Alike (.number x) (.number y)
  | string (value : String) : Alike (.string value) (.string value)
  | boolean (value : Bool) : Alike (.boolean value) (.boolean value)
  | nil : Alike .nil .nil

namespace Literal

variable {x y : Literal}

theorem Alike.text_eq (h : x.Alike y) : x.text = y.text := by
  cases h with
  | number same => exact same
  | string | boolean | nil => rfl

theorem text_chars (plain : ∀ value, x ≠ .string value) : ∀ c ∈ x.text.toList, inWord c = true := by
  cases x with
  | number x =>
    intro c mem
    simp [inWord, x.text_chars c mem]
  | string value => exact absurd rfl (plain value)
  | boolean value =>
    have all : ∀ value, (boolean value).text.toList.all inWord = true := by decide
    exact List.all_eq_true.1 (all value)
  | nil => exact List.all_eq_true.1 (by decide : nil.text.toList.all inWord = true)

theorem notMem_text (plain : ∀ value, x ≠ .string value) {c : Char} (h : inWord c = false) :
    c ∉ x.text.toList := by
  intro mem
  rw [text_chars plain c mem] at h
  cases h

theorem Alike.symm (h : x.Alike y) : y.Alike x := by
  cases h with
  | number same => exact .number same.symm
  | string value => exact .string value
  | boolean value => exact .boolean value
  | nil => exact .nil

/-- No boolean and no nil is written like a number. -/
theorem alike_of_text_eq_number {x : Double} (plain : ∀ value, y ≠ .string value)
    (same : x.text = y.text) : (number x).Alike y := by
  have other {c : Char} (hc : inNumeral c = false) : c ∉ y.text.toList := same ▸ x.notMem_text hc
  cases y with
  | number y => exact .number same
  | string value => exact absurd rfl (plain value)
  | boolean value =>
    cases value
    · exact absurd (by decide) (other (by decide : inNumeral 's' = false))
    · exact absurd (by decide) (other (by decide : inNumeral 't' = false))
  | nil => exact absurd (by decide) (other (by decide : inNumeral 'l' = false))

theorem alike_of_text_eq (plain : ∀ value, x ≠ .string value) (plain' : ∀ value, y ≠ .string value)
    (same : x.text = y.text) : x.Alike y := by
  have words : ∀ value, (boolean value).text ≠ nil.text := by decide
  cases x with
  | string value => exact absurd rfl (plain value)
  | number x => exact alike_of_text_eq_number plain' same
  | boolean value =>
    cases y with
    | string value => exact absurd rfl (plain' value)
    | number y => exact (alike_of_text_eq_number plain same.symm).symm
    | boolean value' =>
      have injective : ∀ b b', (boolean b).text = (boolean b').text → b = b' := by decide
      exact injective value value' same ▸ .boolean value
    | nil => exact absurd same (words value)
  | nil =>
    cases y with
    | string value => exact absurd rfl (plain' value)
    | number y => exact (alike_of_text_eq_number plain same.symm).symm
    | boolean value => exact absurd same.symm (words value)
    | nil => exact .nil

end Literal

/-! ### The heads of nodes -/

/-- The operators and the punctuation, each with its text. -/
def Kind.spellings : List (Kind × List Char) :=
  symbols.map fun (kind, first, more) => (kind, first :: more)

/-- The token is one of the operators, or punctuation. -/
structure Token.IsSymbol (t : Token) : Prop where
  spelled : (t.kind, t.lexeme.toList) ∈ Kind.spellings
  bare : t.literal = none

/-- A lexeme of the kind of a symbol is spelled like it. -/
theorem Lexeme.spelled {text : List Char} {kind : Kind} {literal : Option Literal}
    (h : Lexeme text kind literal) (symbol : kind ∈ Kind.spellings.map Prod.fst) :
    (kind, text) ∈ Kind.spellings ∧ literal = none := by
  cases h with
  | word =>
    have keywords : ∀ entry ∈ Kind.keywords, entry.2 ∉ Kind.spellings.map Prod.fst := by decide
    obtain identifier | keyword := Kind.ofWord_cases (String.ofList text)
    · rw [identifier] at symbol
      exact absurd symbol (by decide)
    · exact absurd symbol (keywords _ keyword)
  | number | string => exact absurd symbol (by decide)
  | @symbol kind first more mem => exact ⟨List.mem_map.2 ⟨_, mem, rfl⟩, rfl⟩

namespace Token.IsSymbol

variable {s t : Token}

theorem space_notMem (h : t.IsSymbol) : ' ' ∉ t.lexeme.toList := by
  have spaceless : ∀ entry ∈ Kind.spellings, ' ' ∉ entry.2 := by decide
  exact spaceless _ h.spelled

theorem lexeme_notMem (h : t.IsSymbol) : t.lexeme.toList ∉ ["group".toList, "?:".toList] := by
  have apart : ∀ entry ∈ Kind.spellings, entry.2 ∉ ["group".toList, "?:".toList] := by decide
  exact apart _ h.spelled

/-- A symbol is known by its text. -/
theorem content_eq (h : s.IsSymbol) (h' : t.IsSymbol) (same : s.lexeme.toList = t.lexeme.toList) :
    s.content = t.content := by
  have known : ∀ a ∈ Kind.spellings, ∀ b ∈ Kind.spellings, a.2 = b.2 → a.1 = b.1 := by decide
  have kind : s.kind = t.kind := known _ h.spelled _ h'.spelled same
  rw [content, content, h.bare, h'.bare, String.toList_inj.1 same, kind]

/-- A symbol is known by its kind. -/
theorem content_eq_of_kind (h : s.IsSymbol) (h' : t.IsSymbol) (same : s.kind = t.kind) :
    s.content = t.content := by
  have known : ∀ a ∈ Kind.spellings, ∀ b ∈ Kind.spellings, a.1 = b.1 → a.2 = b.2 := by decide
  have lexeme := known _ h.spelled _ h'.spelled same
  rw [content, content, h.bare, h'.bare, same, String.toList_inj.1 lexeme]

end Token.IsSymbol

/-- What a node begins with. -/
inductive Head where
  | group
  | operator (token : Token)
  | choice (question : Token)

namespace Head

variable {head head' : Head}

def text : Head → List Char
  | group => "group".toList
  | operator token => token.lexeme.toList
  | choice _ => "?:".toList

/-- The head is known by its text. -/
def IsLegible : Head → Prop
  | group => True
  | operator token => token.IsSymbol
  | choice question => question.IsSymbol ∧ question.kind = .question

/-- The same head, wherever it stands. -/
inductive Alike : Head → Head → Prop
  | group : Alike .group .group
  | operator {s t : Token} (same : s.content = t.content) : Alike (.operator s) (.operator t)
  | choice {s t : Token} (same : s.content = t.content) : Alike (.choice s) (.choice t)

theorem IsLegible.space_notMem (h : head.IsLegible) : ' ' ∉ head.text := by
  cases head with
  | group => exact (by decide : ' ' ∉ "group".toList)
  | operator => exact Token.IsSymbol.space_notMem h
  | choice => exact (by decide : ' ' ∉ "?:".toList)

theorem alike_of_text_eq (h : head.IsLegible) (h' : head'.IsLegible)
    (same : head.text = head'.text) : head.Alike head' := by
  have apart : "group".toList ≠ "?:".toList := by decide
  have reserved {operator : Token} (symbol : operator.IsSymbol) :
      operator.lexeme.toList ≠ "group".toList ∧ operator.lexeme.toList ≠ "?:".toList := by
    simpa only [List.mem_cons, List.not_mem_nil, or_false, not_or] using symbol.lexeme_notMem
  cases head with
  | group =>
    cases head' with
    | group => exact .group
    | operator => exact absurd same.symm (reserved h').1
    | choice => exact absurd same apart
  | operator =>
    cases head' with
    | group => exact absurd same (reserved h).1
    | operator => exact .operator (Token.IsSymbol.content_eq h h' same)
    | choice => exact absurd same (reserved h).2
  | choice =>
    cases head' with
    | group => exact absurd same.symm apart
    | operator => exact absurd same.symm (reserved h').2
    | choice => exact .choice (h.1.content_eq_of_kind h'.1 (h.2.trans h'.2.symm))

end Head

namespace Expr

variable {e e' : Expr} {head head' : Head} {operands operands' : List (Option Expr)}

/-- The same nodes with the same operators; where a choice has its colon is left open. -/
inductive Alike : Expr → Expr → Prop
  | literal {x y : Literal} (value : x.Alike y) : Alike (.literal x) (.literal y)
  | grouping {a a' : Expr} : Alike a a' → Alike (.grouping a) (.grouping a')
  | unary {s t : Token} {a a' : Expr} (operator : s.content = t.content) : Alike a a' →
    Alike (.unary s a) (.unary t a')
  | binary {s t : Token} {a a' b b' : Expr} (operator : s.content = t.content) : Alike a a' →
    Alike b b' → Alike (.binary a s b) (.binary a' t b')
  | missingLeft {s t : Token} {a a' : Expr} (operator : s.content = t.content) : Alike a a' →
    Alike (.missingLeft s a) (.missingLeft t a')
  | ternary {s t colon colon' : Token} {a a' b b' d d' : Expr} (question : s.content = t.content) :
    Alike a a' → Alike b b' → Alike d d' → Alike (.ternary a s b colon d) (.ternary a' t b' colon' d')

theorem Alike.text_eq (h : e.Alike e') : e.text = e'.text := by
  induction h with
  | literal value => exact value.text_eq
  | grouping _ ih => rw [text, text, ih]
  | @unary s t _ _ operator _ ih | @missingLeft s t _ _ operator _ ih =>
    have lexeme : s.lexeme = t.lexeme := congrArg (·.2.1) operator
    rw [text, text, lexeme, ih]
  | @binary s t _ _ _ _ operator _ _ ih ih' =>
    have lexeme : s.lexeme = t.lexeme := congrArg (·.2.1) operator
    rw [text, text, lexeme, ih, ih']
  | ternary _ _ _ _ ih ih' ih'' => rw [text, text, ih, ih', ih'']

/-- The head of a node and its operands, a missing one included. -/
def parts? : Expr → Option (Head × List (Option Expr))
  | literal _ => none
  | grouping inner => some (.group, [some inner])
  | unary operator right => some (.operator operator, [some right])
  | binary left operator right => some (.operator operator, [some left, some right])
  | missingLeft operator right => some (.operator operator, [none, some right])
  | ternary condition question onTrue _ onFalse =>
    some (.choice question, [some condition, some onTrue, some onFalse])

/-- The texts of operands, a space in front of each. -/
def operandsText (operands : List (Option Expr)) : List Char :=
  operands.flatMap fun operand => ' ' :: (operandText operand).toList

theorem text_of_parts (h : e.parts? = some (head, operands)) :
    e.text.toList = '(' :: head.text ++ operandsText operands ++ [')'] := by
  cases e <;> cases h <;> simp [text, Head.text, operandsText, operandText]

theorem exists_literal_of_parts (h : e.parts? = none) : ∃ value, e = .literal value := by
  cases e with
  | literal value => exact ⟨value, rfl⟩
  | _ => cases h

theorem operands_ne_nil (h : e.parts? = some (head, operands)) : operands ≠ [] := by
  cases e <;> cases h <;> exact List.cons_ne_nil _ _

/-- Induction over a tree, a node behind its operands. -/
theorem parts_induction {motive : Expr → Prop} (literal : ∀ value, motive (.literal value))
    (node : ∀ e head operands, e.parts? = some (head, operands) →
      (∀ a, some a ∈ operands → motive a) → motive e) (e : Expr) : motive e := by
  induction e with
  | literal value => exact literal value
  | grouping inner ih | unary _ right ih | missingLeft _ right ih =>
    exact node _ _ _ rfl (by simpa using ih)
  | binary left _ right ihLeft ihRight => exact node _ _ _ rfl (by simp [ihLeft, ihRight])
  | ternary _ _ _ _ _ ihCondition ihTrue ihFalse =>
    exact node _ _ _ rfl (by simp [ihCondition, ihTrue, ihFalse])

/-- The same operands missing, the others alike. -/
inductive OperandsAlike : List (Option Expr) → List (Option Expr) → Prop
  | nil : OperandsAlike [] []
  | missing {operands operands' : List (Option Expr)} : OperandsAlike operands operands' →
    OperandsAlike (none :: operands) (none :: operands')
  | present {a b : Expr} {operands operands' : List (Option Expr)} (like : a.Alike b) :
    OperandsAlike operands operands' → OperandsAlike (some a :: operands) (some b :: operands')

/-- Nodes are alike if their heads are and their operands, one by one. -/
theorem alike_of_parts (parts : e.parts? = some (head, operands))
    (parts' : e'.parts? = some (head', operands')) (heads : head.Alike head')
    (same : OperandsAlike operands operands') : e.Alike e' := by
  cases e with
  | literal => cases parts
  | grouping inner =>
    cases parts
    cases e' with
    | grouping inner' =>
      cases parts'
      cases same with
      | present like => exact .grouping like
    | _ => cases parts' <;> cases heads
  | unary operator right =>
    cases parts
    cases e' with
    | unary operator' right' =>
      cases parts'
      cases heads with
      | operator content =>
        cases same with
        | present like => exact .unary content like
    | binary | missingLeft =>
      cases parts'
      obtain _ | _ | ⟨_, ⟨⟩⟩ := same
    | _ => cases parts' <;> cases heads
  | binary left operator right =>
    cases parts
    cases e' with
    | binary left' operator' right' =>
      cases parts'
      cases heads with
      | operator content =>
        cases same with
        | present likeLeft more =>
          cases more with
          | present likeRight => exact .binary content likeLeft likeRight
    | unary =>
      cases parts'
      obtain _ | _ | ⟨_, ⟨⟩⟩ := same
    | missingLeft =>
      cases parts'
      cases same
    | _ => cases parts' <;> cases heads
  | missingLeft operator right =>
    cases parts
    cases e' with
    | missingLeft operator' right' =>
      cases parts'
      cases heads with
      | operator content =>
        cases same with
        | missing more =>
          cases more with
          | present like => exact .missingLeft content like
    | unary | binary =>
      cases parts'
      cases same
    | _ => cases parts' <;> cases heads
  | ternary condition question onTrue colon onFalse =>
    cases parts
    cases e' with
    | ternary condition' question' onTrue' colon' onFalse' =>
      cases parts'
      cases heads with
      | choice content =>
        cases same with
        | present likeCondition more =>
          cases more with
          | present likeTrue more =>
            cases more with
            | present likeFalse => exact .ternary content likeCondition likeTrue likeFalse
    | _ => cases parts' <;> cases heads

end Expr
end LoxReader
