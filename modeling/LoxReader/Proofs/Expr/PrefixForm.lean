import LoxReader.Proofs.Expr.Alike
import LoxReader.Proofs.Grammar.Precedence

/-!
# The prefix form tells the tree

The text of a tree without strings can be taken apart again: a leaf ends at a space or a closing
parenthesis, and a node has its head in front of its first space, then its operands one by one.  So
two such trees that were read from sources have the same text only if they are alike
(`text_eq_iff_of_readAll`).
-/

namespace LoxReader

namespace Expr

variable {e e' : Expr} {head head' : Head} {operands operands' : List (Option Expr)}

/-! ### Trees that can be read off their text -/

/-- The root is no string, and its head can be read off its text. -/
structure LegibleRoot (e : Expr) : Prop where
  stringless : ∀ value, e ≠ .literal (.string value)
  head : ∀ head operands, e.parts? = some (head, operands) → head.IsLegible

/-- All of the tree can be read off its text. -/
def Legible (e : Expr) : Prop := ∀ s ∈ e.nodes, s.LegibleRoot

theorem mem_nodes_self (e : Expr) : e ∈ e.nodes := by
  cases e <;> exact List.mem_cons_self

theorem Legible.root (h : e.Legible) : e.LegibleRoot := h e e.mem_nodes_self

theorem nodes_subset (parts : e.parts? = some (head, operands)) {a : Expr} (mem : some a ∈ operands) :
    a.nodes ⊆ e.nodes := by
  cases e with
  | literal => cases parts
  | grouping inner | unary _ right | missingLeft _ right =>
    cases parts
    obtain rfl : a = _ := by simpa using mem
    exact List.subset_cons_self _ _
  | binary left _ right =>
    cases parts
    obtain rfl | rfl : a = left ∨ a = right := by simpa using mem
    · exact List.subset_cons_of_subset _ (List.subset_append_left _ _)
    · exact List.subset_cons_of_subset _ (List.subset_append_right _ _)
  | ternary condition _ onTrue _ onFalse =>
    cases parts
    have first : condition.nodes ++ onTrue.nodes ⊆
      condition.nodes ++ onTrue.nodes ++ onFalse.nodes := List.subset_append_left _ _
    obtain rfl | rfl | rfl : a = condition ∨ a = onTrue ∨ a = onFalse := by simpa using mem
    · exact List.subset_cons_of_subset _ (List.Subset.trans (List.subset_append_left _ _) first)
    · exact List.subset_cons_of_subset _ (List.Subset.trans (List.subset_append_right _ _) first)
    · exact List.subset_cons_of_subset _ (List.subset_append_right _ _)

theorem Legible.plain {value : Literal} (h : (literal value).Legible) :
    ∀ text, value ≠ .string text :=
  fun text eq => h.root.stringless text (congrArg literal eq)

theorem Legible.operand (h : e.Legible) (parts : e.parts? = some (head, operands)) {a : Expr}
    (mem : some a ∈ operands) : a.Legible :=
  fun s hs => h s (nodes_subset parts mem hs)

/-! ### Taking a text apart -/

section Cutting

variable {rest rest' : List Char} {a : Expr}

/-- The character may stand inside a leaf. -/
def inLeaf (c : Char) : Bool := c ≠ ' ' && c ≠ ')'

/-- A leaf in front of this text ends there. -/
def EndsLeaf (rest : List Char) : Prop := ∀ c ∈ rest.head?, inLeaf c = false

theorem endsLeaf_operandsText (operands : List (Option Expr)) (rest : List Char) :
    EndsLeaf (operandsText operands ++ ')' :: rest) := by
  intro c mem
  cases operands with
  | nil =>
    cases mem
    decide
  | cons operand operands =>
    cases mem
    decide

theorem run_literal {value : Literal} (plain : ∀ text, value ≠ .string text) (ends : EndsLeaf rest) :
    Run inLeaf value.text.toList rest := by
  refine ⟨fun c mem => ?_, ends⟩
  have space : c ≠ ' ' := fun eq => Literal.notMem_text plain (by decide) (eq ▸ mem)
  have closing : c ≠ ')' := fun eq => Literal.notMem_text plain (by decide) (eq ▸ mem)
  simp [inLeaf, space, closing]

theorem run_missingText (ends : EndsLeaf rest) : Run inLeaf missingText.toList rest :=
  ⟨List.all_eq_true.1 (by decide), ends⟩

theorem run_head (h : head.IsLegible) (some : operands ≠ []) (rest : List Char) :
    Run (· ≠ ' ') head.text (operandsText operands ++ rest) := by
  refine .of_notMem h.space_notMem fun c mem => ?_
  obtain ⟨operand, operands, rfl⟩ := List.exists_cons_of_ne_nil some
  cases mem
  rfl

/-- A leaf does not begin like a node. -/
theorem literal_ne_node {value : Literal} (plain : ∀ text, value ≠ .string text)
    (ends : EndsLeaf rest) (parts : e.parts? = some (head, operands)) :
    value.text.toList ++ rest ≠ e.text.toList ++ rest' := by
  rw [text_of_parts parts]
  intro same
  cases chars : value.text.toList with
  | nil =>
    rw [chars, List.nil_append] at same
    rw [same] at ends
    exact absurd (ends '(' rfl) (by decide)
  | cons c cs =>
    rw [chars] at same
    obtain rfl : c = '(' := (List.cons.inj same).1
    exact Literal.notMem_text plain (by decide) (chars ▸ List.mem_cons_self)

/-- No tree begins with what stands for a missing operand. -/
theorem text_ne_missingText (h : a.Legible) (ends : EndsLeaf rest) (ends' : EndsLeaf rest') :
    a.text.toList ++ rest ≠ missingText.toList ++ rest' := by
  intro same
  cases parts : a.parts? with
  | none =>
    obtain ⟨value, rfl⟩ := exists_literal_of_parts parts
    have leaf := ((run_literal h.plain ends).unique (run_missingText ends') same).1
    exact Literal.notMem_text h.plain (by decide : inWord '<' = false) (leaf ▸ by decide)
  | some parts' =>
    rw [text_of_parts parts] at same
    exact absurd (List.cons.inj same).1 (by decide)

/-- The text of the tree tells the tree, also in front of more text. -/
def CutsOff (a : Expr) : Prop :=
  ∀ (b : Expr) (rest rest' : List Char), b.Legible → EndsLeaf rest → EndsLeaf rest' →
    a.text.toList ++ rest = b.text.toList ++ rest' → a.Alike b ∧ rest = rest'

/-- Operands are cut off one by one, up to the parenthesis behind the last one. -/
theorem operands_cutsOff (cuts : ∀ a, some a ∈ operands → a.Legible ∧ a.CutsOff)
    (legible : ∀ a, some a ∈ operands' → a.Legible)
    (same : operandsText operands ++ ')' :: rest = operandsText operands' ++ ')' :: rest') :
    OperandsAlike operands operands' ∧ rest = rest' := by
  induction operands generalizing operands' with
  | nil =>
    cases operands' with
    | nil => exact ⟨.nil, (List.cons.inj same).2⟩
    | cons => exact absurd (List.cons.inj same).1 (by decide)
  | cons operand operands ih =>
    cases operands' with
    | nil => exact absurd (List.cons.inj same).1 (by decide)
    | cons operand' operands' =>
      have behind : (operandText operand).toList ++ (operandsText operands ++ ')' :: rest) =
          (operandText operand').toList ++ (operandsText operands' ++ ')' :: rest') := by
        simpa [operandsText] using same
      have ends := endsLeaf_operandsText operands rest
      have ends' := endsLeaf_operandsText operands' rest'
      have further := ih (fun a mem => cuts a (List.mem_cons_of_mem _ mem)) fun a mem =>
        legible a (List.mem_cons_of_mem _ mem)
      cases operand with
      | none =>
        cases operand' with
        | none =>
          obtain ⟨likes, eq⟩ := further (List.append_cancel_left behind)
          exact ⟨.missing likes, eq⟩
        | some b =>
          have legible' := legible b List.mem_cons_self
          exact absurd behind.symm (text_ne_missingText legible' ends' ends)
      | some a =>
        obtain ⟨legible', cut⟩ := cuts a List.mem_cons_self
        cases operand' with
        | none => exact absurd behind (text_ne_missingText legible' ends ends')
        | some b =>
          obtain ⟨like, left⟩ := cut b _ _ (legible b List.mem_cons_self) ends ends' behind
          obtain ⟨likes, eq⟩ := further left
          exact ⟨.present like likes, eq⟩

/-- A legible tree is told by its text. -/
theorem Legible.cutsOff (h : a.Legible) : a.CutsOff := by
  induction a using parts_induction with
  | literal value =>
    intro b rest rest' h' ends ends' same
    cases parts : b.parts? with
    | none =>
      obtain ⟨value', rfl⟩ := exists_literal_of_parts parts
      obtain ⟨leaf, eq⟩ := (run_literal h.plain ends).unique (run_literal h'.plain ends') same
      exact ⟨.literal (Literal.alike_of_text_eq h.plain h'.plain (String.toList_inj.1 leaf)), eq⟩
    | some => exact absurd same (literal_ne_node h.plain ends parts)
  | node a head operands parts ih =>
    intro b rest rest' h' ends ends' same
    cases parts' : b.parts? with
    | none =>
      obtain ⟨value, rfl⟩ := exists_literal_of_parts parts'
      exact absurd same.symm (literal_ne_node h'.plain ends' parts)
    | some both =>
      obtain ⟨head', operands'⟩ := both
      have legible := h.root.head head operands parts
      have legible' := h'.root.head head' operands' parts'
      have inside : head.text ++ (operandsText operands ++ ')' :: rest) =
          head'.text ++ (operandsText operands' ++ ')' :: rest') := by
        simpa [text_of_parts parts, text_of_parts parts'] using same
      obtain ⟨heads, further⟩ := (run_head legible (operands_ne_nil parts) _).unique
        (run_head legible' (operands_ne_nil parts') _) inside
      obtain ⟨likes, eq⟩ := operands_cutsOff
        (fun b mem => ⟨h.operand parts mem, ih b mem (h.operand parts mem)⟩)
        (fun b mem => h'.operand parts' mem) further
      exact ⟨alike_of_parts parts parts' (Head.alike_of_text_eq legible legible' heads) likes, eq⟩

theorem Legible.text_eq_iff (h : e.Legible) (h' : e'.Legible) : e.text = e'.text ↔ e.Alike e' := by
  refine ⟨fun same => ?_, Alike.text_eq⟩
  exact (h.cutsOff e' [] [] h' nofun nofun (by rw [same])).1

end Cutting

/-! ### Trees that are read -/

/-- No leaf of the tree is a string. -/
def StringFree (e : Expr) : Prop := ∀ s ∈ e.nodes, ∀ value, s ≠ .literal (.string value)

/-- The operator at the root, a question mark included. -/
def operator? : Expr → Option Token
  | literal _ | grouping _ => none
  | unary operator _ | binary _ operator _ | missingLeft operator _ => some operator
  | ternary _ question _ _ _ => some question

/-- The operators of a tree are among the tokens it is written with. -/
theorem Yields.operator_mem {ts : List Token} {s : Expr} {t : Token} (h : e.Yields ts)
    (hs : s ∈ e.nodes) (ht : s.operator? = some t) : t ∈ ts := by
  induction h with
  | literal =>
    obtain rfl := List.mem_singleton.1 hs
    cases ht
  | grouping _ _ _ ih =>
    obtain rfl | hs := List.mem_cons.1 hs
    · cases ht
    · simp [ih hs]
  | unary _ ih | missingLeft _ ih =>
    obtain rfl | hs := List.mem_cons.1 hs
    · cases ht
      exact List.mem_cons_self
    · exact List.mem_cons_of_mem _ (ih hs)
  | binary _ _ ihLeft ihRight =>
    obtain rfl | hs := List.mem_cons.1 hs
    · cases ht
      simp
    · obtain hs | hs := List.mem_append.1 hs
      · simp [ihLeft hs]
      · simp [ihRight hs]
  | colon _ _ _ _ ihCondition ihTrue ihFalse | noColon _ _ _ _ _ ihCondition ihTrue ihFalse =>
    obtain rfl | hs := List.mem_cons.1 hs
    · cases ht
      simp
    · rw [List.mem_append, List.mem_append] at hs
      obtain (hs | hs) | hs := hs
      · simp [ihCondition hs]
      · simp [ihTrue hs]
      · simp [ihFalse hs]

end Expr

/-- A token of a source that has the kind of a symbol is one. -/
theorem Token.isSymbol_of_lex {source : String} {file : Option String} {tokens : List Token}
    {t : Token} (lexed : lex source file = .ok tokens) (mem : t ∈ tokens)
    (kind : t.kind ∈ Kind.spellings.map Prod.fst) : t.IsSymbol := by
  obtain ⟨rest, cut⟩ | rfl := mem_cases_of_lex lexed mem
  · obtain ⟨spelled, bare⟩ := cut.worth.spelled kind
    exact ⟨spelled, bare⟩
  · exact absurd kind (by decide : Kind.eof ∉ _)

theorem Rung.operators_subset_spellings (rung : Rung) :
    rung.operators ⊆ Kind.spellings.map Prod.fst := by
  cases rung <;> decide

/-- A tree that was read from a source can be read off its text, but for its strings. -/
theorem legible_of_readAll {source : String} {file : Option String} {tokens : List Token} {c : Cursor}
    {e : Expr} (lexed : lex source file = .ok tokens) (start : Cursor.ofTokens? tokens = some c)
    (tree : c.readAll.tree? = some e) (stringFree : e.StringFree) : e.Legible := by
  obtain ⟨d, xs, reads⟩ := Cursor.exists_reads_of_readAll tree
  obtain ⟨ts, passes, yields⟩ := reads.makes
  intro s hs
  have symbol {t : Token} (operator : s.operator? = some t)
      (kind : t.kind ∈ Kind.spellings.map Prod.fst) : t.IsSymbol := by
    have mem := (Cursor.in_of_ofTokens? start).mem_of_passes passes (yields.operator_mem hs operator)
    exact Token.isSymbol_of_lex lexed mem kind
  have inPlace := reads.climbs.inPlace s hs
  refine ⟨stringFree s hs, fun head operands parts => ?_⟩
  cases s with
  | literal => cases parts
  | grouping =>
    cases parts
    exact trivial
  | unary operator =>
    cases parts
    have unaries : unaryOperators ⊆ Kind.spellings.map Prod.fst := by decide
    exact symbol rfl (unaries inPlace.1)
  | binary _ operator | missingLeft operator =>
    cases parts
    obtain ⟨rung, own, -⟩ := inPlace
    exact symbol rfl (rung.operators_subset_spellings own)
  | ternary _ question =>
    cases parts
    have asks : question.kind = .question := inPlace.1
    exact ⟨symbol rfl (asks ▸ by decide), asks⟩

/-- **The prefix form is unambiguous.** Two trees without strings, each read from a source, operands
missing or not, have the same text if and only if they are alike. -/
theorem text_eq_iff_of_readAll {source source' : String} {file file' : Option String}
    {tokens tokens' : List Token} {c c' : Cursor} {e e' : Expr}
    (lexed : lex source file = .ok tokens) (lexed' : lex source' file' = .ok tokens')
    (start : Cursor.ofTokens? tokens = some c) (start' : Cursor.ofTokens? tokens' = some c')
    (tree : c.readAll.tree? = some e) (tree' : c'.readAll.tree? = some e')
    (stringFree : e.StringFree) (stringFree' : e'.StringFree) : e.text = e'.text ↔ e.Alike e' := by
  have legible := legible_of_readAll lexed start tree stringFree
  exact legible.text_eq_iff (legible_of_readAll lexed' start' tree' stringFree')

/-- `*1?!2:(nil)` and the same over two lines, with another numeral and without the colon. -/
theorem text_eq_iff_of_gapped :
    let one := Literal.number ⟨0x3ff0000000000000⟩
    let two := Literal.number ⟨0x4000000000000000⟩
    let tree (star question bang slot : Token) : Expr :=
      .ternary (.missingLeft star (.literal one)) question (.unary bang (.literal two)) slot
        (.grouping (.literal .nil))
    let star : Token := ⟨.star, "*", none, 1, ⟨0, 1, "shell"⟩⟩
    let question : Token := ⟨.question, "?", none, 1, ⟨2, 3, "shell"⟩⟩
    let bang : Token := ⟨.not, "!", none, 1, ⟨3, 4, "shell"⟩⟩
    let colon : Token := ⟨.colon, ":", none, 1, ⟨5, 6, "shell"⟩⟩
    let tokens := [star, ⟨.number, "1", some one, 1, ⟨1, 2, "shell"⟩⟩, question, bang,
      ⟨.number, "2", some two, 1, ⟨4, 5, "shell"⟩⟩, colon,
      ⟨.openParen, "(", none, 1, ⟨6, 7, "shell"⟩⟩, ⟨.kwNil, "nil", none, 1, ⟨7, 10, "shell"⟩⟩,
      ⟨.closeParen, ")", none, 1, ⟨10, 11, "shell"⟩⟩, ⟨.eof, "", none, 1, ⟨11, 11, "shell"⟩⟩]
    let question' : Token := ⟨.question, "?", none, 1, ⟨6, 7, "shell"⟩⟩
    let bang' : Token := ⟨.not, "!", none, 2, ⟨8, 9, "shell"⟩⟩
    let second : Token := ⟨.number, "2", some two, 2, ⟨9, 10, "shell"⟩⟩
    let tokens' := [star, ⟨.number, "1.0", some one, 1, ⟨2, 5, "shell"⟩⟩, question', bang', second,
      ⟨.openParen, "(", none, 2, ⟨10, 11, "shell"⟩⟩, ⟨.kwNil, "nil", none, 2, ⟨11, 14, "shell"⟩⟩,
      ⟨.closeParen, ")", none, 2, ⟨14, 15, "shell"⟩⟩, ⟨.eof, "", none, 2, ⟨15, 15, "shell"⟩⟩]
    let e := tree star question bang colon
    let e' := tree star question' bang' second
    lex "*1?!2:(nil)" none = .ok tokens ∧ lex "* 1.0 ?\n!2(nil)" none = .ok tokens' ∧
      (Cursor.readAll ⟨0, star, tokens⟩).tree? = some e ∧
      (Cursor.readAll ⟨0, star, tokens'⟩).tree? = some e' ∧
      e.StringFree ∧ e'.StringFree ∧ (e.text = e'.text ↔ e.Alike e') ∧ e.text = e'.text := by
  intro one two tree star question bang colon tokens question' bang' second tokens' e e'
  have lexed : lex "*1?!2:(nil)" none = .ok tokens := eq_ok_of_toOption (by decide +kernel)
  have lexed' : lex "* 1.0 ?\n!2(nil)" none = .ok tokens' := eq_ok_of_toOption (by decide +kernel)
  have read : (Cursor.readAll ⟨0, star, tokens⟩).tree? = some e := by decide +kernel
  have read' : (Cursor.readAll ⟨0, star, tokens'⟩).tree? = some e' := by decide +kernel
  have stringFree (question bang slot : Token) : (tree star question bang slot).StringFree := by
    simp [tree, one, two, Expr.StringFree, Expr.nodes]
  have both : e.text = e'.text ↔ e.Alike e' :=
    text_eq_iff_of_readAll lexed lexed' rfl rfl read read' (stringFree _ _ _) (stringFree _ _ _)
  refine ⟨lexed, lexed', read, read', stringFree _ _ _, stringFree _ _ _, both, both.2 ?_⟩
  exact .ternary rfl (.missingLeft rfl (.literal (.number rfl)))
    (.unary rfl (.literal (.number rfl))) (.grouping (.literal .nil))

end LoxReader
