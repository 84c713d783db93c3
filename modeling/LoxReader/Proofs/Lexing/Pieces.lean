import LoxReader.Token.Rule

/-!
# What the rules cut off

`Takes` says what a rule takes off the front of an input and what may stand behind it.  The first
rule that applies cuts the input in two: the text it takes is skipped (`Skippable`), is the lexeme
of a token (`Lexeme`), or is at fault.
-/

namespace LoxReader

/-! ### Runs of one class of characters -/

/-- `run` is the longest front of `run ++ rest` with characters of one class only. -/
structure Run (p : Char → Bool) (run rest : List Char) : Prop where
  all : ∀ c ∈ run, p c = true
  stop : ∀ c ∈ rest.head?, p c = false

theorem exists_run (p : Char → Bool) (cs : List Char) :
    ∃ run rest, cs = run ++ rest ∧ cs.takeWhile p = run ∧ cs.dropWhile p = rest ∧ Run p run rest := by
  refine ⟨cs.takeWhile p, cs.dropWhile p, List.takeWhile_append_dropWhile.symm, rfl, rfl, ?_, ?_⟩
  · exact List.all_eq_true.1 List.all_takeWhile
  · intro c hc
    have h := List.head?_dropWhile_not p cs
    rw [Option.mem_def.1 hc] at h
    exact h

namespace Run

variable {p : Char → Bool} {c : Char} {run rest : List Char}

theorem cons (hc : p c = true) (h : Run p run rest) : Run p (c :: run) rest :=
  ⟨List.forall_mem_cons.2 ⟨hc, h.all⟩, h.stop⟩

theorem notMem (h : Run (· ≠ c) run rest) : c ∉ run := by
  intro mem
  simpa using h.all c mem

/-- A run of all characters but one ends in front of this one. -/
theorem rest_cases (h : Run (· ≠ c) run rest) : rest = [] ∨ ∃ more, rest = c :: more := by
  cases rest with
  | nil => exact .inl rfl
  | cons d more =>
    have hd : d = c := by simpa using h.stop d rfl
    exact .inr ⟨more, by rw [hd]⟩

/-- What stands in front of a character, or of the end, is a run of all others. -/
theorem of_notMem (h : c ∉ run) (stop : ∀ d ∈ rest.head?, d = c) : Run (· ≠ c) run rest := by
  constructor
  · intro d mem
    rw [decide_eq_true_eq]
    rintro rfl
    exact h mem
  · intro d mem
    rw [stop d mem]
    simp

/-- A run without its first character. -/
theorem tail (h : Run p (c :: run) rest) : Run p run rest :=
  ⟨fun d mem => h.all d (List.mem_cons_of_mem c mem), h.stop⟩

theorem takeWhile_append (h : Run p run rest) : (run ++ rest).takeWhile p = run := by
  rw [List.takeWhile_append_of_pos h.all]
  cases rest with
  | nil => rw [List.takeWhile_nil, List.append_nil]
  | cons d rest => rw [List.takeWhile_cons_of_neg (by simp [h.stop d rfl]), List.append_nil]

theorem dropWhile_append (h : Run p run rest) : (run ++ rest).dropWhile p = rest := by
  rw [List.dropWhile_append_of_pos h.all]
  cases rest with
  | nil => rfl
  | cons d rest => rw [List.dropWhile_cons_of_neg (by simp [h.stop d rfl])]

/-- A text has one longest run at its front. -/
theorem unique {run' rest' : List Char} (h : Run p run rest) (h' : Run p run' rest')
    (same : run ++ rest = run' ++ rest') : run = run' ∧ rest = rest' := by
  refine ⟨?_, ?_⟩
  · rw [← h.takeWhile_append, same, h'.takeWhile_append]
  · rw [← h.dropWhile_append, same, h'.dropWhile_append]

end Run

/-! ### What a rule takes -/

namespace Rule

variable {rule : Rule} {cs text rest : List Char}

/-- The rule takes `text` off the front of `text ++ rest`. -/
inductive Takes : Rule → List Char → List Char → Prop
  | blank {run rest : List Char} (nonempty : run ≠ []) (longest : Run Text.isBlank run rest) :
    Takes blank run rest
  | comment {body rest : List Char} (longest : Run (· ≠ '\n') body rest) :
    Takes comment ('/' :: '/' :: body) rest
  | word {c : Char} {more rest : List Char} (letter : isLetter c = true)
    (longest : Run isWordChar more rest) : Takes word (c :: more) rest
  | whole {digits rest : List Char} (nonempty : digits ≠ [])
    (longest : Run Char.isDigit digits rest) (pointless : fraction rest = []) :
    Takes number digits rest
  | fractional {digits more rest : List Char} (nonempty : digits ≠ [])
    (all : ∀ c ∈ digits, c.isDigit = true) (further : more ≠ [])
    (longest : Run Char.isDigit more rest) : Takes number (digits ++ '.' :: more) rest
  | string {inside rest : List Char} (quoteless : '"' ∉ inside) :
    Takes string ('"' :: inside ++ ['"']) rest
  | openQuote {rest : List Char} : Takes openQuote ['"'] rest
  | symbol {kind : Kind} {first : Char} {more rest : List Char} :
    Takes (symbol kind first more) (first :: more) rest

/-- A fraction is a point and a run of digits. -/
theorem fraction_cases (cs : List Char) :
    fraction cs = [] ∨
      ∃ more rest, cs = '.' :: more ++ rest ∧ fraction cs = '.' :: more ∧ more ≠ [] ∧
        Run Char.isDigit more rest := by
  unfold fraction
  split
  · rename_i behind
    obtain ⟨more, rest, rfl, taken, -, longest⟩ := exists_run Char.isDigit behind
    rw [taken]
    cases more with
    | nil => exact .inl rfl
    | cons d more => exact .inr ⟨d :: more, rest, rfl, rfl, List.cons_ne_nil _ _, longest⟩
  · exact .inl rfl

theorem takes_number {c : Char} {behind : List Char} (hc : c.isDigit = true) :
    ∃ rest,
      c :: behind =
        c :: behind.takeWhile Char.isDigit ++ fraction (behind.dropWhile Char.isDigit) ++ rest ∧
      number.Takes (c :: behind.takeWhile Char.isDigit ++ fraction (behind.dropWhile Char.isDigit))
        rest := by
  obtain ⟨digits, tail, rfl, taken, left, longest⟩ := exists_run Char.isDigit behind
  rw [taken, left]
  have longest := longest.cons hc
  obtain pointless | ⟨more, rest, rfl, fractional, further, run⟩ := fraction_cases tail
  · rw [pointless, List.append_nil]
    exact ⟨tail, rfl, .whole (List.cons_ne_nil _ _) longest pointless⟩
  · rw [fractional]
    exact ⟨rest, by simp, .fractional (List.cons_ne_nil _ _) longest.all further run⟩

theorem takes_of_take? (h : rule.take? cs = some text) :
    ∃ rest, cs = text ++ rest ∧ rule.Takes text rest := by
  -- one case for each rule, in their order, and one where no rule fits the input
  unfold take? at h
  split at h
  · rename_i c behind
    split at h <;> cases h
    rename_i hc
    obtain ⟨run, rest, rfl, taken, -, longest⟩ := exists_run Text.isBlank behind
    rw [taken]
    exact ⟨rest, rfl, .blank (List.cons_ne_nil _ _) (longest.cons hc)⟩
  · rename_i behind
    cases h
    obtain ⟨body, rest, rfl, taken, -, longest⟩ := exists_run (· ≠ '\n') behind
    rw [taken]
    exact ⟨rest, rfl, .comment longest⟩
  · rename_i c behind
    split at h <;> cases h
    rename_i hc
    obtain ⟨more, rest, rfl, taken, -, longest⟩ := exists_run isWordChar behind
    rw [taken]
    exact ⟨rest, rfl, .word hc longest⟩
  · split at h <;> cases h
    rename_i hc
    exact takes_number hc
  · rename_i behind
    obtain ⟨inside, tail, rfl, taken, left, longest⟩ := exists_run (· ≠ '"') behind
    rw [taken, left] at h
    obtain rfl | ⟨rest, rfl⟩ := longest.rest_cases
    · cases h
    · cases h
      exact ⟨rest, by simp, .string longest.notMem⟩
  · cases h
    exact ⟨_, rfl, .openQuote⟩
  · rename_i kind first more c behind
    split at h <;> cases h
    rename_i hc
    rw [Bool.and_eq_true, decide_eq_true_eq, List.isPrefixOf_iff_prefix] at hc
    obtain ⟨rfl, rest, rfl⟩ := hc
    exact ⟨rest, rfl, .symbol⟩
  · cases h

theorem mem_symbols_of_mem_all {kind : Kind} {first : Char} {more : List Char}
    (h : symbol kind first more ∈ all) : (kind, first, more) ∈ Kind.symbols := by
  obtain h | h := List.mem_append.1 h
  · simp at h
  · obtain ⟨⟨k, c, ds⟩, mem, h⟩ := List.mem_map.1 h
    cases h
    exact mem

/-- A string is worth what stands between its quotes. -/
theorem reading_string (inside : List Char) :
    string.reading ('"' :: inside ++ ['"']) =
      .token .string (some (.string (String.ofList inside))) := by
  simp [reading]

end Rule

/-! ### What the text is -/

/-- A text that is no part of a token and stands in front of `behind`: blanks, and comments up to
the end of their line. -/
inductive Skippable (behind : List Char) : List Char → Prop
  | nil : Skippable behind []
  | blank {c : Char} {text : List Char} (hc : Text.isBlank c = true)
    (further : Skippable behind text) : Skippable behind (c :: text)
  | comment {body text : List Char} (inLine : '\n' ∉ body)
    (lineEnd : text ++ behind = [] ∨ (text ++ behind).head? = some '\n')
    (further : Skippable behind text) : Skippable behind ('/' :: '/' :: body ++ text)

/-- The text of a token of this kind with this literal. -/
inductive Lexeme : List Char → Kind → Option Literal → Prop
  | word {text : List Char} : Lexeme text (Kind.ofWord (String.ofList text)) none
  | number {text : List Char} {value : Double}
    (read : Double.read? (String.ofList text) = some value) :
    Lexeme text .number (some (.number value))
  | string {inside : List Char} (quoteless : '"' ∉ inside) :
    Lexeme ('"' :: inside ++ ['"']) .string (some (.string (String.ofList inside)))
  | symbol {kind : Kind} {first : Char} {more : List Char}
    (mem : (kind, first, more) ∈ Kind.symbols) : Lexeme (first :: more) kind none

namespace Skippable

variable {text behind more : List Char}

theorem append (h : Skippable (more ++ behind) text) (further : Skippable behind more) :
    Skippable behind (text ++ more) := by
  induction h with
  | nil => exact further
  | blank hc _ ih => exact .blank hc ih
  | comment inLine lineEnd _ ih =>
    rw [List.append_assoc]
    rw [← List.append_assoc] at lineEnd
    exact .comment inLine lineEnd ih

theorem of_blanks (h : ∀ c ∈ text, Text.isBlank c = true) : Skippable behind text := by
  induction text with
  | nil => exact .nil
  | cons c text ih =>
    obtain ⟨hc, h⟩ := List.forall_mem_cons.1 h
    exact .blank hc (ih h)

end Skippable

namespace Rule.Takes

variable {rule : Rule} {text rest : List Char} {kind : Kind} {literal : Option Literal}

theorem skippable (h : rule.Takes text rest) (read : rule.reading text = .skipped) :
    Skippable rest text := by
  cases h with
  | blank _ longest => exact .of_blanks longest.all
  | @comment body _ longest =>
    have lineEnd : rest = [] ∨ rest.head? = some '\n' := by
      obtain rfl | ⟨more, rfl⟩ := longest.rest_cases
      · exact .inl rfl
      · exact .inr rfl
    have h : Skippable rest ('/' :: '/' :: body ++ []) := .comment longest.notMem lineEnd .nil
    rwa [List.append_nil] at h
  | whole | fractional => simp only [reading] at read; split at read <;> cases read
  | word | string | openQuote | symbol => cases read

theorem lexeme (h : rule.Takes text rest) (mem : rule ∈ Rule.all)
    (read : rule.reading text = .token kind literal) : Lexeme text kind literal := by
  cases h with
  | blank | comment | openQuote => cases read
  | word => cases read; exact .word
  | whole | fractional =>
    simp only [reading] at read
    split at read <;> cases read
    rename_i value
    exact .number value
  | string quoteless =>
    rw [reading_string] at read
    cases read
    exact .string quoteless
  | symbol => cases read; exact .symbol (mem_symbols_of_mem_all mem)

end Rule.Takes

/-! ### What a lexeme says about its token -/

theorem Kind.ofWord_cases (word : String) :
    Kind.ofWord word = .identifier ∨ (word, Kind.ofWord word) ∈ Kind.keywords := by
  unfold Kind.ofWord Kind.ofKeyword?
  cases found : Kind.keywords.lookup word with
  | none => exact .inl rfl
  | some kind =>
    obtain ⟨before, behind, split, -⟩ := List.lookup_eq_some_iff.1 found
    refine .inr ?_
    rw [split]
    exact List.mem_append_right _ List.mem_cons_self

theorem Kind.ofWord_notMem (word : String) : Kind.ofWord word ∉ [.eof, .number, .string] := by
  obtain h | h := Kind.ofWord_cases word
  · rw [h]
    decide
  · have plain : ∀ entry ∈ Kind.keywords, entry.2 ∉ [.eof, .number, .string] := by decide
    exact plain _ h

theorem Kind.notMem_of_mem_symbols {kind : Kind} {first : Char} {more : List Char}
    (h : (kind, first, more) ∈ Kind.symbols) : kind ∉ [.eof, .number, .string] := by
  have plain : ∀ entry ∈ Kind.symbols, entry.1 ∉ [.eof, .number, .string] := by decide
  exact plain _ h

namespace Lexeme

variable {text : List Char} {kind : Kind} {literal : Option Literal}

/-- A token without a literal, a number, or a string. -/
theorem kind_cases (h : Lexeme text kind literal) :
    (kind ∉ [.eof, .number, .string] ∧ literal = none) ∨
      (kind = .number ∧ literal.isSome = true) ∨
      (kind = .string ∧ ∃ inside, text = '"' :: inside ++ ['"'] ∧ '"' ∉ inside ∧
        literal = some (.string (String.ofList inside))) := by
  cases h with
  | word => exact .inl ⟨Kind.ofWord_notMem _, rfl⟩
  | symbol mem => exact .inl ⟨Kind.notMem_of_mem_symbols mem, rfl⟩
  | number => exact .inr (.inl ⟨rfl, rfl⟩)
  | string quoteless => exact .inr (.inr ⟨rfl, _, rfl, quoteless, rfl⟩)

theorem kind_ne_eof (h : Lexeme text kind literal) : kind ≠ .eof := by
  rintro rfl
  obtain ⟨plain, -⟩ | ⟨number, -⟩ | ⟨string, -⟩ := h.kind_cases
  · simp at plain
  · cases number
  · cases string

theorem isSome_literal_iff (h : Lexeme text kind literal) :
    literal.isSome = true ↔ kind = .number ∨ kind = .string := by
  obtain ⟨plain, rfl⟩ | ⟨rfl, some⟩ | ⟨rfl, _, -, -, rfl⟩ := h.kind_cases
  · simp only [List.mem_cons, not_or] at plain
    simp [plain.2.1, plain.2.2]
  · simp [some]
  · simp

theorem inside (h : Lexeme text .string literal) :
    ∃ inside, text = '"' :: inside ++ ['"'] ∧ '"' ∉ inside ∧
      literal = some (.string (String.ofList inside)) := by
  obtain ⟨plain, -⟩ | ⟨number, -⟩ | ⟨-, string⟩ := h.kind_cases
  · simp at plain
  · cases number
  · exact string

end Lexeme
end LoxReader
