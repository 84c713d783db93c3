import LoxReader.Proofs.Lexing.Offsets
import LoxReader.Proofs.Lexing.Priority

/-!
# Sources that fail

The lexer fails in two ways only: at a character that begins nothing, and at a quote that is never
closed.  What stands in front of that place is cut in the same way whatever comes behind it, so a
failure is found again in every source that shows its cause.
-/

namespace LoxReader

/-! ### Numerals can be read -/

namespace Double

variable {digits more : List Char}

theorem readDecimal_whole (all : ∀ d ∈ digits, d.isDigit = true) (nonempty : digits ≠ []) :
    readDecimal digits = some ⟨appendDigits 0 digits, 0⟩ := by
  have run : Run Char.isDigit digits [] := ⟨all, nofun⟩
  have taken := run.takeWhile_append
  have left := run.dropWhile_append
  rw [List.append_nil] at taken left
  simp [readDecimal, digitsValue_eq, taken, left, nonempty, readExponent]

theorem readDecimal_fractional (all : ∀ d ∈ digits, d.isDigit = true) (nonempty : digits ≠ [])
    (more_all : ∀ d ∈ more, d.isDigit = true) :
    readDecimal (digits ++ '.' :: more) =
      some ⟨appendDigits 0 (digits ++ more), -(more.length : Int)⟩ := by
  have run : Run Char.isDigit digits ('.' :: more) := ⟨all, by rintro d ⟨⟩; decide⟩
  have fraction : Run Char.isDigit more [] := ⟨more_all, nofun⟩
  have taken := fraction.takeWhile_append
  have left := fraction.dropWhile_append
  rw [List.append_nil] at taken left
  simp [readDecimal, digitsValue_eq, run.takeWhile_append, run.dropWhile_append, taken, left, nonempty,
    readExponent]

theorem splitSign_of_isDigit {c : Char} (h : c.isDigit = true) (cs : List Char) :
    splitSign (c :: cs) = (false, c :: cs) := by
  unfold splitSign
  split <;> simp_all

theorem read?_of_readDecimal {c : Char} {cs : List Char} {x : Decimal} (digit : c.isDigit = true)
    (h : readDecimal (c :: cs) = some x) :
    read? (String.ofList (c :: cs)) = some (ofMagnitude false x.magnitude) := by
  simp [read?, String.toList_ofList, splitSign_of_isDigit digit, h]

end Double

namespace Rule

variable {rule : Rule} {c : Char} {text rest rest' more left : List Char} {fault : Fault}

/-- A numeral is worth the double nearest to a decimal. -/
theorem Takes.exists_decimal (h : number.Takes text rest) :
    ∃ x : Decimal, Double.read? (String.ofList text) = some (.ofMagnitude false x.magnitude) := by
  cases h with
  | @whole digits _ nonempty longest =>
    obtain ⟨c, digits, rfl⟩ := List.exists_cons_of_ne_nil nonempty
    have value := Double.readDecimal_whole longest.all nonempty
    exact ⟨_, Double.read?_of_readDecimal (longest.all c List.mem_cons_self) value⟩
  | @fractional digits more _ nonempty all _ longest =>
    obtain ⟨c, digits, rfl⟩ := List.exists_cons_of_ne_nil nonempty
    have value := Double.readDecimal_fractional all nonempty longest.all
    exact ⟨_, Double.read?_of_readDecimal (all c List.mem_cons_self) value⟩

theorem Takes.exists_read? (h : number.Takes text rest) :
    ∃ value, Double.read? (String.ofList text) = some value := by
  obtain ⟨x, read⟩ := h.exists_decimal
  exact ⟨_, read⟩

/-- Only an open quote is a text at fault. -/
theorem Takes.fault_eq (h : rule.Takes text rest) (read : rule.reading text = .fault fault) :
    rule = .openQuote ∧ fault = .openString := by
  cases h with
  | blank | comment | word | string | symbol => cases read
  | openQuote =>
    cases read
    exact ⟨rfl, rfl⟩
  | whole nonempty longest pointless =>
    obtain ⟨value, numeral⟩ := (Takes.whole nonempty longest pointless).exists_read?
    simp only [reading, numeral] at read
    cases read
  | fractional nonempty all further longest =>
    obtain ⟨value, numeral⟩ := (Takes.fractional nonempty all further longest).exists_read?
    simp only [reading, numeral] at read
    cases read

end Rule

/-! ### Where the lexer stops -/

/-- Nothing is cut off the text, for this reason. -/
inductive Refused : List Char → Fault → Prop
  | stray {c : Char} {more : List Char} (stray : Rule.begins c = false) :
    Refused (c :: more) (.strayCharacter c)
  | openQuote {inside : List Char} (quoteless : '"' ∉ inside) : Refused ('"' :: inside) .openString

variable {file : String} {p q : Place} {cs left left' more : List Char} {ts : List Token}
  {fault : Fault} {e : SourceError}

theorem Rule.Wins.cut {rule : Rule} {text rest : List Char} (h : rule.Wins text rest) :
    Cut rule (text ++ rest) text rest := ⟨h.first?, rfl⟩

theorem Cut.wins {rule : Rule} {text rest : List Char} (h : Cut rule cs text rest) :
    rule.Wins text rest := by
  have first := h.first
  rw [h.append] at first
  exact Rule.first?_eq_some_iff.1 first

/-- The quote alone is cut off, and is at fault. -/
theorem cut_openQuote {inside : List Char} (quoteless : '"' ∉ inside) :
    Cut .openQuote ('"' :: inside) ['"'] inside :=
  Rule.Wins.cut ⟨by decide, .openQuote, fun _ => quoteless, nofun⟩

theorem Refused.lexFrom_eq (h : Refused left fault) :
    lexFrom file q left = .error ⟨fault, wrap32 q.offset, file⟩ := by
  cases h with
  | stray stray => exact lexFrom_stuck (Rule.first?_eq_none_iff.2 stray)
  | openQuote quoteless => exact lexFrom_cut (cut_openQuote quoteless)

theorem refused_of_cut {rule : Rule} {text rest : List Char} (cut : Cut rule left text rest)
    (read : rule.reading text = .fault fault) : Refused left fault := by
  obtain ⟨rfl, rfl⟩ := cut.takes.fault_eq read
  have wins := cut.wins
  cases wins.takes
  rw [cut.append]
  exact .openQuote (wins.unclosed rfl)

/-- Up to the place of an error the source is cut. -/
theorem exists_lexes_of_error (h : lexFrom file p cs = .error e) :
    ∃ ts q left fault, Lexes file p cs ts q left ∧ Refused left fault ∧
      e = ⟨fault, wrap32 q.offset, file⟩ := by
  induction p, cs using lexFrom.induct file with
  | case1 p =>
    rw [lexFrom_nil] at h
    cases h
  | case2 p c rest stuck =>
    rw [lexFrom_stuck stuck] at h
    cases h
    exact ⟨[], p, c :: rest, _, .refl p _, .stray (Rule.first?_eq_none_iff.1 stuck), rfl⟩
  | case3 p c rest rule text first _ fault read =>
    have cut := Cut.of_first? first
    rw [lexFrom_cut cut, read] at h
    cases h
    exact ⟨[], p, c :: rest, fault, .refl p _, refused_of_cut cut read, rfl⟩
  | case4 p c rest rule text first _ read ih =>
    have cut := Cut.of_first? first
    rw [lexFrom_cut cut, read] at h
    obtain ⟨ts, q, left, fault, further, refused, rfl⟩ := ih h
    exact ⟨ts, q, left, fault, .skipped cut read further, refused, rfl⟩
  | case5 p c rest rule text first _ kind literal read ih =>
    have cut := Cut.of_first? first
    rw [lexFrom_cut cut, read] at h
    cases lexed : lexFrom file (p.after text) ((c :: rest).drop text.length) with
    | ok us =>
      rw [lexed] at h
      cases h
    | error error =>
      rw [lexed] at h
      cases h
      obtain ⟨ts, q, left, fault, further, refused, rfl⟩ := ih lexed
      exact ⟨_, q, left, fault, .token cut read further, refused, rfl⟩

/-! ### Another text behind the place of an error -/

theorem Refused.resembles (h : Refused left fault) (tail : ∀ c ∈ left'.head?, c ∈ left.head?)
    (front : List Char) : Resembles (front ++ left') (front ++ left) := by
  cases h with
  | @stray c more stray =>
    have notPoint : c ≠ '.' := by
      rintro rfl
      cases stray
    have notDigit : c.isDigit = false := by
      simp only [Rule.begins, Bool.or_eq_false_iff] at stray
      exact stray.1.1.2
    exact resembles_of_cons notPoint notDigit (fun d mem => (Option.some.inj (tail d mem)).symm) front
  | openQuote =>
    refine resembles_of_cons (by decide) (by decide) ?_ front
    exact fun d mem => (Option.some.inj (tail d mem)).symm

theorem Cut.resembling {rule : Rule} {text taken : List Char} (cut : Cut rule cs text (taken ++ left))
    (sound : ∀ fault, rule.reading text ≠ .fault fault)
    (like : Resembles (taken ++ left') (taken ++ left)) :
    Cut rule (text ++ taken ++ left') text (taken ++ left') := by
  have closed : rule ≠ .openQuote := by
    rintro rfl
    exact sound _ rfl
  rw [List.append_assoc]
  exact (cut.wins.resembling closed like).cut

/-- What is cut off in front of `left` is cut off in front of every text that resembles it. -/
theorem Lexes.resembling (h : Lexes file p cs ts q left)
    (like : ∀ front, Resembles (front ++ left') (front ++ left)) :
    ∃ taken, cs = taken ++ left ∧ q = p.after taken ∧ Lexes file p (taken ++ left') ts q left' := by
  induction h with
  | refl p cs => exact ⟨[], rfl, p.after_nil.symm, .refl p left'⟩
  | @skipped p _ _ text _ _ _ _ cut read _ ih =>
    obtain ⟨taken, rfl, rfl, further⟩ := ih like
    have cut' := cut.resembling (by simp [read]) (like taken)
    refine ⟨text ++ taken, ?_, (p.after_append text taken).symm, .skipped cut' read further⟩
    rw [cut.append, List.append_assoc]
  | @token p _ _ text _ _ _ _ _ _ cut read _ ih =>
    obtain ⟨taken, rfl, rfl, further⟩ := ih like
    have cut' := cut.resembling (by simp [read]) (like taken)
    refine ⟨text ++ taken, ?_, (p.after_append text taken).symm, .token cut' read further⟩
    rw [cut.append, List.append_assoc]

/-- The cuts in front of the place of an error are made again in front of another text. -/
theorem Lexes.again {before : List Char}
    (h : Lexes file p (before ++ left) ts (p.after before) left) (refused : Refused left fault)
    (tail : ∀ c ∈ left'.head?, c ∈ left.head?) :
    Lexes file p (before ++ left') ts (p.after before) left' := by
  obtain ⟨taken, split, -, further⟩ := h.resembling (refused.resembles tail)
  obtain rfl := List.append_cancel_right split
  exact further

theorem Lexes.lexFrom_eq_error (h : Lexes file p cs ts q left) (refused : Refused left fault) :
    lexFrom file p cs = .error ⟨fault, wrap32 q.offset, file⟩ := by
  rw [h.lexFrom_eq, refused.lexFrom_eq]
  rfl

theorem exists_lexFrom_closed {inside : List Char} (quoteless : '"' ∉ inside) :
    ∃ tokens, lexFrom file q ('"' :: inside ++ ['"']) = .ok tokens := by
  have wins : Rule.string.Wins ('"' :: inside ++ ['"']) [] :=
    (Rule.Takes.string quoteless).wins (by simp)
  have cut := wins.cut
  rw [List.append_nil] at cut
  rw [lexFrom_cut cut, lexFrom_nil]
  exact ⟨_, rfl⟩

/-! ### The failures of a source -/

/-- The error stands where its cause does: what is in front of this place is cut into tokens, and
the error is the same in every source with the same text up to its cause. -/
inductive ExactFailure (source : String) (file : Option String) : SourceError → Prop
  | stray {before more : List Char} {c : Char} (split : source.toList = before ++ c :: more)
      (front : ∃ tokens, lex (String.ofList before) file = .ok tokens)
      (fixed : ∀ other : String, before ++ [c] <+: other.toList →
        lex other file = .error ⟨.strayCharacter c, Text.byteLength before, fileName file⟩) :
      ExactFailure source file ⟨.strayCharacter c, Text.byteLength before, fileName file⟩
  /-- Text without a quote behind the source does not mend it, and a quote does. -/
  | openQuote {before inside : List Char} (split : source.toList = before ++ '"' :: inside)
      (quoteless : '"' ∉ inside)
      (front : ∃ tokens, lex (String.ofList before) file = .ok tokens)
      (fixed : ∀ text : String, '"' ∉ text.toList →
        lex (source ++ text) file = .error ⟨.openString, Text.byteLength before, fileName file⟩)
      (closed : ∃ tokens, lex (source ++ "\"") file = .ok tokens) :
      ExactFailure source file ⟨.openString, Text.byteLength before, fileName file⟩

/-- **A source that fails does so at a place that decides it.** -/
theorem lex_failsExactly {source : String} {file : Option String} {e : SourceError}
    (short : Text.byteLength source.toList < 0x100000000) (failed : lex source file = .error e) :
    ExactFailure source file e := by
  obtain ⟨ts, q, left, fault, derived, refused, rfl⟩ := exists_lexes_of_error failed
  obtain ⟨before, split, rfl⟩ := derived.split
  rw [split] at derived
  have position : wrap32 (Place.start.after before).offset = Text.byteLength before := by
    have offset : (Place.start.after before).offset = Text.byteLength before := Nat.zero_add _
    rw [split, Text.byteLength_append] at short
    rw [offset, wrap32_of_lt (by omega)]
  rw [position]
  have fails {other : String} {left' : List Char} (same : other.toList = before ++ left')
      (tail : ∀ c ∈ left'.head?, c ∈ left.head?) (refused' : Refused left' fault) :
      lex other file = .error ⟨fault, Text.byteLength before, fileName file⟩ := by
    rw [lex, same, (derived.again refused tail).lexFrom_eq_error refused', position]
  have front : ∃ tokens, lex (String.ofList before) file = .ok tokens := by
    have whole : (String.ofList before).toList = before ++ [] := by simp
    rw [lex, whole]
    exact ⟨_, lexFrom_eq_ok_iff.2 ⟨ts, _, derived.again refused nofun, rfl⟩⟩
  cases refused with
  | @stray c more stray =>
    refine .stray split front fun other same => ?_
    obtain ⟨more', same⟩ := same
    rw [List.append_assoc] at same
    exact fails same.symm (fun d mem => mem) (.stray stray)
  | @openQuote inside quoteless =>
    refine .openQuote split quoteless front (fun text none => ?_) ?_
    · have same : (source ++ text).toList = before ++ '"' :: (inside ++ text.toList) := by
        rw [String.toList_append, split, List.append_assoc, List.cons_append]
      refine fails same (fun d mem => mem) (.openQuote fun mem => ?_)
      exact (List.mem_append.1 mem).elim quoteless none
    · have same : (source ++ "\"").toList = before ++ ('"' :: inside ++ ['"']) := by
        rw [String.toList_append, split, List.append_assoc]
        rfl
      have again : Lexes _ _ (before ++ ('"' :: inside ++ ['"'])) ts _ _ :=
        derived.again (.openQuote quoteless) fun d mem => mem
      rw [lex, same, again.lexFrom_eq]
      obtain ⟨tokens, closed⟩ := exists_lexFrom_closed quoteless
      exact ⟨_, by rw [closed]; rfl⟩

/-- A comment, a number in front of a point, and a letter with an accent. -/
def accentedSource : String := "//é\n1.é\""

/-- A string over two lines that is not closed. -/
def openSource : String := "1.\"//é\n#"

theorem lex_failsExactly_of_samples :
    (Text.byteLength accentedSource.toList < 0x100000000 ∧
      lex accentedSource none = .error ⟨.strayCharacter 'é', 7, "shell"⟩ ∧
      ExactFailure accentedSource none ⟨.strayCharacter 'é', 7, "shell"⟩) ∧
    Text.byteLength openSource.toList < 0x100000000 ∧
      lex openSource none = .error ⟨.openString, 2, "shell"⟩ ∧
      ExactFailure openSource none ⟨.openString, 2, "shell"⟩ := by
  have shortAccented : Text.byteLength accentedSource.toList < 0x100000000 := by decide
  have shortOpen : Text.byteLength openSource.toList < 0x100000000 := by decide
  have accented : lex accentedSource none = .error ⟨.strayCharacter 'é', 7, "shell"⟩ :=
    eq_error_of_error? (by decide +kernel)
  have unclosed : lex openSource none = .error ⟨.openString, 2, "shell"⟩ :=
    eq_error_of_error? (by decide +kernel)
  exact ⟨⟨shortAccented, accented, lex_failsExactly shortAccented accented⟩,
    shortOpen, unclosed, lex_failsExactly shortOpen unclosed⟩

end LoxReader
