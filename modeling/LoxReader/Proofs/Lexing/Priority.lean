import LoxReader.Proofs.Lexing.Pieces

/-!
# The rule that wins

A text is cut off by the first rule that applies to it.  `Rule.Wins` says when a rule is this one,
by the text it takes and by what stands behind; so a cut is known without trying the rules in turn
(`first?_eq_some_iff`).  Whether any rule applies is decided by the first character alone
(`first?_eq_none_iff`).
-/

namespace LoxReader

namespace Rule

variable {rule : Rule} {c : Char} {cs text rest run : List Char}

/-! ### Classes of characters -/

theorem toNat_of_isBlank (h : Text.isBlank c = true) : c.toNat ≤ 32 ∨ 133 ≤ c.toNat := by
  simp only [Text.isBlank, Text.blankRanges, List.any_cons, List.any_nil, Bool.or_eq_true,
    Bool.and_eq_true, decide_eq_true_eq, Bool.or_false] at h
  omega

theorem toNat_of_isDigit (h : c.isDigit = true) : 48 ≤ c.toNat ∧ c.toNat ≤ 57 := by
  simp only [Char.isDigit, Bool.and_eq_true, decide_eq_true_eq, ge_iff_le,
    UInt32.le_iff_toNat_le] at h
  exact h

theorem toNat_of_isLetter (h : isLetter c = true) : 65 ≤ c.toNat ∧ c.toNat ≤ 122 := by
  obtain letter | underscore := Bool.or_eq_true_iff.1 h
  · have cases : (c.isUpper || c.isLower) = true := letter
    obtain upper | lower := Bool.or_eq_true_iff.1 cases
    · have range : 65 ≤ c.toNat ∧ c.toNat ≤ 90 := of_decide_eq_true upper
      omega
    · obtain ⟨low, high⟩ := Bool.and_eq_true_iff.1 lower
      have low : 97 ≤ c.toNat := of_decide_eq_true low
      have high : c.toNat ≤ 122 := of_decide_eq_true high
      omega
  · obtain rfl := of_decide_eq_true underscore
    decide

theorem isBlank_of_isLetter (h : isLetter c = true) : Text.isBlank c = false := by
  rw [Bool.eq_false_iff]
  intro blank
  have := toNat_of_isBlank blank
  have := toNat_of_isLetter h
  omega

theorem isBlank_of_isDigit (h : c.isDigit = true) : Text.isBlank c = false := by
  rw [Bool.eq_false_iff]
  intro blank
  have := toNat_of_isBlank blank
  have := toNat_of_isDigit h
  omega

theorem isLetter_of_isDigit (h : c.isDigit = true) : isLetter c = false := by
  rw [Bool.eq_false_iff]
  intro letter
  have := toNat_of_isLetter letter
  have := toNat_of_isDigit h
  omega

theorem isDigit_of_isBlank (h : Text.isBlank c = true) : c.isDigit = false := by
  rw [Bool.eq_false_iff]
  intro digit
  rw [isBlank_of_isDigit digit] at h
  cases h

theorem isWordChar_of_isBlank (h : Text.isBlank c = true) : isWordChar c = false := by
  have notLetter : isLetter c = false := by
    rw [Bool.eq_false_iff]
    intro letter
    rw [isBlank_of_isLetter letter] at h
    cases h
  rw [isWordChar, notLetter, isDigit_of_isBlank h]
  rfl

/-! ### The table of symbols -/

/-- The first character of a symbol begins nothing else but a comment. -/
theorem class_of_mem_symbols {entry : Kind × Char × List Char} (h : entry ∈ Kind.symbols) :
    Text.isBlank entry.2.1 = false ∧ isLetter entry.2.1 = false ∧ entry.2.1.isDigit = false ∧
      entry.2.1 ≠ '"' := by
  revert entry
  decide

/-- Of two symbols with the same first character, the one that comes first is longer. -/
theorem symbols_pairwise : Kind.symbols.Pairwise fun s t =>
    s.2.1 = t.2.1 → s.2.2 = ['='] ∧ t.2.2 = [] := by
  decide

/-- A slash is a symbol by itself only. -/
theorem eq_nil_of_slash {entry : Kind × Char × List Char} (h : entry ∈ Kind.symbols)
    (slash : entry.2.1 = '/') : entry.2.2 = [] := by
  have single : ∀ s ∈ Kind.symbols, s.2.1 = '/' → s.2.2 = [] := by decide
  exact single entry h slash

/-- The first character of a symbol is a symbol, too. -/
theorem exists_single_of_mem_symbols {entry : Kind × Char × List Char} (h : entry ∈ Kind.symbols) :
    ∃ kind, (kind, entry.2.1, []) ∈ Kind.symbols := by
  have single : ∀ s ∈ Kind.symbols, ∃ t ∈ Kind.symbols, t.2.1 = s.2.1 ∧ t.2.2 = [] := by decide
  obtain ⟨⟨kind, first, more⟩, mem, rfl, rfl⟩ := single entry h
  exact ⟨kind, mem⟩

/-- `text` and the character behind it are a symbol or begin a comment. -/
def Joins (text : List Char) (c : Char) : Prop :=
  text ++ [c] = ['/', '/'] ∨ ∃ entry ∈ Kind.symbols, text ++ [c] = entry.2.1 :: entry.2.2

/-- What is joined is a single character. -/
theorem length_le_of_joins (h : Joins text c) : text.length ≤ 1 := by
  obtain h | ⟨entry, mem, h⟩ := h
  · have long := congrArg List.length h
    simp at long
    omega
  · have short : ∀ s ∈ Kind.symbols, s.2.2.length ≤ 1 := by decide
    have long := congrArg List.length h
    have := short entry mem
    simp only [List.length_append, List.length_cons, List.length_nil] at long
    omega

/-! ### The text is taken -/

theorem take?_of_takes (h : rule.Takes text rest) : rule.take? (text ++ rest) = some text := by
  cases h with
  | @blank run _ nonempty longest =>
    obtain ⟨c, run, rfl⟩ := List.exists_cons_of_ne_nil nonempty
    have hc : Text.isBlank c = true := longest.all c List.mem_cons_self
    simp only [List.cons_append, take?, hc, if_true, longest.tail.takeWhile_append]
  | comment longest => simp only [List.cons_append, take?, longest.takeWhile_append]
  | word letter longest => simp only [List.cons_append, take?, letter, if_true, longest.takeWhile_append]
  | @whole digits _ nonempty longest pointless =>
    obtain ⟨c, digits, rfl⟩ := List.exists_cons_of_ne_nil nonempty
    have hc : c.isDigit = true := longest.all c List.mem_cons_self
    have tail := longest.tail
    simp only [List.cons_append, take?, hc, if_true, tail.takeWhile_append, tail.dropWhile_append,
      pointless, List.append_nil]
  | @fractional digits more _ nonempty all further longest =>
    obtain ⟨c, digits, rfl⟩ := List.exists_cons_of_ne_nil nonempty
    obtain ⟨d, more, rfl⟩ := List.exists_cons_of_ne_nil further
    have hc : c.isDigit = true := all c List.mem_cons_self
    have tail : Run Char.isDigit digits ('.' :: (d :: more) ++ rest) :=
      ⟨fun x mem => all x (List.mem_cons_of_mem c mem), by rintro x ⟨⟩; decide⟩
    have point : fraction ('.' :: (d :: more) ++ rest) = '.' :: d :: more := by
      simp only [List.cons_append, fraction]
      rw [← List.cons_append, longest.takeWhile_append]
    simp only [List.cons_append, List.append_assoc] at tail point ⊢
    simp only [take?, hc, if_true, tail.takeWhile_append, tail.dropWhile_append, point,
      List.cons_append]
  | @string inside _ quoteless =>
    have run : Run (· ≠ '"') inside ('"' :: rest) := .of_notMem quoteless (by simp)
    simp only [List.cons_append, List.append_assoc, List.nil_append, take?, run.dropWhile_append,
      run.takeWhile_append]
  | openQuote => simp only [List.cons_append, take?]
  | @symbol kind first more =>
    have front : more.isPrefixOf (more ++ rest) = true :=
      List.isPrefixOf_iff_prefix.2 (List.prefix_append more rest)
    simp [take?, front]

/-! ### No other rule comes before -/

/-- The rule takes `text` off the front of `text ++ rest`, and every rule before it takes nothing. -/
structure Wins (rule : Rule) (text rest : List Char) : Prop where
  mem : rule ∈ all
  takes : rule.Takes text rest
  unclosed : rule = openQuote → '"' ∉ rest
  longest : ∀ kind first more, rule = symbol kind first more → ∀ c ∈ rest.head?, ¬ Joins text c

/-- A rule in front of the one for a lone quote wins wherever it takes something. -/
theorem Takes.wins (h : rule.Takes text rest)
    (early : rule ∈ [.blank, .comment, .word, .number, .string]) : rule.Wins text rest := by
  refine ⟨?_, h, ?_, ?_⟩
  · exact List.mem_append_left _ (List.mem_append_left [Rule.openQuote] early)
  · rintro rfl
    simp at early
  · rintro kind first more rfl
    simp at early

theorem first?_of_split (before : List Rule) {after : List Rule} (split : all = before ++ rule :: after)
    (earlier : ∀ r ∈ before, r.take? cs = none) (here : rule.take? cs = some text) :
    first? cs = some (rule, text) := by
  unfold first?
  refine List.findSome?_eq_some_iff.2 ⟨before, rule, after, split, by rw [here]; rfl, ?_⟩
  intro r mem
  rw [earlier r mem]
  rfl

theorem take?_blank (h : Text.isBlank c = false) : blank.take? (c :: cs) = none := by
  simp [take?, h]

theorem take?_word (h : isLetter c = false) : word.take? (c :: cs) = none := by
  simp [take?, h]

theorem take?_number (h : c.isDigit = false) : number.take? (c :: cs) = none := by
  simp [take?, h]

theorem take?_comment (h : c = '/' → cs.head? ≠ some '/') : comment.take? (c :: cs) = none := by
  unfold take?
  split <;> simp_all

theorem take?_string (h : c ≠ '"') : string.take? (c :: cs) = none := by
  unfold take?
  split <;> simp_all

theorem take?_string_of_unclosed (h : '"' ∉ cs) : string.take? ('"' :: cs) = none := by
  have run : Run (· ≠ '"') cs [] := .of_notMem h (by simp)
  have none := run.dropWhile_append
  rw [List.append_nil] at none
  simp only [take?, none]

theorem take?_openQuote (h : c ≠ '"') : openQuote.take? (c :: cs) = none := by
  unfold take?
  split <;> simp_all

theorem take?_symbol {kind : Kind} {first : Char} {more : List Char}
    (h : c = first → ¬ more <+: cs) : (symbol kind first more).take? (c :: cs) = none := by
  simp [take?]
  exact h

/-- The rules in front of the symbols. -/
theorem all_eq_append (before after : List (Kind × Char × List Char)) (entry : Kind × Char × List Char)
    (split : Kind.symbols = before ++ entry :: after) :
    all = ([blank, comment, word, number, string, openQuote] ++
      before.map fun (kind, first, rest) => symbol kind first rest) ++
        symbol entry.1 entry.2.1 entry.2.2 ::
          after.map fun (kind, first, rest) => symbol kind first rest := by
  rw [all, split, List.map_append, List.map_cons, List.append_assoc]

/-- A symbol that is not joined to what stands behind it wins. -/
theorem first?_symbol {entry : Kind × Char × List Char} (mem : entry ∈ Kind.symbols)
    (longest : ∀ c ∈ rest.head?, ¬ Joins (entry.2.1 :: entry.2.2) c) :
    first? (entry.2.1 :: entry.2.2 ++ rest) =
      some (symbol entry.1 entry.2.1 entry.2.2, entry.2.1 :: entry.2.2) := by
  obtain ⟨notBlank, notLetter, notDigit, notQuote⟩ := class_of_mem_symbols mem
  obtain ⟨before, after, split⟩ := List.append_of_mem mem
  refine first?_of_split _ (all_eq_append before after entry split) ?_ (take?_of_takes .symbol)
  intro r earlier
  obtain earlier | earlier := List.mem_append.1 earlier
  · simp only [List.mem_cons, List.not_mem_nil, or_false] at earlier
    obtain rfl | rfl | rfl | rfl | rfl | rfl := earlier
    · exact take?_blank notBlank
    · refine take?_comment ?_
      intro slash second
      have single := eq_nil_of_slash mem slash
      rw [single] at second
      refine longest '/' second (.inl ?_)
      rw [slash, single]
      rfl
    · exact take?_word notLetter
    · exact take?_number notDigit
    · exact take?_string notQuote
    · exact take?_openQuote notQuote
  · obtain ⟨other, inFront, rfl⟩ := List.mem_map.1 earlier
    refine take?_symbol ?_
    intro same front
    have pairs := symbols_pairwise
    rw [split, List.pairwise_append] at pairs
    obtain ⟨double, single⟩ := pairs.2.2 other inFront entry List.mem_cons_self same.symm
    obtain ⟨behind, front⟩ := front
    change other.2.2 ++ behind = entry.2.2 ++ rest at front
    rw [double, single] at front
    have second : '=' ∈ rest.head? := by rw [← show '=' :: behind = rest from front]; rfl
    refine longest '=' second (.inr ⟨other, ?_, ?_⟩)
    · rw [split]
      exact List.mem_append_left _ inFront
    · rw [single, double, same]
      rfl

/-- What begins with a digit is a number. -/
theorem first?_number (digit : c.isDigit = true) (taken : number.take? (c :: cs) = some text) :
    first? (c :: cs) = some (number, text) := by
  have notSlash : c ≠ '/' := by
    rintro rfl
    cases digit
  refine first?_of_split [blank, comment, word] rfl ?_ taken
  refine List.forall_mem_cons.2 ⟨take?_blank (isBlank_of_isDigit digit), ?_⟩
  refine List.forall_mem_cons.2 ⟨take?_comment fun slash => absurd slash notSlash, ?_⟩
  exact List.forall_mem_singleton.2 (take?_word (isLetter_of_isDigit digit))

/-- A quote begins a string or stands open. -/
theorem take?_quote : ∀ r ∈ [blank, comment, word, number], r.take? ('"' :: cs) = none := by
  refine List.forall_mem_cons.2 ⟨take?_blank (by decide), ?_⟩
  refine List.forall_mem_cons.2 ⟨take?_comment fun slash => absurd slash (by decide), ?_⟩
  refine List.forall_mem_cons.2 ⟨take?_word (by decide), ?_⟩
  exact List.forall_mem_singleton.2 (take?_number (by decide))

theorem Wins.first? (h : rule.Wins text rest) : first? (text ++ rest) = some (rule, text) := by
  have here := take?_of_takes h.takes
  cases h.takes with
  | blank => exact first?_of_split [] rfl (by simp) here
  | comment =>
    refine first?_of_split [blank] rfl ?_ here
    exact List.forall_mem_singleton.2 (take?_blank (by decide))
  | @word c more _ letter =>
    have notSlash : c ≠ '/' := by
      rintro rfl
      cases letter
    refine first?_of_split [blank, comment] rfl ?_ here
    refine List.forall_mem_cons.2 ⟨take?_blank (isBlank_of_isLetter letter), ?_⟩
    exact List.forall_mem_singleton.2 (take?_comment fun slash => absurd slash notSlash)
  | @whole digits _ nonempty longest =>
    obtain ⟨c, digits, rfl⟩ := List.exists_cons_of_ne_nil nonempty
    exact first?_number (longest.all c List.mem_cons_self) here
  | @fractional digits _ _ nonempty all =>
    obtain ⟨c, digits, rfl⟩ := List.exists_cons_of_ne_nil nonempty
    exact first?_number (all c List.mem_cons_self) here
  | string => exact first?_of_split [blank, comment, word, number] rfl take?_quote here
  | openQuote =>
    refine first?_of_split ([blank, comment, word, number] ++ [string]) rfl ?_ here
    refine List.forall_mem_append.2 ⟨take?_quote, List.forall_mem_singleton.2 ?_⟩
    exact take?_string_of_unclosed (h.unclosed rfl)
  | @symbol kind first more =>
    exact first?_symbol (mem_symbols_of_mem_all h.mem) (h.longest kind first more rfl)

/-- A symbol that is joined to what stands behind it does not win. -/
theorem not_joins_of_first? {kind : Kind} {first : Char} {more behind : List Char}
    (cut : Rule.first? (first :: more ++ c :: behind) = some (symbol kind first more, first :: more)) :
    ¬ Joins (first :: more) c := by
  intro joins
  obtain rfl : more = [] := by simpa using length_le_of_joins joins
  obtain comment | ⟨entry, mem, split⟩ := joins
  · cases comment
    obtain ⟨body, tail, rfl, -, -, longest⟩ := exists_run (· ≠ '\n') behind
    have wins : comment.Wins ('/' :: '/' :: body) tail := (Takes.comment longest).wins (by simp)
    cases cut.symm.trans wins.first?
  · have longest : ∀ d ∈ behind.head?, ¬ Joins (entry.2.1 :: entry.2.2) d := by
      intro d _ again
      have := length_le_of_joins again
      rw [← split] at this
      simp at this
    have wins := first?_symbol mem longest
    rw [← split, List.append_assoc] at wins
    have same := cut.symm.trans wins
    simp at same

/-- **The first rule that applies is the one that wins.** -/
theorem first?_eq_some_iff : first? (text ++ rest) = some (rule, text) ↔ rule.Wins text rest := by
  refine ⟨fun cut => ?_, Wins.first?⟩
  obtain ⟨mem, taken⟩ := first?_eq_some cut
  obtain ⟨other, split, takes⟩ := takes_of_take? taken
  rw [← List.append_cancel_left split] at takes
  refine ⟨mem, takes, ?_, ?_⟩
  · rintro rfl quote
    cases takes
    obtain ⟨inside, more, rfl, quoteless⟩ := List.eq_append_cons_of_mem quote
    have wins : string.Wins ('"' :: inside ++ ['"']) more := (Takes.string quoteless).wins (by simp)
    have closed := wins.first?
    rw [List.append_assoc] at closed
    cases cut.symm.trans closed
  · rintro kind first more rfl c behind
    cases takes
    obtain ⟨behind, rfl⟩ := List.head?_eq_some_iff.1 behind
    exact not_joins_of_first? cut

/-! ### Where no rule applies -/

/-- Some rule applies to a text with this first character. -/
def begins (c : Char) : Bool :=
  Text.isBlank c || isLetter c || c.isDigit || c = '"' || Kind.symbols.any fun s => s.2.1 = c

/-- **A text is stuck at its first character.** -/
theorem first?_eq_none_iff : first? (c :: cs) = none ↔ begins c = false := by
  unfold first?
  rw [List.findSome?_eq_none_iff]
  constructor
  · intro none
    rw [Bool.eq_false_iff]
    intro some
    -- for each class of first characters, the rule that takes it
    have stuck (rule : Rule) (mem : rule ∈ all) : rule.take? (c :: cs) = .none := by
      simpa using none rule mem
    simp only [begins, Bool.or_eq_true, decide_eq_true_eq, List.any_eq_true] at some
    obtain (((blanks | letter) | digit) | rfl) | ⟨entry, found, rfl⟩ := some
    · simpa [take?, blanks] using stuck blank (by decide)
    · simpa [take?, letter] using stuck word (by decide)
    · simpa [take?, digit] using stuck number (by decide)
    · simpa [take?] using stuck openQuote (by decide)
    · obtain ⟨kind, single⟩ := exists_single_of_mem_symbols found
      have mem : symbol kind entry.2.1 [] ∈ all :=
        List.mem_append_right _ (List.mem_map.2 ⟨_, single, rfl⟩)
      simpa [take?] using stuck (symbol kind entry.2.1 []) mem
  · intro h rule mem
    simp only [begins, Bool.or_eq_false_iff, decide_eq_false_iff_not, List.any_eq_false] at h
    obtain ⟨⟨⟨⟨notBlank, notLetter⟩, notDigit⟩, notQuote⟩, notSymbol⟩ := h
    rw [Option.map_eq_none_iff]
    obtain mem | mem := List.mem_append.1 mem
    · simp only [List.mem_cons, List.not_mem_nil, or_false] at mem
      obtain rfl | rfl | rfl | rfl | rfl | rfl := mem
      · exact take?_blank notBlank
      · exact take?_comment fun slash => absurd (by simp [slash]) (notSymbol (.slash, '/', []) (by decide))
      · exact take?_word notLetter
      · exact take?_number notDigit
      · exact take?_string notQuote
      · exact take?_openQuote notQuote
    · obtain ⟨entry, found, rfl⟩ := List.mem_map.1 mem
      exact take?_symbol fun same => absurd (by simp [same]) (notSymbol entry found)

end Rule

/-! ### Another text behind -/

namespace Rule

/-- The rule makes tokens. -/
def Solid : Rule → Prop
  | blank | comment | openQuote => False
  | word | number | string | symbol _ _ _ => True

theorem solid_of_reading {rule : Rule} {text : List Char} {kind : Kind} {literal : Option Literal}
    (read : rule.reading text = .token kind literal) : rule.Solid := by
  cases rule with
  | blank | comment | openQuote => cases read
  | word | number | string | symbol => trivial

end Rule

/-- What a rule that makes tokens asks of the text behind its own holds of `rest'` where it holds of
`rest`. -/
structure Spaced (rest' rest : List Char) : Prop where
  head : ∀ c ∈ rest'.head?, c ∈ rest.head? ∨ Text.isBlank c = true
  point : Rule.fraction rest = [] → Rule.fraction rest' = []

/-- What any rule asks of the text behind its own holds of `rest'` where it holds of `rest`. -/
structure Resembles (rest' rest : List Char) : Prop where
  head : ∀ c ∈ rest'.head?, c ∈ rest.head?
  point : Rule.fraction rest = [] → Rule.fraction rest' = []

variable {rest rest' : List Char}

theorem Resembles.spaced (like : Resembles rest' rest) : Spaced rest' rest :=
  ⟨fun c mem => .inl (like.head c mem), like.point⟩

theorem Run.resembling {p : Char → Bool} {run : List Char} (h : Run p run rest)
    (like : Resembles rest' rest) : Run p run rest' :=
  ⟨h.all, fun c mem => h.stop c (like.head c mem)⟩

theorem Run.spaced {p : Char → Bool} {run : List Char} (h : Run p run rest)
    (like : Spaced rest' rest) (ends : ∀ c, Text.isBlank c = true → p c = false) : Run p run rest' :=
  ⟨h.all, fun c mem => (like.head c mem).elim (h.stop c) (ends c)⟩

/-- No symbol is joined to a blank. -/
theorem Rule.not_joins_of_isBlank {text : List Char} {c : Char} (blank : Text.isBlank c = true) :
    ¬ Joins text c := by
  intro joins
  have last : ∀ s ∈ Kind.symbols, (s.2.1 :: s.2.2).getLast?.any Text.isBlank = false := by decide
  obtain slashes | ⟨entry, mem, split⟩ := joins
  · have slash := congrArg List.getLast? slashes
    rw [List.getLast?_concat] at slash
    cases slash
    cases blank
  · have notBlank := last entry mem
    rw [← split, List.getLast?_concat, Option.any_some, blank] at notBlank
    cases notBlank

/-- A rule that makes tokens and wins does so in front of a blank, too. -/
theorem Rule.Wins.spaced {rule : Rule} {text : List Char} (h : rule.Wins text rest)
    (solid : rule.Solid) (like : Spaced rest' rest) : rule.Wins text rest' := by
  have takes : rule.Takes text rest' := by
    cases h.takes with
    | blank | comment | openQuote => exact solid.elim
    | word letter longest => exact .word letter (longest.spaced like fun _ => isWordChar_of_isBlank)
    | whole nonempty longest pointless =>
      exact .whole nonempty (longest.spaced like fun _ => isDigit_of_isBlank) (like.point pointless)
    | fractional nonempty all further longest =>
      exact .fractional nonempty all further (longest.spaced like fun _ => isDigit_of_isBlank)
    | string quoteless => exact .string quoteless
    | symbol => exact .symbol
  refine ⟨h.mem, takes, ?_, ?_⟩
  · rintro rfl
    exact solid.elim
  · intro kind first more symbol c mem
    obtain here | blank := like.head c mem
    · exact h.longest kind first more symbol c here
    · exact not_joins_of_isBlank blank

/-- A rule that wins does so in front of another text, too.  An open quote may find its end there. -/
theorem Rule.Wins.resembling {rule : Rule} {text : List Char} (h : rule.Wins text rest)
    (closed : rule ≠ .openQuote) (like : Resembles rest' rest) : rule.Wins text rest' := by
  cases h.takes with
  | blank nonempty longest => exact ⟨h.mem, .blank nonempty (longest.resembling like), nofun, nofun⟩
  | comment longest => exact ⟨h.mem, .comment (longest.resembling like), nofun, nofun⟩
  | openQuote => exact absurd rfl closed
  | word | whole | fractional | string | symbol => exact h.spaced trivial like.spaced

theorem Rule.fraction_eq_nil_iff :
    fraction rest = [] ↔ ∀ d more, rest = '.' :: d :: more → d.isDigit = false := by
  constructor
  · rintro pointless d more rfl
    cases digit : d.isDigit with
    | false => rfl
    | true => simp [fraction, digit] at pointless
  · intro h
    obtain pointless | ⟨digits, behind, split, -, further, run⟩ := fraction_cases rest
    · exact pointless
    · obtain ⟨d, digits, rfl⟩ := List.exists_cons_of_ne_nil further
      have notDigit := h d (digits ++ behind) split
      rw [run.all d List.mem_cons_self] at notDigit
      cases notDigit

/-- Behind a character that no number goes on with, nothing counts. -/
theorem resembles_of_cons {c : Char} {left more : List Char} (notPoint : c ≠ '.')
    (notDigit : c.isDigit = false) (tail : ∀ d ∈ left.head?, d = c) (front : List Char) :
    Resembles (front ++ left) (front ++ c :: more) := by
  constructor
  · intro d mem
    cases front with
    | nil => rw [tail d mem]; rfl
    | cons => exact mem
  · rw [Rule.fraction_eq_nil_iff, Rule.fraction_eq_nil_iff]
    rintro pointless d behind split
    obtain _ | ⟨a, _ | ⟨b, front⟩⟩ := front
    · -- the point would be `c`
      rw [List.nil_append] at split
      exact absurd (tail '.' (by rw [split]; rfl)).symm notPoint
    · -- the digit would be `c`
      cases split
      rwa [tail d rfl]
    · cases split
      exact pointless _ _ rfl

/-- What begins with a blank ends every lexeme. -/
theorem spaced_of_isBlank (blank : ∀ c ∈ rest'.head?, Text.isBlank c = true) : Spaced rest' rest := by
  refine ⟨fun c mem => .inr (blank c mem), fun _ => Rule.fraction_eq_nil_iff.2 ?_⟩
  rintro d more rfl
  cases blank '.' rfl

end LoxReader
