import LoxReader.Proofs.Lexing.Failures

/-!
# The longest piece

`Piece` says which texts are blanks, comments, words, numbers, strings and symbols, and what they are
read as, without a word on the order of the rules.  Of all the pieces at the front of a text the lexer
takes the longest one, and no two are of the same length.  So its tokens are those of a lexer that
knows no order and always takes the longest piece (`Munches`).
-/

namespace LoxReader

/-! ### Pieces -/

/-- The text of a token of this kind, if it is always the same. -/
def Kind.spelling? : Kind → Option (List Char)
  | openParen => some ['('] | closeParen => some [')']
  | openCurly => some ['\x7b'] | closeCurly => some ['\x7d']
  | comma => some [','] | dot => some ['.'] | semicolon => some [';']
  | question => some ['?'] | colon => some [':']
  | minus => some ['-'] | plus => some ['+'] | slash => some ['/'] | star => some ['*']
  | not => some ['!'] | notEquals => some ['!', '='] | assignment => some ['=']
  | equals => some ['=', '='] | greater => some ['>'] | greaterEquals => some ['>', '=']
  | less => some ['<'] | lessEquals => some ['<', '=']
  | _ => none

/-- The text is one of the rule, and this is what it is read as. -/
inductive Piece : Rule → List Char → Rule.Reading → Prop
  | blank {text : List Char} (nonempty : text ≠ []) (all : ∀ c ∈ text, Text.isBlank c = true) :
    Piece .blank text .skipped
  | comment {body : List Char} (inLine : '\n' ∉ body) : Piece .comment ('/' :: '/' :: body) .skipped
  | keyword {c : Char} {more : List Char} {kind : Kind} (letter : Rule.isLetter c = true)
    (all : ∀ d ∈ more, Rule.isWordChar d = true)
    (reserved : (String.ofList (c :: more), kind) ∈ Kind.keywords) :
    Piece .word (c :: more) (.token kind none)
  | identifier {c : Char} {more : List Char} (letter : Rule.isLetter c = true)
    (all : ∀ d ∈ more, Rule.isWordChar d = true)
    (free : ∀ kind, (String.ofList (c :: more), kind) ∉ Kind.keywords) :
    Piece .word (c :: more) (.token .identifier none)
  | whole {digits : List Char} {value : Double} (nonempty : digits ≠ [])
    (all : ∀ d ∈ digits, d.isDigit = true)
    (read : Double.read? (String.ofList digits) = some value) :
    Piece .number digits (.token .number (some (.number value)))
  | fractional {digits more : List Char} {value : Double} (nonempty : digits ≠ [])
    (all : ∀ d ∈ digits, d.isDigit = true) (further : more ≠ [])
    (more_all : ∀ d ∈ more, d.isDigit = true)
    (read : Double.read? (String.ofList (digits ++ '.' :: more)) = some value) :
    Piece .number (digits ++ '.' :: more) (.token .number (some (.number value)))
  | string {inside : List Char} (quoteless : '"' ∉ inside) :
    Piece .string ('"' :: inside ++ ['"']) (.token .string (some (.string (String.ofList inside))))
  | openQuote : Piece .openQuote ['"'] (.fault .openString)
  | symbol {kind : Kind} {first : Char} {more : List Char}
    (spelled : kind.spelling? = some (first :: more)) :
    Piece (.symbol kind first more) (first :: more) (.token kind none)

theorem Kind.spelling?_eq_some_iff {kind : Kind} {first : Char} {more : List Char} :
    kind.spelling? = some (first :: more) ↔ (kind, first, more) ∈ Kind.symbols := by
  constructor
  · intro spelled
    cases kind <;> cases spelled <;> decide
  · have spelled : ∀ s ∈ Kind.symbols, s.1.spelling? = some (s.2.1 :: s.2.2) := by decide
    exact fun mem => spelled _ mem

theorem Kind.ofWord_of_mem {word : String} {kind : Kind} (h : (word, kind) ∈ keywords) :
    ofWord word = kind := by
  have single : ∀ entry ∈ keywords, ofWord entry.1 = entry.2 := by decide
  exact single _ h

theorem Kind.ofWord_of_notMem {word : String} (h : ∀ kind, (word, kind) ∉ keywords) :
    ofWord word = .identifier :=
  (ofWord_cases word).resolve_right (h _)

variable {rule : Rule} {t text rest : List Char} {r : Rule.Reading}

theorem Piece.reading_eq (h : Piece rule t r) : rule.reading t = r := by
  cases h with
  | blank | comment | openQuote | symbol => rfl
  | keyword _ _ reserved => rw [Rule.reading, Kind.ofWord_of_mem reserved]
  | identifier _ _ free => rw [Rule.reading, Kind.ofWord_of_notMem free]
  | whole _ _ read | fractional _ _ _ _ read => simp only [Rule.reading, read]
  | string _ => exact Rule.reading_string _

/-- What a rule takes is a piece of it. -/
theorem Rule.Takes.piece (h : rule.Takes text rest) (mem : rule ∈ Rule.all) :
    Piece rule text (rule.reading text) := by
  cases h with
  | blank nonempty longest => exact .blank nonempty longest.all
  | comment longest => exact .comment longest.notMem
  | @word c more _ letter longest =>
    by_cases reserved : ∃ kind, (String.ofList (c :: more), kind) ∈ Kind.keywords
    · obtain ⟨kind, reserved⟩ := reserved
      rw [reading, Kind.ofWord_of_mem reserved]
      exact .keyword letter longest.all reserved
    · rw [not_exists] at reserved
      rw [reading, Kind.ofWord_of_notMem reserved]
      exact .identifier letter longest.all reserved
  | whole nonempty longest pointless =>
    obtain ⟨value, read⟩ := (Takes.whole nonempty longest pointless).exists_read?
    simp only [reading, read]
    exact .whole nonempty longest.all read
  | fractional nonempty all further longest =>
    obtain ⟨value, read⟩ := (Takes.fractional nonempty all further longest).exists_read?
    simp only [reading, read]
    exact .fractional nonempty all further longest.all read
  | string quoteless =>
    rw [reading_string]
    exact .string quoteless
  | openQuote => exact .openQuote
  | symbol => exact .symbol (Kind.spelling?_eq_some_iff.2 (mem_symbols_of_mem_all mem))

/-! ### Nothing is longer than what wins -/

/-- In front of `behind`, a rule wins with a text that `t` begins.  If it is `t` itself, the rule is
this one. -/
def Rule.GivesWay (rule : Rule) (t behind : List Char) : Prop :=
  ∃ winner text rest, t ++ behind = text ++ rest ∧ winner.Wins text rest ∧ t <+: text ∧
    (t = text → rule = winner)

theorem Rule.Wins.givesWay {more : List Char} (h : rule.Wins (t ++ more) rest) :
    rule.GivesWay t (more ++ rest) :=
  ⟨rule, t ++ more, rest, (List.append_assoc _ _ _).symm, h, List.prefix_append _ _, fun _ => rfl⟩

theorem Rule.Wins.givesWay_of_ne_nil {winner : Rule} {more : List Char}
    (h : winner.Wins (t ++ more) rest) (longer : more ≠ []) : rule.GivesWay t (more ++ rest) := by
  refine ⟨winner, t ++ more, rest, (List.append_assoc _ _ _).symm, h, List.prefix_append _ _, ?_⟩
  intro same
  exact absurd (List.self_eq_append_right.1 same) longer

/-- A text of one class of characters goes on as far as the class does. -/
theorem exists_run_append {p : Char → Bool} (all : ∀ c ∈ t, p c = true) (behind : List Char) :
    ∃ more rest, behind = more ++ rest ∧ Run p (t ++ more) rest := by
  obtain ⟨more, rest, split, -, -, run⟩ := exists_run p behind
  exact ⟨more, rest, split, fun c mem => (List.mem_append.1 mem).elim (all c) (run.all c), run.stop⟩

namespace Rule

theorem givesWay_word {c : Char} {more : List Char} (letter : isLetter c = true)
    (all : ∀ d ∈ more, isWordChar d = true) (behind : List Char) :
    word.GivesWay (c :: more) behind := by
  obtain ⟨further, rest, rfl, run⟩ := exists_run_append all behind
  exact Wins.givesWay ((Takes.word letter run).wins (by simp))

theorem givesWay_whole {digits : List Char} (nonempty : digits ≠ [])
    (all : ∀ d ∈ digits, d.isDigit = true) (behind : List Char) :
    number.GivesWay digits behind := by
  obtain ⟨more, tail, rfl, run⟩ := exists_run_append all behind
  have nonempty : digits ++ more ≠ [] := List.append_ne_nil_of_left_ne_nil nonempty more
  obtain pointless | ⟨fraction, rest, rfl, -, further, fraction_run⟩ := fraction_cases tail
  · exact Wins.givesWay ((Takes.whole nonempty run pointless).wins (by simp))
  · have wins : number.Wins (digits ++ more ++ '.' :: fraction) rest :=
      (Takes.fractional nonempty run.all further fraction_run).wins (by simp)
    rw [List.append_assoc] at wins
    rw [← List.append_assoc]
    exact wins.givesWay

theorem givesWay_openQuote (behind : List Char) : openQuote.GivesWay ['"'] behind := by
  by_cases closed : '"' ∈ behind
  · obtain ⟨inside, rest, rfl, quoteless⟩ := List.eq_append_cons_of_mem closed
    have wins : string.Wins (['"'] ++ (inside ++ ['"'])) rest :=
      (Takes.string quoteless).wins (by simp)
    have split : inside ++ '"' :: rest = inside ++ ['"'] ++ rest := by simp
    rw [split]
    exact wins.givesWay_of_ne_nil (by simp)
  · have wins : openQuote.Wins (['"'] ++ []) behind :=
      ⟨by decide, .openQuote, fun _ => closed, nofun⟩
    exact wins.givesWay

theorem wins_symbol {kind : Kind} {first : Char} {more : List Char}
    (mem : (kind, first, more) ∈ Kind.symbols)
    (longest : ∀ c ∈ rest.head?, ¬ Joins (first :: more) c) :
    (symbol kind first more).Wins (first :: more) rest := by
  have inTable : symbol kind first more ∈ all :=
    List.mem_append_right _ (List.mem_map.2 ⟨_, mem, rfl⟩)
  exact ⟨inTable, .symbol, nofun, fun _ _ _ _ => longest⟩

theorem givesWay_symbol {kind : Kind} {first : Char} {more : List Char}
    (mem : (kind, first, more) ∈ Kind.symbols) (behind : List Char) :
    (symbol kind first more).GivesWay (first :: more) behind := by
  by_cases joined : ∃ c ∈ behind.head?, Joins (first :: more) c
  · obtain ⟨c, head, joins⟩ := joined
    obtain ⟨behind, rfl⟩ := List.head?_eq_some_iff.1 head
    obtain slashes | ⟨⟨kind', first', more'⟩, mem', split⟩ := joins
    · -- two slashes begin a comment
      obtain ⟨body, rest, rfl, -, -, run⟩ := exists_run (· ≠ '\n') behind
      have comment_eq : first :: more ++ c :: body = '/' :: '/' :: body := by
        rw [List.append_cons, slashes]
        rfl
      have wins : comment.Wins (first :: more ++ c :: body) rest := by
        rw [comment_eq]
        exact (Takes.comment run).wins (by simp)
      exact wins.givesWay_of_ne_nil (List.cons_ne_nil c body)
    · -- no symbol is longer than two characters
      have single : ∀ d ∈ behind.head?, ¬ Joins (first' :: more') d := by
        intro d _ again
        have := length_le_of_joins again
        rw [← split] at this
        simp at this
      have wins := wins_symbol mem' single
      rw [← split] at wins
      exact wins.givesWay_of_ne_nil (List.cons_ne_nil c [])
  · have wins := wins_symbol mem fun c head joins => joined ⟨c, head, joins⟩
    rw [← List.append_nil (first :: more)] at wins
    exact wins.givesWay

end Rule

/-- Where a piece is in front of a text, some rule wins with a text that is no shorter. -/
theorem Piece.givesWay (h : Piece rule t r) (behind : List Char) : rule.GivesWay t behind := by
  cases h with
  | blank nonempty all =>
    obtain ⟨more, rest, rfl, run⟩ := exists_run_append all behind
    have nonempty : t ++ more ≠ [] := List.append_ne_nil_of_left_ne_nil nonempty more
    exact Rule.Wins.givesWay ((Rule.Takes.blank nonempty run).wins (by simp))
  | @comment body inLine =>
    have line : Run (· ≠ '\n') body [] := .of_notMem inLine (by simp)
    obtain ⟨more, rest, rfl, run⟩ := exists_run_append line.all behind
    exact Rule.Wins.givesWay ((Rule.Takes.comment run).wins (by simp))
  | keyword letter all _ | identifier letter all _ => exact Rule.givesWay_word letter all behind
  | whole nonempty all _ => exact Rule.givesWay_whole nonempty all behind
  | @fractional digits fraction _ nonempty all further more_all _ =>
    obtain ⟨more, rest, rfl, run⟩ := exists_run_append more_all behind
    have wins : Rule.number.Wins (digits ++ '.' :: fraction ++ more) rest := by
      rw [List.append_assoc, List.cons_append]
      have further : fraction ++ more ≠ [] := List.append_ne_nil_of_left_ne_nil further more
      exact (Rule.Takes.fractional nonempty all further run).wins (by simp)
    exact wins.givesWay
  | @string inside quoteless =>
    have wins : Rule.string.Wins ('"' :: inside ++ ['"'] ++ []) behind := by
      rw [List.append_nil]
      exact (Rule.Takes.string quoteless).wins (by simp)
    exact wins.givesWay
  | openQuote => exact Rule.givesWay_openQuote behind
  | symbol spelled => exact Rule.givesWay_symbol (Kind.spelling?_eq_some_iff.1 spelled) behind

/-! ### The longest piece -/

/-- Of the pieces at the front of `text ++ rest` this one is not shorter than any other. -/
structure Longest (rule : Rule) (text rest : List Char) (r : Rule.Reading) : Prop where
  piece : Piece rule text r
  length_le : ∀ other t r', Piece other t r' → t <+: text ++ rest → t.length ≤ text.length

section Cuts

variable {cs : List Char} {other : Rule}

theorem Cut.piece (h : Cut rule cs text rest) : Piece rule text (rule.reading text) :=
  h.takes.piece (Rule.first?_eq_some h.first).1

/-- Each piece at the front is one at the front of what is cut off. -/
theorem Cut.prefix_of_piece (h : Cut rule cs text rest) (piece : Piece other t r) (front : t <+: cs) :
    t <+: text ∧ (t = text → other = rule) := by
  obtain ⟨behind, rfl⟩ := front
  obtain ⟨winner, taken, left, split, wins, begins, same⟩ := piece.givesWay behind
  have first := wins.first?
  rw [← split] at first
  cases h.first.symm.trans first
  exact ⟨begins, same⟩

theorem Cut.longest (h : Cut rule cs text rest) : Longest rule text rest (rule.reading text) := by
  refine ⟨h.piece, ?_⟩
  intro other t r piece front
  rw [← h.append] at front
  exact (h.prefix_of_piece piece front).1.length_le

theorem Longest.cut (h : Longest rule text rest r) : Cut rule (text ++ rest) text rest := by
  obtain ⟨winner, taken, left, split, wins, begins, same⟩ := h.piece.givesWay rest
  -- what wins is a piece itself, so it is no longer than the longest one
  have bound : taken.length ≤ text.length := by
    refine h.length_le winner taken _ (wins.takes.piece wins.mem) ?_
    rw [split]
    exact List.prefix_append taken left
  obtain rfl := begins.eq_of_length_le bound
  obtain rfl := same rfl
  obtain rfl := List.append_cancel_left split
  exact wins.cut

theorem first?_eq_none_iff_piece :
    Rule.first? cs = none ↔ ∀ other t r, Piece other t r → ¬ t <+: cs := by
  constructor
  · rintro none other t r piece ⟨behind, rfl⟩
    obtain ⟨winner, taken, left, split, wins, -⟩ := piece.givesWay behind
    have first := wins.first?
    rw [← split, none] at first
    cases first
  · intro pieceless
    cases first : Rule.first? cs with
    | none => rfl
    | some cut =>
      have cut := Cut.of_first? first
      refine absurd ?_ (pieceless _ _ _ cut.piece)
      rw [cut.append]
      exact List.prefix_append _ _

end Cuts

/-! ### The lexer that takes the longest piece -/

/-- What comes of a text at a place, if the longest piece is taken each time. -/
inductive Munches (file : String) : Place → List Char → Except SourceError (List Token) → Prop
  | done (p : Place) : Munches file p [] (.ok [Token.atEnd file p])
  | stray {p : Place} {c : Char} {more : List Char}
    (pieceless : ∀ rule t r, Piece rule t r → ¬ t <+: c :: more) :
    Munches file p (c :: more) (.error ⟨.strayCharacter c, wrap32 p.offset, file⟩)
  | fault {p : Place} {rule : Rule} {text rest : List Char} {fault : Fault}
    (longest : Longest rule text rest (.fault fault)) :
    Munches file p (text ++ rest) (.error ⟨fault, wrap32 p.offset, file⟩)
  | skipped {p : Place} {rule : Rule} {text rest : List Char} {result : Except SourceError (List Token)}
    (longest : Longest rule text rest .skipped) (further : Munches file (p.after text) rest result) :
    Munches file p (text ++ rest) result
  | token {p : Place} {rule : Rule} {text rest : List Char} {kind : Kind} {literal : Option Literal}
    {result : Except SourceError (List Token)} (longest : Longest rule text rest (.token kind literal))
    (further : Munches file (p.after text) rest result) :
    Munches file p (text ++ rest) (result.map (Token.ofText file p text kind literal :: ·))

variable {file : String} {p : Place} {cs : List Char} {result : Except SourceError (List Token)}

/-- One step of the lexer. -/
theorem Cut.munches (cut : Cut rule cs text rest)
    (further : Munches file (p.after text) rest (lexFrom file (p.after text) rest)) :
    Munches file p cs (lexFrom file p cs) := by
  have longest := cut.longest
  rw [lexFrom_cut cut, cut.append]
  cases read : rule.reading text with
  | fault fault => exact .fault (read ▸ longest)
  | skipped => exact .skipped (read ▸ longest) further
  | token kind literal => exact .token (read ▸ longest) further

theorem munches_lexFrom (file : String) (p : Place) (cs : List Char) :
    Munches file p cs (lexFrom file p cs) := by
  induction size : cs.length using Nat.strongRecOn generalizing p cs with
  | ind n ih =>
    cases cs with
    | nil =>
      rw [lexFrom_nil]
      exact .done p
    | cons c more =>
      cases first : Rule.first? (c :: more) with
      | none =>
        rw [lexFrom_stuck first]
        exact .stray (first?_eq_none_iff_piece.1 first)
      | some cut =>
        have cut := Cut.of_first? first
        have shorter := congrArg List.length cut.append
        have := List.length_pos_iff.2 cut.ne_nil
        rw [List.length_append] at shorter
        exact cut.munches (ih _ (by omega) _ _ rfl)

theorem Munches.lexFrom_eq (h : Munches file p cs result) : lexFrom file p cs = result := by
  induction h with
  | done p => exact lexFrom_nil file p
  | stray pieceless => exact lexFrom_stuck (first?_eq_none_iff_piece.2 pieceless)
  | fault longest => rw [lexFrom_cut longest.cut, longest.piece.reading_eq]
  | skipped longest _ ih => rw [lexFrom_cut longest.cut, longest.piece.reading_eq]; exact ih
  | token longest _ ih => rw [lexFrom_cut longest.cut, longest.piece.reading_eq, ih]

/-! ### The rules in their order -/

/-- What the first rule that applies takes off `cs`, next to all that could have been taken. -/
structure CutsLongest (cs : List Char) (rule : Rule) (text : List Char) : Prop where
  /-- What another rule would have taken is shorter. -/
  others : ∀ other ∈ Rule.all, ∀ t, other.take? cs = some t →
    t <+: text ∧ (t = text → other = rule)
  split : ∃ rest, cs = text ++ rest ∧ rule.Wins text rest ∧
    Longest rule text rest (rule.reading text)

theorem cutsLongest_of_first? (h : Rule.first? cs = some (rule, text)) : CutsLongest cs rule text := by
  have cut := Cut.of_first? h
  refine ⟨?_, _, cut.append, cut.wins, cut.longest⟩
  intro other mem t taken
  obtain ⟨behind, split, takes⟩ := Rule.takes_of_take? taken
  refine cut.prefix_of_piece (takes.piece mem) ?_
  rw [split]
  exact List.prefix_append t behind

/-- A token with a fixed text is this text, and the lexer goes on behind it. -/
structure FixedCut (file : String) (p : Place) (cs : List Char) (kind : Kind) (text : List Char) :
    Prop where
  spelled : kind.spelling? = some text
  behind : ∃ rest, cs = text ++ rest ∧
    lexFrom file p cs =
      (lexFrom file (p.after text) rest).map (Token.ofText file p text kind none :: ·)

theorem fixedCut_of_first? {kind : Kind} {first : Char} {more : List Char}
    (h : Rule.first? cs = some (.symbol kind first more, text)) : FixedCut file p cs kind text := by
  have cut := Cut.of_first? h
  have spelled : kind.spelling? = some text := by
    cases cut.piece with
    | symbol spelled => exact spelled
  refine ⟨spelled, _, cut.append, ?_⟩
  rw [lexFrom_cut cut]
  rfl

/-- **The first rule that applies takes the longest piece.**  So the tokens of a source are the ones
of a lexer that looks for the longest piece and knows no order of the rules. -/
theorem lex_longest (source : String) (file : Option String) :
    (∀ cs,
      match Rule.first? cs with
      | some (rule, text) => CutsLongest cs rule text
      | none => ∀ rule t r, Piece rule t r → ¬ t <+: cs) ∧
    (∀ kind first more cs text p, Rule.first? cs = some (.symbol kind first more, text) →
      FixedCut (fileName file) p cs kind text) ∧
    ∀ result, lex source file = result ↔ Munches (fileName file) .start source.toList result := by
  refine ⟨?_, fun _ _ _ _ _ _ => fixedCut_of_first?, ?_⟩
  · intro cs
    split
    · rename_i rule text first
      exact cutsLongest_of_first? first
    · rename_i none
      exact first?_eq_none_iff_piece.1 none
  · refine fun result => ⟨?_, Munches.lexFrom_eq⟩
    rintro rfl
    exact munches_lexFrom _ _ _

example : Rule.first? "<=1".toList = some (.symbol .lessEquals '<' ['='], ['<', '=']) := by decide

end LoxReader
