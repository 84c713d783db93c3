import LoxReader.Proofs.Lexing.Munch

/-!
# The loop of the lexer, byte by byte

`Cutting.turn?` is one turn of the loop as it goes over the bytes of a source: what is ahead is
sliced off at an offset, the rules are tried on it, and the rule that applies slices again, makes its
token and says by how many bytes the head moves.  A slice that begins or ends inside a character or
outside the text is not there, and neither is the turn then.

From the start of a source this never comes about.  In front of each turn the head is between two
characters, the turn fails or moves it behind the text that was matched, and so there are no more
turns than bytes.  What the loop ends with is what the lexer says (`lex_progresses`).
-/

namespace LoxReader

/-- A source that is being cut up: the head over it, and the tokens behind the head. -/
structure Cutting where
  head : ReadingHead
  tokens : List Token

namespace Cutting

def start (source : String) (file : Option String) : Cutting := ⟨.start source (fileName file), []⟩

/-- The text that a rule takes at the head, empty if it takes none. -/
def matched? (s : Cutting) (rule : Rule) : Option (List Char) :=
  s.head.ahead?.map fun ahead => (rule.take? ahead).getD []

def move (s : Cutting) (bytes : Nat) : Cutting := { s with head := s.head.move bytes }

def countLines (s : Cutting) (text : List Char) : Cutting :=
  { s with head.place := s.head.place.moved 0 (text.count '\n') }

/-- A token of the next bytes. -/
def push (s : Cutting) (kind : Kind) (text : List Char) (literal : Option Literal) : Cutting :=
  { s with
    tokens := s.tokens ++
      [⟨kind, String.ofList text, literal, s.head.place.line, s.head.span (Text.byteLength text)⟩] }

def errorHere (s : Cutting) (fault : Fault) : SourceError := ⟨fault, s.head.position, s.head.file⟩

/-- What is done for a rule that applies.  A symbol moves the head by its own text, without a look at
what was matched. -/
def handle? (s : Cutting) (rule : Rule) : Option (Except SourceError Cutting) :=
  match rule with
  | .blank | .comment => do
    let text ← s.matched? rule
    return .ok ((s.countLines text).move (Text.byteLength text))
  | .word => do
    let text ← s.matched? rule
    return .ok ((s.push (.ofWord (String.ofList text)) text none).move (Text.byteLength text))
  | .number => do
    let text ← s.matched? rule
    match Double.read? (String.ofList text) with
    | none => return .error (s.errorHere (.malformedNumber (String.ofList text)))
    | some value => return .ok ((s.push .number text (some (.number value))).move (Text.byteLength text))
  | .string => do
    let text ← s.matched? rule
    let inside ← Text.slice? 1 (Text.byteLength text - 1) text
    let t := s.push .string text (some (.string (String.ofList inside)))
    return .ok ((t.countLines text).move (Text.byteLength text))
  | .openQuote => some (.error (s.errorHere .openString))
  | .symbol kind _ _ =>
    let text := kind.spelling?.getD []
    some (.ok ((s.push kind text none).move (Text.byteLength text)))

/-- One turn of the loop, `none` if something is sliced that cannot be. -/
def turn? (s : Cutting) : Option (Except SourceError Cutting) := do
  let ahead ← s.head.ahead?
  match Rule.all.find? fun rule => (rule.take? ahead).isSome with
  | some rule => s.handle? rule
  | none => return .error (s.errorHere (.strayCharacter (ahead.headD '\x00')))

/-- The loop goes from one state to the other in so many turns. -/
inductive Turns : Nat → Cutting → Cutting → Prop
  | refl (s : Cutting) : Turns 0 s s
  | step {n : Nat} {s t u : Cutting} (inside : s.head.atEnd = false) (turn : s.turn? = some (.ok t))
    (further : Turns n t u) : Turns (n + 1) s u

/-- The loop ends here, and this is what comes of it. -/
inductive Ends (s : Cutting) : Except SourceError (List Token) → Prop
  | done (atEnd : s.head.atEnd = true) :
    s.Ends (.ok (s.tokens ++ [Token.atEnd s.head.file s.head.place]))
  | failed {e : SourceError} (inside : s.head.atEnd = false) (turn : s.turn? = some (.error e)) :
    s.Ends (.error e)

end Cutting

/-! ### Slices -/

theorem Text.utf8ByteSize_ofList (cs : List Char) :
    (String.ofList cs).utf8ByteSize = byteLength cs := by
  induction cs with
  | nil => rfl
  | cons c cs ih =>
    rw [String.ofList_cons, String.utf8ByteSize_append, String.utf8ByteSize_singleton, ih,
      byteLength_cons]

theorem Text.byteLength_toList (s : String) : byteLength s.toList = s.utf8ByteSize := by
  rw [← utf8ByteSize_ofList, String.ofList_toList]

/-- A string in quotes has an inside. -/
theorem Text.slice?_quoted (inside : List Char) :
    slice? 1 (byteLength ('"' :: inside ++ ['"']) - 1) ('"' :: inside ++ ['"']) = some inside := by
  refine slice?_eq_some_iff.2 ⟨['"'], ['"'], rfl, rfl, ?_⟩
  have quote : byteLength ['"'] = 1 := rfl
  rw [byteLength_append, byteLength_cons, quote, Nat.add_sub_cancel]
  rfl

namespace ReadingHead

variable {h : ReadingHead} {cs : List Char}

theorem ahead?_eq_some_iff :
    h.ahead? = some cs ↔
      ∃ front, h.source.toList = front ++ cs ∧ h.place.offset = Text.byteLength front :=
  Text.dropBytes?_eq_some_iff

/-- Something is ahead exactly where a character of the source begins, or the source ends. -/
theorem exists_ahead?_iff :
    (∃ cs, h.ahead? = some cs) ↔ String.Pos.Raw.IsValid h.source ⟨h.place.offset⟩ := by
  rw [String.Pos.Raw.isValid_iff_exists_append]
  constructor
  · rintro ⟨cs, ahead⟩
    obtain ⟨front, split, offset⟩ := ahead?_eq_some_iff.1 ahead
    refine ⟨String.ofList front, String.ofList cs, ?_, ?_⟩
    · rw [← String.ofList_append, ← split, String.ofList_toList]
    · rw [String.Pos.Raw.ext_iff, String.byteIdx_rawEndPos, ← Text.byteLength_toList,
        String.toList_ofList]
      exact offset
  · rintro ⟨front, behind, split, offset⟩
    refine ⟨behind.toList, ahead?_eq_some_iff.2 ⟨front.toList, ?_, ?_⟩⟩
    · rw [split, String.toList_append]
    · rw [String.Pos.Raw.ext_iff, String.byteIdx_rawEndPos, ← Text.byteLength_toList] at offset
      exact offset

/-- The second byte of a wide blank. -/
example : (⟨"\u3000", "shell", ⟨1, 1, by decide⟩⟩ : ReadingHead).ahead? = none := by decide

theorem atEnd_iff (ahead : h.ahead? = some cs) : h.atEnd = true ↔ cs = [] := by
  obtain ⟨front, split, offset⟩ := ahead?_eq_some_iff.1 ahead
  rw [atEnd, decide_eq_true_eq, split, offset, Text.byteLength_append]
  constructor
  · intro le
    by_cases none : cs = []
    · exact none
    · have := Text.byteLength_pos none
      omega
  · rintro rfl
    exact Nat.le_refl _

end ReadingHead

/-! ### One turn -/

/-- The rule that is found is the one that cuts. -/
theorem Rule.find?_eq_map_first? (cs : List Char) :
    all.find? (fun rule => (rule.take? cs).isSome) = (first? cs).map Prod.fst := by
  unfold first?
  induction all with
  | nil => rfl
  | cons rule rules ih =>
    cases taken : rule.take? cs with
    | none => simp [taken, ih]
    | some text => simp [taken]

/-- Words, numbers and symbols are on one line. -/
theorem Rule.Takes.newline_notMem {rule : Rule} {text rest : List Char} (h : rule.Takes text rest)
    (mem : rule ∈ all) (solid : rule.Solid) (notString : rule ≠ .string) : '\n' ∉ text := by
  -- a newline is blank, and no blank is in one of the classes
  have blank : Text.isBlank '\n' = true := by decide
  have notWord := isWordChar_of_isBlank blank
  have notDigit := isDigit_of_isBlank blank
  intro newline
  cases h with
  | blank | comment | openQuote => exact solid
  | string => exact notString rfl
  | word letter longest =>
    obtain rfl | inside := List.mem_cons.1 newline
    · rw [isBlank_of_isLetter letter] at blank
      cases blank
    · rw [longest.all _ inside] at notWord
      cases notWord
  | whole _ longest =>
    rw [longest.all _ newline] at notDigit
    cases notDigit
  | fractional _ all _ longest =>
    obtain inside | inside := List.mem_append.1 newline
    · rw [all _ inside] at notDigit
      cases notDigit
    · obtain point | inside := List.mem_cons.1 inside
      · cases point
      · rw [longest.all _ inside] at notDigit
        cases notDigit
  | symbol =>
    have inLine : ∀ s ∈ Kind.symbols, '\n' ∉ s.2.1 :: s.2.2 := by decide
    exact inLine _ (mem_symbols_of_mem_all mem) newline

namespace Cutting

variable {s t u : Cutting} {text rest cs : List Char} {rule : Rule} {n m : Nat}
  {x y : Except SourceError (List Token)}

/-- The head behind the text at it. -/
def behind (s : Cutting) (text : List Char) : Cutting :=
  { s with head.place := s.head.place.after text }

/-- What comes of a text at the head. -/
def read (s : Cutting) (text : List Char) : Rule.Reading → Except SourceError Cutting
  | .fault fault => .error (s.errorHere fault)
  | .skipped => .ok (s.behind text)
  | .token kind literal => .ok ((s.push kind text literal).behind text)

theorem move_eq_behind (h : '\n' ∉ text) : s.move (Text.byteLength text) = s.behind text := by
  have place : s.head.place.after text =
      { s.head.place with offset := s.head.place.offset + Text.byteLength text } := by
    rw [Place.after, List.count_eq_zero.2 h]
    simp only [Place.moved, Nat.add_zero, wrap32_of_lt s.head.place.line_lt]
  rw [behind, place]
  rfl

theorem ahead?_behind (ahead : s.head.ahead? = some (text ++ rest)) :
    (s.behind text).head.ahead? = some rest := by
  obtain ⟨front, split, offset⟩ := ReadingHead.ahead?_eq_some_iff.1 ahead
  refine ReadingHead.ahead?_eq_some_iff.2 ⟨front ++ text, ?_, ?_⟩
  · rw [List.append_assoc]
    exact split
  · rw [Text.byteLength_append, ← offset]
    rfl

/-- The rule that applies takes its text again, and the head moves over this text. -/
theorem handle?_eq (ahead : s.head.ahead? = some (text ++ rest)) (takes : rule.Takes text rest)
    (mem : rule ∈ Rule.all) : s.handle? rule = some (s.read text (rule.reading text)) := by
  have matched : s.matched? rule = some text := by
    rw [matched?, ahead, Option.map_some, Rule.take?_of_takes takes]
    rfl
  have inLine := takes.newline_notMem mem
  cases rule with
  | blank | comment =>
    simp only [handle?, matched]
    rfl
  | word =>
    simp only [handle?, matched, Option.bind_eq_bind, Option.bind_some]
    rw [move_eq_behind (inLine trivial (by simp))]
    rfl
  | number =>
    obtain ⟨value, numeral⟩ := takes.exists_read?
    simp only [handle?, matched, Option.bind_eq_bind, Option.bind_some, Rule.reading, numeral]
    rw [move_eq_behind (inLine trivial (by simp))]
    rfl
  | string =>
    cases takes
    simp only [handle?, matched, Option.bind_eq_bind, Option.bind_some, Text.slice?_quoted,
      Rule.reading_string]
    rfl
  | openQuote => rfl
  | symbol kind first more =>
    cases takes
    have spelled := Kind.spelling?_eq_some_iff.2 (Rule.mem_symbols_of_mem_all mem)
    simp only [handle?, spelled, Option.getD_some]
    rw [move_eq_behind (inLine trivial (by simp))]
    rfl

/-- **A turn reads what the first rule cuts off.** -/
theorem turn?_cut {reading : Rule.Reading} (ahead : s.head.ahead? = some cs)
    (cut : Cut rule cs text rest) (read : rule.reading text = reading) :
    s.turn? = some (s.read text reading) := by
  have found := Rule.find?_eq_map_first? cs
  rw [cut.first] at found
  have handled := handle?_eq (cut.append ▸ ahead) cut.takes (Rule.first?_eq_some cut.first).1
  rw [read] at handled
  simp only [turn?, ahead, Option.bind_eq_bind, Option.bind_some, found, Option.map_some]
  exact handled

theorem turn?_stuck {c : Char} {more : List Char} (ahead : s.head.ahead? = some (c :: more))
    (stuck : Rule.first? (c :: more) = none) :
    s.turn? = some (.error (s.errorHere (.strayCharacter c))) := by
  have found := Rule.find?_eq_map_first? (c :: more)
  rw [stuck] at found
  simp only [turn?, ahead, Option.bind_eq_bind, Option.bind_some, found, Option.map_none]
  rfl

/-- A turn fails, or it ends with the head behind what was cut off. -/
theorem turn?_cases (ahead : s.head.ahead? = some cs) (inside : s.head.atEnd = false) :
    (∃ e, s.turn? = some (.error e)) ∨
      ∃ t rule text rest, s.turn? = some (.ok t) ∧ Cut rule cs text rest ∧
        t.head = (s.behind text).head := by
  have nonempty : cs ≠ [] := by
    intro none
    rw [(ReadingHead.atEnd_iff ahead).2 none] at inside
    cases inside
  obtain ⟨c, more, rfl⟩ := List.exists_cons_of_ne_nil nonempty
  cases first : Rule.first? (c :: more) with
  | none => exact .inl ⟨_, turn?_stuck ahead first⟩
  | some taken =>
    obtain ⟨rule, text⟩ := taken
    have cut := Cut.of_first? first
    cases read : rule.reading text with
    | fault => exact .inl ⟨_, turn?_cut ahead cut read⟩
    | skipped | token => exact .inr ⟨_, rule, text, _, turn?_cut ahead cut read, cut, rfl⟩

/-- The head of `t` stands behind the text that is matched at the head of `s`. -/
def Advances (s t : Cutting) : Prop :=
  ∃ ahead rule text rest, s.head.ahead? = some ahead ∧ Cut rule ahead text rest ∧
    0 < Text.byteLength text ∧ t.head.place.offset = s.head.place.offset + Text.byteLength text

/-! ### The loop -/

/-- A run of the loop keeps the source, comes to a place with something ahead, and goes over a byte
or more in each turn. -/
theorem Turns.keeps (h : Turns n s t) (ahead : s.head.ahead? = some cs) :
    t.head.source = s.head.source ∧ (∃ left, t.head.ahead? = some left) ∧
      s.head.place.offset + n ≤ t.head.place.offset := by
  induction h generalizing cs with
  | refl s => exact ⟨rfl, ⟨cs, ahead⟩, Nat.le_refl _⟩
  | @step n s t u inside turn _ ih =>
    -- what the turn comes to is known from what is cut off in front of it
    obtain ⟨e, failed⟩ | ⟨t', rule, text, rest, turn', cut, head⟩ := turn?_cases ahead inside
    · cases turn.symm.trans failed
    · cases turn.symm.trans turn'
      have behind : t.head.ahead? = some rest := by
        rw [head]
        exact ahead?_behind (cut.append ▸ ahead)
      obtain ⟨source, left, offset⟩ := ih behind
      have length := Text.byteLength_pos cut.ne_nil
      have moved : t.head.place.offset = s.head.place.offset + Text.byteLength text := by
        rw [head]
        rfl
      refine ⟨?_, left, by omega⟩
      rw [source, head]
      rfl

theorem Ends.unique (h : s.Ends x) (h' : s.Ends y) : x = y := by
  cases h with
  | done atEnd =>
    cases h' with
    | done => rfl
    | failed inside => cases atEnd.symm.trans inside
  | failed inside turn =>
    cases h' with
    | done atEnd => cases atEnd.symm.trans inside
    | failed _ turn' =>
      cases turn.symm.trans turn'
      rfl

theorem Ends.turn?_ne (h : s.Ends x) (inside : s.head.atEnd = false) : s.turn? ≠ some (.ok t) := by
  intro turn
  cases h with
  | done atEnd => cases atEnd.symm.trans inside
  | failed _ failed => cases turn.symm.trans failed

/-- The loop ends in one way only. -/
theorem Turns.ends_unique (h : Turns n s t) (ends : t.Ends x) (h' : Turns m s u) (ends' : u.Ends y) :
    x = y := by
  induction h generalizing m with
  | refl s =>
    cases h' with
    | refl => exact ends.unique ends'
    | step inside turn => exact absurd turn (ends.turn?_ne inside)
  | step inside turn _ ih =>
    cases h' with
    | refl => exact absurd turn (ends'.turn?_ne inside)
    | step _ turn' further =>
      cases turn.symm.trans turn'
      exact ih ends further

theorem atEnd_eq_false {c : Char} (ahead : s.head.ahead? = some (c :: cs)) :
    s.head.atEnd = false := by
  rw [Bool.eq_false_iff]
  intro atEnd
  cases (ReadingHead.atEnd_iff ahead).1 atEnd

theorem map_cons_append (result : Except SourceError (List Token)) (tokens : List Token) (t : Token) :
    (result.map (t :: ·)).map (tokens ++ ·) = result.map (tokens ++ [t] ++ ·) := by
  cases result with
  | error e => rfl
  | ok more => exact congrArg Except.ok (List.append_cons tokens t more)

/-- The loop ends with what the lexer says of the text ahead. -/
theorem exists_turns {file : String} {p : Place} (name : s.head.file = file)
    (place : s.head.place = p) (ahead : s.head.ahead? = some cs) :
    ∃ n t, Turns n s t ∧ t.Ends ((lexFrom file p cs).map (s.tokens ++ ·)) := by
  -- each call of the lexer is one turn
  induction p, cs using lexFrom.induct file generalizing s with
  | case1 p =>
    subst name place
    rw [lexFrom_nil]
    exact ⟨0, s, .refl s, .done ((ReadingHead.atEnd_iff ahead).2 rfl)⟩
  | case2 p c rest stuck =>
    subst name place
    rw [lexFrom_stuck stuck]
    exact ⟨0, s, .refl s, .failed (atEnd_eq_false ahead) (turn?_stuck ahead stuck)⟩
  | case3 p c rest rule text first _ fault read =>
    subst name place
    have cut := Cut.of_first? first
    rw [lexFrom_cut cut, read]
    exact ⟨0, s, .refl s, .failed (atEnd_eq_false ahead) (turn?_cut ahead cut read)⟩
  | case4 p c rest rule text first _ read ih =>
    subst name place
    have cut := Cut.of_first? first
    have behind := ahead?_behind (cut.append ▸ ahead)
    obtain ⟨n, t, turns, ends⟩ := ih (s := s.behind text) rfl rfl behind
    rw [lexFrom_cut cut, read]
    exact ⟨n + 1, t, .step (atEnd_eq_false ahead) (turn?_cut ahead cut read) turns, ends⟩
  | case5 p c rest rule text first _ kind literal read ih =>
    subst name place
    have cut := Cut.of_first? first
    have behind := ahead?_behind (cut.append ▸ ahead)
    obtain ⟨n, t, turns, ends⟩ := ih (s := (s.push kind text literal).behind text) rfl rfl behind
    refine ⟨n + 1, t, .step (atEnd_eq_false ahead) (turn?_cut ahead cut read) turns, ?_⟩
    -- the loop has the token already, the lexer puts it in front of what it reads later
    rw [lexFrom_cut cut, read]
    simp only [map_cons_append]
    exact ends

/-! ### The loop over a source -/

/-- What holds in front of the turn with the number `n`, counted from zero, and at the end of the
loop. -/
structure Standing (source : String) (n : Nat) (s : Cutting) : Prop where
  source_eq : s.head.source = source
  /-- The head is at the beginning of a character or at the end of the source. -/
  boundary : String.Pos.Raw.IsValid source ⟨s.head.place.offset⟩
  offset_le : s.head.place.offset ≤ source.utf8ByteSize
  turns_le : n ≤ s.head.place.offset
  /-- What is ahead can be sliced off, and so can the inside of a string in front of it. -/
  ahead : ∃ ahead, s.head.ahead? = some ahead ∧
    ∀ text, Rule.string.take? ahead = some text →
      ∃ inside, text = '"' :: inside ++ ['"'] ∧
        Text.slice? 1 (Text.byteLength text - 1) text = some inside
  atEnd_iff : s.head.atEnd = true ↔ s.head.place.offset = source.utf8ByteSize
  /-- A turn that begins is one of as many as the source has bytes.  It fails, or it goes over the
  text that was matched. -/
  turn : s.head.atEnd = false →
    n < source.utf8ByteSize ∧
      ((∃ e, s.turn? = some (.error e)) ∨ ∃ t, s.turn? = some (.ok t) ∧ s.Advances t)

theorem standing_of_ahead? (ahead : s.head.ahead? = some cs) (turns_le : n ≤ s.head.place.offset) :
    Standing s.head.source n s := by
  have offset_le : s.head.place.offset ≤ s.head.source.utf8ByteSize := by
    obtain ⟨front, split, offset⟩ := ReadingHead.ahead?_eq_some_iff.1 ahead
    rw [← Text.byteLength_toList, split, Text.byteLength_append, offset]
    exact Nat.le_add_right _ _
  have atEnd_iff : s.head.atEnd = true ↔ s.head.place.offset = s.head.source.utf8ByteSize := by
    rw [ReadingHead.atEnd, decide_eq_true_eq, Text.byteLength_toList]
    omega
  refine ⟨rfl, ReadingHead.exists_ahead?_iff.1 ⟨cs, ahead⟩, offset_le, turns_le, ⟨cs, ahead, ?_⟩,
    atEnd_iff, ?_⟩
  · intro text taken
    obtain ⟨rest, -, takes⟩ := Rule.takes_of_take? taken
    cases takes
    exact ⟨_, rfl, Text.slice?_quoted _⟩
  · intro inside
    have notEnd : s.head.place.offset ≠ s.head.source.utf8ByteSize := by
      intro same
      rw [atEnd_iff.2 same] at inside
      cases inside
    refine ⟨by omega, ?_⟩
    obtain failed | ⟨t, rule, text, rest, turn, cut, head⟩ := turn?_cases ahead inside
    · exact .inl failed
    · refine .inr ⟨t, turn, cs, rule, text, rest, ahead, cut, Text.byteLength_pos cut.ne_nil, ?_⟩
      rw [head]
      rfl

theorem ahead?_start (source : String) (file : Option String) :
    (start source file).head.ahead? = some source.toList :=
  ReadingHead.ahead?_eq_some_iff.2 ⟨[], rfl, rfl⟩

end Cutting

/-- **The loop goes from character to character and comes to the end.**  In front of each turn the
head is where a character begins, so that every slice is there, and the turn fails or goes over the
text that is matched, a byte at least.  What the loop ends with is what the lexer says. -/
theorem lex_progresses (source : String) (file : Option String) :
    (∀ n s, Cutting.Turns n (.start source file) s → s.Standing source n) ∧
      ∀ result, lex source file = result ↔
        ∃ n s, Cutting.Turns n (.start source file) s ∧ s.Ends result := by
  have ahead := Cutting.ahead?_start source file
  obtain ⟨n, s, turns, ends⟩ := Cutting.exists_turns rfl rfl ahead
  have same : (lexFrom (fileName file) .start source.toList).map ([] ++ ·) = lex source file := by
    rw [← lex]
    cases lex source file <;> rfl
  refine ⟨?_, fun result => ⟨?_, ?_⟩⟩
  · intro n s turns
    obtain ⟨source_eq, ⟨left, here⟩, turns_le⟩ := turns.keeps ahead
    have standing := Cutting.standing_of_ahead? here (Nat.le_trans (Nat.le_add_left _ _) turns_le)
    rw [source_eq] at standing
    exact standing
  · rintro rfl
    exact ⟨n, s, turns, same ▸ ends⟩
  · rintro ⟨m, t, turns', ends'⟩
    exact same.symm.trans (turns.ends_unique ends turns' ends')

/-- A wide blank, a string with an accent over two lines, and a comment with another one. -/
def wideSource : String := "\u3000\"é\n\"\u00a0//ü"

def wideTokens : List Token :=
  [⟨.string, "\"é\n\"", some (.string "é\n"), 1, ⟨3, 8, "shell"⟩⟩,
   ⟨.eof, "", none, 2, ⟨14, 14, "shell"⟩⟩]

theorem lex_progresses_wideSource :
    lex wideSource none = .ok wideTokens ∧
      ∃ n s, Cutting.Turns n (.start wideSource none) s ∧ s.Ends (.ok wideTokens) ∧
        s.Standing wideSource n := by
  have lexed : lex wideSource none = .ok wideTokens := eq_ok_of_toOption (by decide +kernel)
  obtain ⟨standing, ends⟩ := lex_progresses wideSource none
  obtain ⟨n, s, turns, ended⟩ := (ends _).1 lexed
  exact ⟨lexed, n, s, turns, ended, standing n s turns⟩

end LoxReader
