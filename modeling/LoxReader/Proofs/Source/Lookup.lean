import LoxReader.Proofs.Lexing.Lines

/-!
# Looking up a line

What the lookup finds for a byte, told by the bytes of the source alone: the newlines in front of the
byte count the lines, and the line goes from behind the last newline in front of the byte to behind
the first one at the byte or after it.  Bytes inside a character, newlines and the end of the source
are no exceptions, and every byte behind the end is at the end.
-/

namespace LoxReader

/-! ### Bytes -/

namespace Text

/-- The bytes of a text in UTF-8. -/
def bytes (cs : List Char) : List UInt8 := cs.flatMap String.utf8EncodeChar

/-- The byte of a newline. -/
def newline : UInt8 := 0x0a

@[simp] theorem bytes_nil : bytes [] = [] := rfl

@[simp] theorem bytes_cons (c : Char) (cs : List Char) :
    bytes (c :: cs) = String.utf8EncodeChar c ++ bytes cs := List.flatMap_cons

@[simp] theorem bytes_append (cs ds : List Char) : bytes (cs ++ ds) = bytes cs ++ bytes ds :=
  List.flatMap_append

@[simp] theorem length_bytes (cs : List Char) : (bytes cs).length = byteLength cs := by
  induction cs with
  | nil => rfl
  | cons c cs ih => rw [bytes_cons, List.length_append, String.length_utf8EncodeChar, ih, byteLength_cons]

@[simp] theorem bytes_newline : bytes ['\n'] = [newline] := rfl

/-- The bytes of a character of more than one byte have their first bit set. -/
theorem newline_notMem_utf8EncodeChar {c : Char} (h : c ≠ '\n') :
    newline ∉ String.utf8EncodeChar c := by
  have code : c.val.toNat ≠ 10 := by
    intro code
    exact h (Char.ext (UInt32.toNat_inj.1 code))
  have small : c.val.toNat < 0x110000 := by
    have := c.valid
    simp only [UInt32.isValidChar, Nat.isValidChar] at this
    omega
  have toNat (b : Nat) (range : b < 256) (other : b ≠ 10) : newline ≠ UInt8.ofNat b := by
    intro same
    have := congrArg UInt8.toNat same
    rw [UInt8.toNat_ofNat', Nat.mod_eq_of_lt range] at this
    exact other this.symm
  unfold String.utf8EncodeChar
  dsimp only
  repeat' split
  all_goals
    simp only [List.mem_cons, List.not_mem_nil, or_false, not_or]
    and_intros
    all_goals exact toNat _ (by omega) (by omega)

theorem newline_notMem_bytes {cs : List Char} (h : '\n' ∉ cs) : newline ∉ bytes cs := by
  intro mem
  obtain ⟨c, inside, byte⟩ := List.mem_flatMap.1 mem
  refine newline_notMem_utf8EncodeChar ?_ byte
  rintro rfl
  exact h inside

/-- Newlines are counted in the bytes as well as in the text. -/
theorem count_newline_bytes (cs : List Char) : (bytes cs).count newline = cs.count '\n' := by
  induction cs using lines_induction with
  | last line h => rw [List.count_eq_zero.2 h, List.count_eq_zero.2 (newline_notMem_bytes h)]
  | step line more h ih =>
    rw [← List.singleton_append, bytes_append, bytes_append, bytes_newline]
    simp only [List.count_append, ih, List.count_eq_zero.2 h, List.count_singleton_self,
      List.count_eq_zero.2 (newline_notMem_bytes h)]

end Text

/-! ### The line of a place -/

/-- The line of the byte `pos` goes from `start` up to `stop`. -/
structure LineAt (bytes : List UInt8) (pos start stop : Nat) : Prop where
  start_le : start ≤ pos
  /-- It starts behind the last newline in front of the byte, or with the source. -/
  opened : start = 0 ∨ bytes[start - 1]? = some Text.newline
  before : ∀ i, start ≤ i → i < pos → bytes[i]? ≠ some Text.newline
  /-- It stops behind the first newline at the byte or after it, or with the source. -/
  closed : (∃ i, pos ≤ i ∧ bytes[i]? = some Text.newline ∧ stop = i + 1 ∧
      ∀ k, pos ≤ k → k < i → bytes[k]? ≠ some Text.newline) ∨
    stop = bytes.length ∧ ∀ k, pos ≤ k → bytes[k]? ≠ some Text.newline

theorem Text.getElem?_ne_newline {bytes : List UInt8} (h : newline ∉ bytes) (i : Nat) :
    bytes[i]? ≠ some newline := fun here => h (List.mem_of_getElem? here)

section Parts

variable {front left right tail : List UInt8}

/-- A place with its line around it: `tail` is behind the line, or begins with the newline that ends
it. -/
theorem lineAt_of_parts (opened : front = [] ∨ front.getLast? = some Text.newline)
    (before : Text.newline ∉ left) (after : Text.newline ∉ right)
    (closed : ∀ b ∈ tail.head?, b = Text.newline) :
    LineAt (front ++ (left ++ (right ++ tail))) (front.length + left.length) front.length
      (front.length + (left ++ (right ++ tail.take 1)).length) := by
  have inLine (i : Nat) (h : front.length ≤ i) (h' : i < front.length + left.length + right.length) :
      (front ++ (left ++ (right ++ tail)))[i]? ≠ some Text.newline := by
    rw [List.getElem?_append_right h, ← List.append_assoc, List.getElem?_append_left]
    · exact Text.getElem?_ne_newline (by simp [before, after]) _
    · rw [List.length_append]
      omega
  refine ⟨by omega, ?_, fun i h h' => inLine i h (by omega), ?_⟩
  · obtain rfl | last := opened
    · exact .inl rfl
    · right
      have nonempty : front ≠ [] := by
        rintro rfl
        cases last
      have := List.length_pos_iff.2 nonempty
      rw [List.getElem?_append_left (by omega), ← List.getLast?_eq_getElem?, last]
  · cases tail with
    | nil =>
      right
      refine ⟨by simp, fun k h => ?_⟩
      rw [List.getElem?_append_right (by omega), List.append_nil]
      exact Text.getElem?_ne_newline (by simp [before, after]) _
    | cons b tail =>
      left
      obtain rfl := closed b rfl
      refine ⟨front.length + left.length + right.length, by omega, ?_, by simp [Nat.add_assoc],
        fun k h => inLine k (by omega)⟩
      rw [List.getElem?_append_right (by omega), List.getElem?_append_right (by omega),
        List.getElem?_append_right (by omega)]
      simp [Nat.add_assoc]

theorem slice_of_parts :
    ((front ++ (left ++ (right ++ tail))).take
      (front.length + (left ++ (right ++ tail.take 1)).length)).drop front.length =
      left ++ (right ++ tail.take 1) := by
  have regroup : front ++ (left ++ (right ++ tail)) =
      front ++ (left ++ (right ++ tail.take 1)) ++ tail.drop 1 := by
    simp only [List.append_assoc, List.take_append_drop]
  rw [regroup, List.take_left' List.length_append, List.drop_left]

end Parts

/-! ### The lookup -/

section Cut

variable {before front line body close : List Char} {j : Nat}

/-- Up to the byte, only what stands in front of the body of its line has newlines. -/
theorem Text.count_newline_take (inLine : '\n' ∉ body) (le : j ≤ byteLength body) :
    ((bytes (before ++ (body ++ close))).take (byteLength before + j)).count newline =
      before.count '\n' := by
  have none : newline ∉ (bytes body).take j :=
    fun mem => newline_notMem_bytes inLine (List.mem_of_mem_take mem)
  have length : j ≤ (bytes body).length := by rwa [length_bytes]
  rw [bytes_append, bytes_append, ← length_bytes, List.take_length_add_append,
    List.take_append_of_le_length length, List.count_append, count_newline_bytes,
    List.count_eq_zero.2 none, Nat.add_zero]

/-- The line of a byte in `body` is `line`, `body` and the newline behind it. -/
theorem exists_lineAt (opened : front = [] ∨ ∃ lines, front = lines ++ ['\n']) (inLine : '\n' ∉ line)
    (run : Run (· ≠ '\n') body close) (le : j ≤ Text.byteLength body) :
    ∃ stop, LineAt (Text.bytes (front ++ line ++ (body ++ close)))
        (Text.byteLength (front ++ line) + j) (Text.byteLength front) stop ∧
      ((Text.bytes (front ++ line ++ (body ++ close))).take stop).drop (Text.byteLength front) =
        Text.bytes (line ++ (body ++ close.take 1)) := by
  -- the body is cut at the byte, which may be inside a character
  let left := Text.bytes line ++ (Text.bytes body).take j
  let right := (Text.bytes body).drop j
  have joined (behind : List UInt8) :
      left ++ (right ++ behind) = Text.bytes line ++ (Text.bytes body ++ behind) := by
    simp only [left, right, List.append_assoc]
    rw [← List.append_assoc (List.take j _), List.take_append_drop]
  have parts : Text.bytes (front ++ line ++ (body ++ close)) =
      Text.bytes front ++ (left ++ (right ++ Text.bytes close)) := by
    rw [joined]
    simp only [Text.bytes_append, List.append_assoc]
  have place : Text.byteLength (front ++ line) + j = (Text.bytes front).length + left.length := by
    simp only [left, List.length_append, List.length_take, Text.length_bytes, Text.byteLength_append]
    omega
  have newlineFree : Text.newline ∉ Text.bytes body := Text.newline_notMem_bytes run.notMem
  have left_free : Text.newline ∉ left := by
    rw [List.mem_append, not_or]
    exact ⟨Text.newline_notMem_bytes inLine, fun mem => newlineFree (List.mem_of_mem_take mem)⟩
  have right_free : Text.newline ∉ right := fun mem => newlineFree (List.mem_of_mem_drop mem)
  have opened : Text.bytes front = [] ∨ (Text.bytes front).getLast? = some Text.newline := by
    obtain rfl | ⟨lines, rfl⟩ := opened
    · exact .inl rfl
    · right
      rw [Text.bytes_append, Text.bytes_newline, List.getLast?_concat]
  have closed : (∀ b ∈ (Text.bytes close).head?, b = Text.newline) ∧
      (Text.bytes close).take 1 = Text.bytes (close.take 1) := by
    obtain rfl | ⟨more, rfl⟩ := run.rest_cases
    · exact ⟨nofun, rfl⟩
    · refine ⟨?_, rfl⟩
      rintro b ⟨⟩
      rfl
  have at_parts := lineAt_of_parts opened left_free right_free closed.1
  rw [← parts, ← place, Text.length_bytes] at at_parts
  refine ⟨_, at_parts, ?_⟩
  rw [parts, ← Text.length_bytes front, slice_of_parts, closed.2, joined]
  simp only [Text.bytes_append]

end Cut

/-- What stands in front of the last line is nothing or ends with a newline. -/
theorem exists_eq_append_lastLine (cs : List Char) :
    ∃ front, cs = front ++ lastLine cs ∧ (front = [] ∨ ∃ lines, front = lines ++ ['\n']) := by
  induction cs using lines_induction with
  | last line h => exact ⟨[], by rw [lastLine_of_notMem h, List.nil_append], .inl rfl⟩
  | step line more _ ih =>
    obtain ⟨front, split, opened⟩ := ih
    refine ⟨line ++ '\n' :: front, ?_, .inr ?_⟩
    · rw [lastLine_newline, List.append_assoc, List.cons_append, ← split]
    · obtain rfl | ⟨lines, rfl⟩ := opened
      · exact ⟨line, rfl⟩
      · exact ⟨line ++ '\n' :: lines, by simp⟩

/-- A byte is behind a text or in one of its characters. -/
theorem Text.exists_character (n : Nat) (cs : List Char) :
    (∃ j, n = byteLength cs + j) ∨
      ∃ before c rest j, cs = before ++ c :: rest ∧ j < c.utf8Size ∧ n = byteLength before + j := by
  induction cs generalizing n with
  | nil => exact .inl ⟨n, by rw [byteLength_nil, Nat.zero_add]⟩
  | cons c cs ih =>
    by_cases inside : n < c.utf8Size
    · exact .inr ⟨[], c, cs, n, rfl, inside, by rw [byteLength_nil, Nat.zero_add]⟩
    · obtain ⟨j, eq⟩ | ⟨before, d, rest, j, rfl, lt, eq⟩ := ih (n - c.utf8Size)
      · exact .inl ⟨j, by rw [byteLength_cons]; omega⟩
      · exact .inr ⟨c :: before, d, rest, j, rfl, lt, by rw [byteLength_cons]; omega⟩

namespace Line

/-- The place that is looked up, with the text in front of it and `j` bytes of the line behind that. -/
theorem exists_ofOffset_eq (source : String) (offset : Nat) :
    ∃ before tail j, source.toList = before ++ tail ∧
      min offset (Text.byteLength source.toList) = Text.byteLength before + j ∧
      j ≤ Text.byteLength (tail.takeWhile (· ≠ '\n')) ∧
      ofOffset source offset =
        ⟨1 + before.count '\n', lastLine before ++ firstLine tail,
          Text.byteLength (lastLine before) + j⟩ := by
  obtain ⟨j, rfl⟩ | ⟨before, c, rest, j, split, inside, rfl⟩ :=
    Text.exists_character offset source.toList
  · refine ⟨source.toList, [], 0, (List.append_nil _).symm, by omega, Nat.le_refl _, ?_⟩
    rw [ofOffset, find_all, firstLine_nil, List.append_nil, Nat.add_zero]
  · refine ⟨before, c :: rest, j, split, ?_, ?_, ?_⟩
    · rw [split, Text.byteLength_append, Text.byteLength_cons]
      omega
    · by_cases newline : c = '\n'
      · subst newline
        have single : j = 0 := by
          have size : '\n'.utf8Size = 1 := rfl
          omega
        omega
      · rw [List.takeWhile_cons_of_pos (by simpa using newline), Text.byteLength_cons]
        omega
    · rw [ofOffset, split, find_append_cons 1 j before rest inside]

end Line

/-- **The line that is looked up**, by the bytes of the source. -/
theorem Line.ofOffset_lineAt (source : String) (offset : Nat) :
    let bytes := Text.bytes source.toList
    let pos := min offset bytes.length
    let line := ofOffset source offset
    ∃ start stop, LineAt bytes pos start stop ∧
      line.number = 1 + (bytes.take pos).count Text.newline ∧
      Text.bytes line.text = (bytes.take stop).drop start ∧
      line.column = pos - start := by
  intro bytes pos line
  obtain ⟨before, tail, j, split, place, inLine, found⟩ := exists_ofOffset_eq source offset
  obtain ⟨front, before_eq, opened⟩ := exists_eq_append_lastLine before
  obtain ⟨body, close, rfl, taken, dropped, run⟩ := exists_run (· ≠ '\n') tail
  rw [taken] at inLine
  obtain ⟨stop, lineAt, slice⟩ := exists_lineAt opened (notMem_lastLine before) run inLine
  rw [← before_eq, ← split] at lineAt slice
  have pos_eq : pos = Text.byteLength before + j := by rw [← place, ← Text.length_bytes]
  refine ⟨Text.byteLength front, stop, pos_eq ▸ lineAt, ?_, ?_, ?_⟩
  · simp only [line, found, bytes, pos_eq, split, Text.count_newline_take run.notMem inLine]
  · simp only [line, found, bytes, slice, firstLine, taken, dropped]
  · have length := congrArg Text.byteLength before_eq
    rw [Text.byteLength_append] at length
    simp only [line, found, pos_eq]
    omega

/-- A byte inside the accent, and the end of the source behind its last newline. -/
example : Line.ofOffset "(\né\n" 3 = ⟨2, "é\n".toList, 1⟩ ∧
    Line.ofOffset "(\né\n" 9 = ⟨3, [], 0⟩ := by decide +kernel

end LoxReader
