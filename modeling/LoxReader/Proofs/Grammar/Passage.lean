import LoxReader.Grammar.Reading
import Mathlib.Logic.Basic

/-!
# Cursors of a list of tokens

A cursor of a list stands in it somewhere not behind its first end token.  `Passes` says which
tokens lie between two cursors; a cursor of a list that moves on over tokens stays one.
-/

namespace LoxReader

/-- A token that was never in a file. -/
def Token.loose (kind : Kind) (lexeme : String) : Token := ⟨kind, lexeme, none, 1, .nowhere⟩

theorem Kind.ne_eof_of_mem_operators {rung : Rung} {k : Kind} (h : k ∈ rung.operators) :
    k ≠ .eof := by
  rintro rfl
  cases rung <;> simp [Rung.operators] at h

theorem Kind.ne_eof_of_mem_unaryOperators {k : Kind} (h : k ∈ unaryOperators) : k ≠ .eof := by
  rintro rfl
  simp [unaryOperators] at h

namespace Cursor

variable {c d e : Cursor} {t : Token} {ts us tokens : List Token} {kinds : List Kind}

/-! ### What is in front of a cursor -/

theorem kind_of_rest (h : c.rest = t :: ts) : c.kind = t.kind := by
  unfold kind
  rw [h]

theorem kind_congr (h : c.rest = d.rest) : c.kind = d.kind := by
  unfold kind
  rw [h]

theorem token_of_rest (h : c.rest = t :: ts) : c.token = t := by
  unfold token
  rw [h, List.headD_cons]

theorem next_of_rest (h : c.rest = t :: ts) (ht : t.kind ≠ .eof) :
    c.next = ⟨c.position + 1, t, ts⟩ := by
  unfold next
  simp only [h, if_neg ht]

/-- What is in front of a cursor that is not at the end. -/
theorem rest_of_kind_ne (h : c.kind ≠ .eof) :
    ∃ t ts, c.rest = t :: ts ∧ t.kind ≠ .eof ∧ c.token = t ∧ c.next = ⟨c.position + 1, t, ts⟩ := by
  unfold kind at h
  split at h
  · exact absurd rfl h
  · rename_i t ts hr
    exact ⟨t, ts, hr, h, token_of_rest hr, next_of_rest hr h⟩

theorem kind_token (h : c.kind ≠ .eof) : c.token.kind = c.kind := by
  obtain ⟨t, ts, hr, -, ht, -⟩ := rest_of_kind_ne h
  rw [ht, kind_of_rest hr]

theorem passed_next (h : c.kind ≠ .eof) : c.next.passed = c.token := by
  obtain ⟨t, ts, -, -, ht, hn⟩ := rest_of_kind_ne h
  rw [hn, ht]

theorem position_next (h : c.kind ≠ .eof) : c.next.position = c.position + 1 := by
  obtain ⟨t, ts, -, -, -, hn⟩ := rest_of_kind_ne h
  rw [hn]

theorem next_of_kind_eq (h : c.kind = .eof) : c.next = c := by
  unfold next
  split
  · rfl
  · rename_i t ts hr
    rw [kind_of_rest hr] at h
    rw [if_pos h]

theorem position_le_next (c : Cursor) : c.position ≤ c.next.position := by
  by_cases h : c.kind = .eof
  · exact Nat.le_of_eq (congrArg position (next_of_kind_eq h).symm)
  · rw [position_next h]
    omega

theorem remaining_next_lt_of_kind_ne (h : c.kind ≠ .eof) : c.next.remaining < c.remaining :=
  remaining_next_lt (by simpa [atEnd] using h)

theorem sees_iff {kind : Kind} (h : kind ≠ .eof) : c.sees kind ↔ c.kind = kind := by
  simp only [sees, atEnd, Bool.and_eq_true, Bool.not_eq_true', decide_eq_false_iff_not,
    decide_eq_true_eq]
  constructor
  · intro hc
    exact hc.2
  · rintro rfl
    exact ⟨h, rfl⟩

theorem seesAny_iff (h : .eof ∉ kinds) : c.seesAny kinds ↔ c.kind ∈ kinds := by
  have key : ∀ k ∈ kinds, (c.sees k ↔ c.kind = k) := by
    intro k hk
    apply sees_iff
    rintro rfl
    exact h hk
  unfold seesAny
  rw [List.any_eq_true]
  constructor
  · rintro ⟨k, hk, hs⟩
    exact (key k hk).1 hs ▸ hk
  · intro hk
    exact ⟨c.kind, hk, (key c.kind hk).2 rfl⟩

theorem seesAny_operators {rung : Rung} : c.seesAny rung.operators ↔ c.kind ∈ rung.operators := by
  apply seesAny_iff
  intro h
  exact Kind.ne_eof_of_mem_operators h rfl

theorem seesAny_unaryOperators : c.seesAny unaryOperators ↔ c.kind ∈ unaryOperators := by
  apply seesAny_iff
  intro h
  exact Kind.ne_eof_of_mem_unaryOperators h rfl

theorem skipColon_of_kind_eq (h : c.kind = .colon) : c.skipColon = c.next := by
  unfold skipColon
  rw [if_pos ((sees_iff (by simp)).2 h)]

theorem skipColon_of_kind_ne (h : c.kind ≠ .colon) : c.skipColon = c := by
  unfold skipColon
  rw [if_neg]
  intro hs
  exact h ((sees_iff (by simp)).1 hs)

theorem position_le_skipColon (c : Cursor) : c.position ≤ c.skipColon.position := by
  unfold skipColon
  split
  · exact c.position_le_next
  · exact Nat.le_refl _

/-! ### Passing tokens -/

/-- From `c` to `d` the tokens `ts` are passed, and none of them is an end token. -/
structure Passes (c : Cursor) (ts : List Token) (d : Cursor) : Prop where
  rest : c.rest = ts ++ d.rest
  position : d.position = c.position + ts.length
  passed : d.passed = ts.getLast?.getD c.passed
  running : ∀ t ∈ ts, t.kind ≠ .eof

theorem Passes.refl (c : Cursor) : c.Passes [] c := ⟨rfl, rfl, rfl, by simp⟩

theorem Passes.trans (h : c.Passes ts d) (h' : d.Passes us e) : c.Passes (ts ++ us) e := by
  constructor
  · rw [h.rest, h'.rest, List.append_assoc]
  · rw [h'.position, h.position, List.length_append, Nat.add_assoc]
  · rw [h'.passed, h.passed, List.getLast?_append]
    cases us.getLast? <;> rfl
  · intro t ht
    rcases List.mem_append.1 ht with ht | ht
    · exact h.running t ht
    · exact h'.running t ht

theorem passes_next (h : c.kind ≠ .eof) : c.Passes [c.token] c.next := by
  obtain ⟨t, ts, hr, hne, ht, hn⟩ := rest_of_kind_ne h
  rw [ht, hn]
  exact ⟨hr, rfl, rfl, by simpa using hne⟩

theorem Passes.next (h : c.kind ≠ .eof) (h' : c.next.Passes ts d) : c.Passes (c.token :: ts) d :=
  (passes_next h).trans h'

theorem Passes.eq_of_nil (h : c.Passes [] d) : d = c := by
  cases c
  cases d
  have hr := h.rest
  have hp := h.position
  have ha := h.passed
  simp only [List.nil_append, List.length_nil, Nat.add_zero, List.getLast?_nil,
    Option.getD_none] at *
  rw [hr, hp, ha]

/-- The first token passed is in front of the cursor. -/
theorem Passes.uncons (h : c.Passes (t :: ts) d) :
    c.kind = t.kind ∧ c.kind ≠ .eof ∧ c.token = t ∧ c.next.Passes ts d := by
  have hr : c.rest = t :: (ts ++ d.rest) := h.rest
  have ht : t.kind ≠ .eof := h.running t List.mem_cons_self
  refine ⟨kind_of_rest hr, kind_of_rest hr ▸ ht, token_of_rest hr, ?_⟩
  rw [next_of_rest hr ht]
  refine ⟨rfl, ?_, ?_, fun u hu => h.running u (List.mem_cons_of_mem _ hu)⟩
  · show d.position = c.position + 1 + ts.length
    rw [h.position, List.length_cons]
    omega
  · rw [h.passed, List.getLast?_cons]
    rfl

theorem Passes.unappend (h : c.Passes (ts ++ us) e) : ∃ d, c.Passes ts d ∧ d.Passes us e := by
  induction ts generalizing c with
  | nil => exact ⟨c, .refl c, h⟩
  | cons t ts ih =>
    obtain ⟨-, hne, ht, hn⟩ := h.uncons
    obtain ⟨d, hd, he⟩ := ih hn
    exact ⟨d, ht ▸ hd.next hne, he⟩

theorem Passes.passed_eq {c' d' : Cursor} (h : c.Passes ts d) (h' : c'.Passes us d')
    (hl : us.getLast? = ts.getLast?) (ht : ts ≠ []) : d'.passed = d.passed := by
  rw [h.passed, h'.passed, hl, List.getLast?_eq_some_getLast ht]
  rfl

/-- A cursor passes what is in front of it. -/
theorem passes_of_rest (h : c.rest = ts ++ us) (ht : ∀ t ∈ ts, t.kind ≠ .eof) :
    ∃ d, c.Passes ts d ∧ d.rest = us :=
  ⟨⟨c.position + ts.length, ts.getLast?.getD c.passed, us⟩, ⟨h, rfl, rfl, ht⟩, rfl⟩

/-- The tokens passed are the ones between the two positions. -/
theorem Passes.eq_take (h : c.Passes ts d) : ts = c.rest.take (d.position - c.position) := by
  rw [h.rest, h.position, Nat.add_sub_cancel_left, List.take_left' rfl]

/-! ### Cursors of a list -/

/-- A cursor of a list that ends with an end token.  No end token is behind the cursor. -/
structure In (c : Cursor) (tokens : List Token) : Prop where
  last : ∃ t, tokens.getLast? = some t ∧ t.kind = .eof
  rest : c.rest = tokens.drop c.position
  passed : tokens[c.position - 1]? = some c.passed
  running : ∀ t ∈ tokens.take c.position, t.kind ≠ .eof

/-- The start of a list is a cursor of it. -/
theorem in_of_ofTokens? (h : ofTokens? tokens = some c) : c.In tokens := by
  unfold ofTokens? at h
  split at h
  · rename_i first last hf hl
    split at h
    · rename_i he
      cases h
      exact ⟨⟨last, hl, he⟩, rfl, List.head?_eq_getElem? ▸ hf, by simp⟩
    · cases h
  · cases h

theorem start_of_ofTokens? (h : ofTokens? tokens = some c) : c.position = 0 ∧ c.rest = tokens := by
  unfold ofTokens? at h
  split at h
  · split at h
    · cases h
      exact ⟨rfl, rfl⟩
    · cases h
  · cases h

theorem exists_ofTokens? (h : tokens.getLast? = some t) (ht : t.kind = .eof) :
    ∃ c, ofTokens? tokens = some c := by
  cases tokens with
  | nil => cases h
  | cons first ts =>
    unfold ofTokens?
    rw [h, List.head?_cons]
    exact ⟨_, if_pos ht⟩

theorem In.position_lt (h : c.In tokens) : c.position < tokens.length := by
  obtain ⟨t, hl, he⟩ := h.last
  rcases Nat.lt_or_ge c.position tokens.length with hlt | hge
  · exact hlt
  · -- an end token would be behind the cursor
    have ht : t ∈ tokens.take c.position := by
      rw [List.take_of_length_le hge]
      exact List.mem_of_getLast? hl
    exact absurd he (h.running t ht)

theorem In.exists_rest (h : c.In tokens) :
    ∃ t ts, c.rest = t :: ts ∧ tokens[c.position]? = some t := by
  have hlt := h.position_lt
  refine ⟨tokens[c.position], tokens.drop (c.position + 1), ?_, List.getElem?_eq_getElem hlt⟩
  rw [h.rest, List.drop_eq_getElem_cons hlt]

/-- The token in front of a cursor stands at its position. -/
theorem In.getElem?_position (h : c.In tokens) : tokens[c.position]? = some c.token := by
  obtain ⟨t, ts, hr, ht⟩ := h.exists_rest
  rw [token_of_rest hr, ht]

theorem In.kind_token (h : c.In tokens) : c.token.kind = c.kind := by
  obtain ⟨t, ts, hr, -⟩ := h.exists_rest
  rw [kind_of_rest hr, token_of_rest hr]

theorem In.mem_of_passes {t : Token} (h : c.In tokens) (hp : c.Passes ts d) (mem : t ∈ ts) :
    t ∈ tokens := by
  have front : t ∈ c.rest := by
    rw [hp.rest]
    exact List.mem_append_left _ mem
  rw [h.rest] at front
  exact List.mem_of_mem_drop front

theorem In.passes (h : c.In tokens) (hp : c.Passes ts d) : d.In tokens := by
  have hdrop : tokens.drop c.position = ts ++ d.rest := by rw [← h.rest, hp.rest]
  refine ⟨h.last, ?_, ?_, ?_⟩
  · show d.rest = tokens.drop d.position
    rw [hp.position, ← List.drop_drop, hdrop, List.drop_left' rfl]
  · rcases List.eq_nil_or_concat ts with rfl | ⟨us, t, rfl⟩
    · rw [hp.position, hp.passed]
      exact h.passed
    · have hi : d.position - 1 = c.position + us.length := by
        rw [hp.position]
        simp
      rw [hi, ← List.getElem?_drop, hdrop, hp.passed]
      simp
  · intro t ht
    rw [hp.position, List.take_add, hdrop, List.take_left' rfl] at ht
    rcases List.mem_append.1 ht with ht | ht
    · exact h.running t ht
    · exact hp.running t ht

theorem In.next (h : c.In tokens) : c.next.In tokens := by
  by_cases hk : c.kind = .eof
  · rwa [next_of_kind_eq hk]
  · exact h.passes (passes_next hk)

theorem In.skipColon (h : c.In tokens) : c.skipColon.In tokens := by
  unfold Cursor.skipColon
  split
  · exact h.next
  · exact h

end Cursor
end LoxReader
