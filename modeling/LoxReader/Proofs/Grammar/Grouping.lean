import LoxReader.Proofs.Grammar.Locality

/-!
# An expression in parentheses

In parentheses an expression is read as it is read by itself.  An end token and a closing parenthesis
stop a reading alike, and no token around a group is taken for a part of it; so the tree of a group
is the one of its tokens, with the same reports, and neither is read without the other.
-/

namespace LoxReader

open Cursor

/-! ### The reports of the same tokens elsewhere -/

/-- The report with another token, at another position. -/
def Report.map (f : Token → Token) (g : Nat → Nat) (x : Report) : Report :=
  ⟨g x.position, f x.token, x.fault⟩

theorem reports_map (f : Token → Token) (g : Nat → Nat) (xs : List Event) :
    reports (xs.map (Event.map f g)) = (reports xs).map (Report.map f g) := by
  unfold reports
  rw [List.filterMap_map, List.map_filterMap]
  refine congrArg (List.filterMap · xs) (funext fun x => ?_)
  cases x <;> rfl

namespace Goal

variable {goal : Goal} {c d c' d' : Cursor} {e inner : Expr} {xs : List Event} {ts : List Token}
  {l : Level} {rung : Rung}

/-- The same tokens are read to the same tree in front of whatever decides nothing. -/
theorem Reads.inFrontOf (h : Reads goal c e d xs) (hp : c.Passes ts d) (hp' : c'.Passes ts d')
    (hd : d'.kind ∉ steeringKinds) :
    Reads goal c' e d' (xs.map (Event.map id (c.shift c'))) := by
  have again := h.echoes (hp.echoes hp' (.inr hd))
  rwa [Goal.map_id, Expr.map_id] at again

/-! ### A group on the levels -/

theorem Reads.ofOperand (h : Reads (.level rung.firstOperand) c e d xs)
    (hc : c.kind ∉ rung.operators) (hd : d.kind ∉ rung.operators) :
    Reads (.level (.rung rung)) c e d (.entered rung c.position :: xs) := by
  have stop : Reads (.chain rung e) d e d [] := .stop hd
  have all := Reads.operand (fun _ => hc) h stop
  rwa [List.append_nil] at all

/-- Between tokens that decide nothing, what the tightest level comes to is what every level comes
to. -/
theorem Reads.ofPrimary (h : Reads (.level .primary) c e d xs) (hc : c.kind ∉ steeringKinds)
    (hd : d.kind ∉ steeringKinds) (l : Level) :
    ∃ ys, Reads (.level l) c e d ys ∧ reports ys = reports xs := by
  have operator (r : Rung) : c.kind ∉ r.operators ∧ d.kind ∉ r.operators :=
    ⟨fun hk => hc (r.operators_subset_steeringKinds hk),
      fun hk => hd (r.operators_subset_steeringKinds hk)⟩
  have question : d.kind ≠ .question := by
    intro hk
    rw [hk] at hd
    exact hd (by decide)
  have rise {r : Rung} (h : ∃ ys, Reads (.level r.firstOperand) c e d ys ∧ reports ys = reports xs) :
      ∃ ys, Reads (.level (.rung r)) c e d ys ∧ reports ys = reports xs := by
    obtain ⟨ys, h, same⟩ := h
    exact ⟨_, h.ofOperand (operator r).1 (operator r).2, same⟩
  have unary : ∃ ys, Reads (.level .unary) c e d ys ∧ reports ys = reports xs :=
    ⟨xs, .primary (fun hk => hc (unaryOperators_subset_steeringKinds hk)) h, rfl⟩
  have factor := rise (r := .factor) unary
  have term := rise (r := .term) factor
  have comparison := rise (r := .comparison) term
  have equality := rise (r := .equality) comparison
  have ternary : ∃ ys, Reads (.level .ternary) c e d ys ∧ reports ys = reports xs := by
    obtain ⟨ys, h, same⟩ := equality
    exact ⟨ys, .noChoice h question, same⟩
  have comma := rise (r := .comma) ternary
  rcases l with (_ | _ | _ | _ | _) | _ | _ | _
  · exact comma
  · exact equality
  · exact comparison
  · exact term
  · exact factor
  · exact ternary
  · exact unary
  · exact ⟨xs, h, rfl⟩

/-- What a goal has read that comes to a group.  Of a chain it is the operand in front. -/
def Encloses (goal : Goal) (c : Cursor) (inner : Expr) (d : Cursor) (xs : List Event) : Prop :=
  match goal with
  | .level _ => c.kind = .openParen ∧ ∃ m ys, Reads (.level .ternary) c.next inner m ys ∧
      m.kind = .closeParen ∧ d = m.next ∧ reports xs = reports ys
  | .chain _ left => left = .grouping inner ∧ d = c ∧ xs = []

/-- A tree that is a group was read from an open parenthesis on.  No operator was passed, since that
would be the root of the tree. -/
theorem Reads.encloses (h : Reads goal c (.grouping inner) d xs) :
    goal.Encloses c inner d xs := by
  generalize tree : Expr.grouping inner = e at h
  induction h with
  | forgiven _ _ _ _ _ ihChain =>
    obtain ⟨left, -, -⟩ := ihChain tree
    cases left
  | link _ _ _ _ ihChain =>
    obtain ⟨left, -, -⟩ := ihChain tree
    cases left
  | operand _ _ _ ihLeft ihChain =>
    obtain ⟨rfl, rfl, rfl⟩ := ihChain tree
    obtain ⟨opens, m, ys, inside, closes, stop, same⟩ := ihLeft rfl
    exact ⟨opens, m, ys, inside, closes, stop, by simpa using same⟩
  | stop => exact ⟨tree.symm, rfl, rfl⟩
  | choice => cases tree
  | prefixed => cases tree
  | leaf => cases tree
  | noChoice _ _ ih => exact ih tree
  | primary _ _ ih => exact ih tree
  | group opens inside closes =>
    cases tree
    exact ⟨opens, _, _, inside, closes, rfl, rfl⟩

/-- The tokens passed are told by their number. -/
theorem Reads.passes_of_position {us : List Token} (h : Reads goal c e d xs)
    (front : c.rest = ts ++ us) (place : d.position = c.position + ts.length) : c.Passes ts d := by
  obtain ⟨vs, hp⟩ := h.passes
  have length : vs.length = ts.length := by
    have := hp.position
    omega
  have same : vs ++ d.rest = ts ++ us := hp.rest.symm.trans front
  rwa [(List.append_inj same length).1] at hp

/-! ### With and without parentheses -/

/-- The tokens stand in parentheses behind `c`.  The closing one is in front of `d`, and behind it is
a token that decides nothing. -/
structure Bracketed (ts : List Token) (c d : Cursor) : Prop where
  opens : c.kind = .openParen
  inside : c.next.Passes ts d
  closes : d.kind = .closeParen
  behind : d.next.kind ∉ steeringKinds

namespace Bracketed

theorem position_next (b : Bracketed ts c d) : c.next.position = c.position + 1 :=
  Cursor.position_next (b.opens.trans_ne (by simp))

theorem position (b : Bracketed ts c d) : d.next.position = c.position + ts.length + 2 := by
  have before := b.position_next
  have between := b.inside.position
  have behind := Cursor.position_next (b.closes.trans_ne (by simp : Kind.closeParen ≠ .eof))
  omega

/-- An expression that is read is read in parentheses too. -/
theorem grouped (b : Bracketed ts c' d') (h : Reads (.level .ternary) c e d xs)
    (hp : c.Passes ts d) (l : Level) :
    ∃ ys, Reads (.level l) c' (.grouping e) d'.next ys ∧
      reports ys = (reports xs).map (Report.map id (c.shift c'.next)) := by
  have closing : d'.kind ∉ steeringKinds := by
    rw [b.closes]
    decide
  have opening : c'.kind ∉ steeringKinds := by
    rw [b.opens]
    decide
  have group := Reads.group b.opens (h.inFrontOf hp b.inside closing) b.closes
  obtain ⟨ys, reads, same⟩ := group.ofPrimary opening b.behind l
  exact ⟨ys, reads, by rw [same, reports_map]⟩

/-- The tokens in a group that is read are read by themselves.  It is the last of the tokens that
closes the group. -/
theorem ungrouped {m : Cursor} (b : Bracketed ts c' d')
    (h : Reads (.level l) c' (.grouping e) m xs) (place : m.position = d'.next.position)
    (hp : c.Passes ts d) (hd : d.kind ∉ steeringKinds) :
    ∃ ys, Reads (.level .ternary) c e d ys := by
  obtain ⟨opens, m, ys, inside, closes, rfl, -⟩ := h.encloses
  have before := b.position_next
  have whole := b.position
  have behind := Cursor.position_next (closes.trans_ne (by simp : Kind.closeParen ≠ .eof))
  have passes : c'.next.Passes ts m := inside.passes_of_position b.inside.rest (by omega)
  exact ⟨_, inside.inFrontOf passes hp hd⟩

end Bracketed

end Goal

/-- The reply is the tree, and the cursor is at the position. -/
def Reply.ComesTo (r : Reply) (e : Expr) (position : Nat) : Prop :=
  r.tree? = some e ∧ r.cursor.position = position

section Lists

variable {ts : List Token} {opening closing last : Token}

/-- Tokens by themselves, up to the end. -/
theorem Cursor.exists_start (running : ∀ t ∈ ts, t.kind ≠ .eof) (ends : last.kind = .eof) :
    ∃ c d, ofTokens? (ts ++ [last]) = some c ∧ c.position = 0 ∧ c.Passes ts d ∧ d.kind = .eof := by
  obtain ⟨c, start⟩ : ∃ c, ofTokens? (ts ++ [last]) = some c :=
    exists_ofTokens? List.getLast?_concat ends
  obtain ⟨origin, front⟩ := start_of_ofTokens? start
  obtain ⟨d, passes, behind⟩ := passes_of_rest front running
  exact ⟨c, d, start, origin, passes, (kind_of_rest behind).trans ends⟩

/-- Tokens in parentheses, up to the end. -/
theorem Cursor.exists_bracketed (running : ∀ t ∈ ts, t.kind ≠ .eof)
    (opens : opening.kind = .openParen) (closes : closing.kind = .closeParen) (ends : last.kind = .eof) :
    ∃ c d, ofTokens? (opening :: ts ++ [closing, last]) = some c ∧ c.position = 0 ∧
      Goal.Bracketed ts c d := by
  obtain ⟨c, start⟩ : ∃ c, ofTokens? (opening :: ts ++ [closing, last]) = some c :=
    exists_ofTokens? (by rw [List.getLast?_append]; rfl) ends
  obtain ⟨origin, front⟩ := start_of_ofTokens? start
  have inside : c.next.rest = ts ++ [closing, last] := by
    rw [next_of_rest front (opens.trans_ne (by simp))]
    rfl
  obtain ⟨d, passes, rest⟩ := passes_of_rest inside running
  have behind : d.next.kind = .eof := by
    rw [next_of_rest rest (closes.trans_ne (by simp))]
    exact ends
  refine ⟨c, d, start, origin, (kind_of_rest front).trans opens, passes, ?_, ?_⟩
  · exact (kind_of_rest rest).trans closes
  · rw [behind]
    decide

end Lists

/-- **An expression is read in parentheses as it is read by itself**, to the end in both cases, and
with the same reports of the same tokens. -/
theorem Cursor.readAll_grouping_iff {ts : List Token} {opening closing last last' : Token}
    (running : ∀ t ∈ ts, t.kind ≠ .eof) (opens : opening.kind = .openParen)
    (closes : closing.kind = .closeParen) (ends : last.kind = .eof) (ends' : last'.kind = .eof) :
    ∃ c c', ofTokens? (ts ++ [last]) = some c ∧
      ofTokens? (opening :: ts ++ [closing, last']) = some c' ∧
      ∀ e, ((c.read .ternary).ComesTo e ts.length ↔
          c'.readAll.ComesTo (.grouping e) (ts.length + 2)) ∧
        ((c.read .ternary).ComesTo e ts.length → reports c'.readAll.events =
          (reports (c.read .ternary).events).map (Report.map id (· + 1))) := by
  obtain ⟨c, d, start, origin, passes, atEnd⟩ := exists_start running ends
  obtain ⟨c', d', start', origin', bracketed⟩ := exists_bracketed running opens closes ends'
  have alone : d.position = ts.length := by rw [passes.position, origin, Nat.zero_add]
  have around : d'.next.position = ts.length + 2 := by
    rw [bracketed.position, origin', Nat.zero_add]
  have shift : c.shift c'.next = (· + 1) := by
    funext i
    rw [Cursor.shift, bracketed.position_next, origin, origin', Nat.sub_zero, Nat.add_comm]
  refine ⟨c, c', start, start', fun e => ?_⟩
  have both (h : (c.read .ternary).ComesTo e ts.length) :
      c'.readAll.ComesTo (.grouping e) (ts.length + 2) ∧ reports c'.readAll.events =
        (reports (c.read .ternary).events).map (Report.map id (· + 1)) := by
    obtain ⟨tree, place⟩ := h
    have reads := Goal.reads_of_tree?_eq_some tree
    have passes := reads.passes_of_position passes.rest (by rw [place, origin, Nat.zero_add])
    obtain ⟨ys, whole, same⟩ := bracketed.grouped reads passes .comma
    rw [readAll_of_reads whole]
    exact ⟨⟨rfl, around⟩, by rw [same, shift]⟩
  refine ⟨⟨fun h => (both h).1, ?_⟩, fun h => (both h).2⟩
  rintro ⟨tree, place⟩
  obtain ⟨m, ys, whole⟩ := exists_reads_of_readAll tree
  rw [readAll_of_reads whole] at place
  obtain ⟨xs, reads⟩ :=
    bracketed.ungrouped whole (place.trans around.symm) passes (by rw [atEnd]; decide)
  have reply : c.read .ternary = ⟨some e, d, xs⟩ := reads.run_eq
  rw [reply]
  exact ⟨rfl, alone⟩

section Sample

open Token

/-- `* nil ? - true false`, where operands and a colon were left out. -/
theorem Cursor.readAll_grouping_iff_of_forgiven :
    let ts := [loose .star "*", loose .kwNil "nil", loose .question "?", loose .minus "-",
      loose .kwTrue "true", loose .kwFalse "false"]
    let e := Expr.ternary (.missingLeft (loose .star "*") (.literal .nil)) (loose .question "?")
      (.missingLeft (loose .minus "-") (.literal (.boolean true))) (loose .kwTrue "true")
      (.literal (.boolean false))
    let c : Cursor := ⟨0, loose .star "*", ts ++ [loose .eof ""]⟩
    let c' : Cursor := ⟨0, loose .openParen "(",
      loose .openParen "(" :: ts ++ [loose .closeParen ")", loose .eof ""]⟩
    (c.read .ternary).ComesTo e 6 ∧ c'.readAll.ComesTo (.grouping e) 8 ∧
      reports c'.readAll.events =
        [⟨1, loose .star "*", .missingOperand⟩, ⟨4, loose .minus "-", .missingOperand⟩] := by
  intro ts e c c'
  obtain ⟨a, b, start, start', same⟩ := @Cursor.readAll_grouping_iff ts (loose .openParen "(")
    (loose .closeParen ")") (loose .eof "") (loose .eof "") (by decide) rfl rfl rfl rfl
  obtain rfl : c = a := Option.some.inj start
  obtain rfl : c' = b := Option.some.inj start'
  have alone : (c.read .ternary).ComesTo e 6 := by
    constructor <;> decide +kernel
  refine ⟨alone, (same e).1.1 alone, ?_⟩
  rw [(same e).2 alone]
  decide +kernel

end Sample

end LoxReader
