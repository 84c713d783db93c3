import LoxReader.Proofs.Grammar.Reports

/-!
# Pending goals

A goal that comes to nothing has gone on with another one that comes to nothing, and so on down to
a token that cannot be read.  `Goal.Awaits` is one step on this way and `Goal.FailsAt` the whole
way.  The goals that are passed on it are the ones still open when the fault is met.
-/

namespace LoxReader

/-- A token that is an operand by itself. -/
def Token.filler : Token := loose .kwNil "nil"

/-- A token that closes a group. -/
def Token.closer : Token := loose .closeParen ")"

namespace Goal

open Cursor

/-- The goal at `c` goes on with another goal at `d`, after these events.  Once the other goal has
come to a tree, the goal itself is finished by the tokens that are due. -/
inductive Awaits : Goal → Cursor → Goal → Cursor → List Event → List Token → Prop
  | forgiven {rung c} (forgives : rung.forgives) (operator : c.kind ∈ rung.operators) :
      Awaits (.level (.rung rung)) c (.level rung.laterOperand) c.next
        [.entered rung c.position, .reported c.position c.token .missingOperand] []
  | forgivenChain {rung c right d xs} (forgives : rung.forgives)
      (operator : c.kind ∈ rung.operators) :
      Reads (.level rung.laterOperand) c.next right d xs →
      Awaits (.level (.rung rung)) c (.chain rung (.missingLeft c.token right)) d
        (.entered rung c.position :: .reported c.position c.token .missingOperand :: xs) []
  | operand {rung c} (operand : rung.forgives → c.kind ∉ rung.operators) :
      Awaits (.level (.rung rung)) c (.level rung.firstOperand) c [.entered rung c.position] []
  | operandChain {rung c left d xs} (operand : rung.forgives → c.kind ∉ rung.operators) :
      Reads (.level rung.firstOperand) c left d xs →
      Awaits (.level (.rung rung)) c (.chain rung left) d (.entered rung c.position :: xs) []
  | link {rung left c} (operator : c.kind ∈ rung.operators) :
      Awaits (.chain rung left) c (.level rung.laterOperand) c.next [] []
  | linkChain {rung left c right d xs} (operator : c.kind ∈ rung.operators) :
      Reads (.level rung.laterOperand) c.next right d xs →
      Awaits (.chain rung left) c (.chain rung (.binary left c.token right)) d xs []
  | condition {c} : Awaits (.level .ternary) c (.level .equality) c [] []
  /-- The other branch is due, with no colon. -/
  | onTrue {c condition d xs} : Reads (.level .equality) c condition d xs → d.kind = .question →
      Awaits (.level .ternary) c (.level .ternary) d.next xs [.filler]
  | onFalse {c condition d onTrue e xs ys} : Reads (.level .equality) c condition d xs →
      d.kind = .question → Reads (.level .ternary) d.next onTrue e ys →
      Awaits (.level .ternary) c (.level .ternary) e.skipColon (xs ++ ys) []
  | prefixed {c} (operator : c.kind ∈ unaryOperators) :
      Awaits (.level .unary) c (.level .unary) c.next [] []
  | primary {c} (other : c.kind ∉ unaryOperators) :
      Awaits (.level .unary) c (.level .primary) c [] []
  | group {c} (opens : c.kind = .openParen) :
      Awaits (.level .primary) c (.level .ternary) c.next [] [.closer]

/-- The goal at `c` comes to nothing at the token in front of `m`, with the cursor at `d`. -/
inductive Breaks : Goal → Cursor → Cursor → Cursor → List Event → Prop
  /-- The token without a value is passed before it is reported. -/
  | worthless {c} (worthless : c.token.Worthless) (running : c.kind ≠ .eof) :
      Breaks (.level .primary) c c c.next [.reported c.next.position c.token .noExpression]
  | unclosed {c inner d xs} (opens : c.kind = .openParen) :
      Reads (.level .ternary) c.next inner d xs → d.kind ≠ .closeParen →
      Breaks (.level .primary) c d d (xs ++ [.reported d.position d.token .openGroup])
  | stray {c} (other : c.kind ∉ primaryKinds) :
      Breaks (.level .primary) c c c [.reported c.position c.token .noExpression]

/-- From goal to goal, the goal at `c` comes to nothing at the token in front of `m`. -/
inductive FailsAt : Goal → Cursor → Cursor → Cursor → List Event → Prop
  | breaks {goal c m d xs} : Breaks goal c m d xs → FailsAt goal c m d xs
  | awaits {goal c goal' c' m d xs ys due} : Awaits goal c goal' c' xs due →
      FailsAt goal' c' m d ys → FailsAt goal c m d (xs ++ ys)

variable {goal goal' : Goal} {c c' m d : Cursor} {xs ys : List Event} {due ts : List Token}

/-! ### The two forms of a failure -/

theorem Awaits.fails (h : Awaits goal c goal' c' xs due) (hf : Fails goal' c' d ys) :
    Fails goal c d (xs ++ ys) := by
  cases h with
  | forgiven hr ho => exact .forgiven hr ho hf
  | forgivenChain hr ho hright => exact .forgivenChain hr ho hright hf
  | operand ho => exact .operand ho hf
  | operandChain ho hleft => exact .operandChain ho hleft hf
  | link ho => exact .link ho hf
  | linkChain ho hright => exact .linkChain ho hright hf
  | condition => exact .condition hf
  | onTrue hc hq => exact .onTrue hc hq hf
  | onFalse hc hq ht =>
    rw [List.append_assoc]
    exact .onFalse hc hq ht hf
  | prefixed ho => exact .prefixed ho hf
  | primary ho => exact .primary ho hf
  | group ho => exact .group ho hf

theorem FailsAt.fails (h : FailsAt goal c m d xs) : Fails goal c d xs := by
  induction h with
  | breaks h =>
    cases h with
    | worthless hw hne => exact .worthless hw hne
    | unclosed ho hi hd => exact .unclosed ho hi hd
    | stray ho => exact .stray ho
  | awaits h _ ih => exact h.fails ih

theorem Awaits.exists_failsAt (h : Awaits goal c goal' c' xs due)
    (hf : ∃ m, FailsAt goal' c' m d ys) : ∃ m, FailsAt goal c m d (xs ++ ys) := by
  obtain ⟨m, hm⟩ := hf
  exact ⟨m, .awaits h hm⟩

/-- Every failure is met at some token. -/
theorem Fails.exists_failsAt (h : Fails goal c d xs) : ∃ m, FailsAt goal c m d xs := by
  induction h with
  | forgiven hf ho _ ih => exact Awaits.exists_failsAt (.forgiven hf ho) ih
  | forgivenChain hf ho hr _ ih => exact Awaits.exists_failsAt (.forgivenChain hf ho hr) ih
  | operand ho _ ih => exact Awaits.exists_failsAt (.operand ho) ih
  | operandChain ho hl _ ih => exact Awaits.exists_failsAt (.operandChain ho hl) ih
  | link ho _ ih => exact Awaits.exists_failsAt (.link ho) ih
  | linkChain ho hr _ ih => exact Awaits.exists_failsAt (.linkChain ho hr) ih
  | condition _ ih => exact Awaits.exists_failsAt .condition ih
  | onTrue hc hq _ ih => exact Awaits.exists_failsAt (.onTrue hc hq) ih
  | onFalse hc hq ht _ ih =>
    rw [← List.append_assoc]
    exact Awaits.exists_failsAt (.onFalse hc hq ht) ih
  | prefixed ho _ ih => exact Awaits.exists_failsAt (.prefixed ho) ih
  | primary ho _ ih => exact Awaits.exists_failsAt (.primary ho) ih
  | worthless hw hne => exact ⟨_, .breaks (.worthless hw hne)⟩
  | group ho _ ih => exact Awaits.exists_failsAt (.group ho) ih
  | unclosed ho hi hd => exact ⟨_, .breaks (.unclosed ho hi hd)⟩
  | stray ho => exact ⟨_, .breaks (.stray ho)⟩

/-! ### The events on the way -/

theorem Awaits.harmless (h : Awaits goal c goal' c' xs due) : ∀ x ∈ xs, x.Harmless := by
  cases h with
  | forgiven => simp [Event.Harmless]
  | operand => simp [Event.Harmless]
  | link | condition | prefixed | primary | group => exact List.forall_mem_nil _
  | forgivenChain _ _ reads =>
    rw [List.forall_mem_cons, List.forall_mem_cons]
    exact ⟨trivial, rfl, reads.harmless⟩
  | operandChain _ reads => exact List.forall_mem_cons.2 ⟨trivial, reads.harmless⟩
  | linkChain _ reads | onTrue reads => exact reads.harmless
  | onFalse condition _ onTrue =>
    exact List.forall_mem_append.2 ⟨condition.harmless, onTrue.harmless⟩

/-- The last event of a failure reports the token it is met at, with the cursor where it stays. -/
theorem FailsAt.exists_last (h : FailsAt goal c m d xs) :
    ∃ ys fault, xs = ys ++ [.reported d.position m.token fault] ∧ (∀ x ∈ ys, x.Harmless) ∧
      (fault = .openGroup ∨ fault = .noExpression ∧ (m.token.Worthless ∨ m.kind ∉ primaryKinds)) := by
  induction h with
  | breaks h =>
    cases h with
    | worthless worthless => exact ⟨[], _, rfl, List.forall_mem_nil _, .inr ⟨rfl, .inl worthless⟩⟩
    | unclosed _ inner => exact ⟨_, _, rfl, inner.harmless, .inl rfl⟩
    | stray other => exact ⟨[], _, rfl, List.forall_mem_nil _, .inr ⟨rfl, .inr other⟩⟩
  | awaits h _ ih =>
    obtain ⟨ys, fault, rfl, harmless, ended⟩ := ih
    refine ⟨_, fault, (List.append_assoc _ _ _).symm, ?_, ended⟩
    exact List.forall_mem_append.2 ⟨h.harmless, harmless⟩

/-! ### The tokens on the way -/

theorem Reads.passes {e : Expr} (h : Reads goal c e d xs) : ∃ ts, c.Passes ts d := by
  obtain ⟨ts, hp, -⟩ := h.makes
  exact ⟨ts, hp⟩

theorem exists_passes_next (hc : c.kind ≠ .eof) (h : ∃ ts, c.next.Passes ts d) :
    ∃ ts, c.Passes ts d := by
  obtain ⟨ts, hp⟩ := h
  exact ⟨_, hp.next hc⟩

theorem exists_passes_trans (h : ∃ ts, c.Passes ts m) (h' : ∃ ts, m.Passes ts d) :
    ∃ ts, c.Passes ts d := by
  obtain ⟨ts, hp⟩ := h
  obtain ⟨us, hq⟩ := h'
  exact ⟨_, hp.trans hq⟩

theorem exists_passes_skipColon (c : Cursor) : ∃ ts, c.Passes ts c.skipColon := by
  by_cases hk : c.kind = .colon
  · rw [skipColon_of_kind_eq hk]
    exact ⟨_, passes_next (hk.trans_ne (by simp))⟩
  · rw [skipColon_of_kind_ne hk]
    exact ⟨[], .refl c⟩

theorem Awaits.passes (h : Awaits goal c goal' c' xs due) : ∃ ts, c.Passes ts c' := by
  have refl (c : Cursor) : ∃ ts, c.Passes ts c := ⟨[], .refl c⟩
  cases h with
  | forgiven _ ho | link ho => exact exists_passes_next (Kind.ne_eof_of_mem_operators ho) (refl _)
  | forgivenChain _ ho hr | linkChain ho hr =>
    exact exists_passes_next (Kind.ne_eof_of_mem_operators ho) hr.passes
  | operand | condition | primary => exact refl _
  | operandChain _ hl => exact hl.passes
  | onTrue hc hq =>
    exact exists_passes_trans hc.passes (exists_passes_next (hq.trans_ne (by simp)) (refl _))
  | onFalse hc hq ht =>
    refine exists_passes_trans hc.passes (exists_passes_next (hq.trans_ne (by simp)) ?_)
    exact exists_passes_trans ht.passes (exists_passes_skipColon _)
  | prefixed ho => exact exists_passes_next (Kind.ne_eof_of_mem_unaryOperators ho) (refl _)
  | group ho => exact exists_passes_next (ho.trans_ne (by simp)) (refl _)

theorem FailsAt.passes (h : FailsAt goal c m d xs) : ∃ ts, c.Passes ts m := by
  induction h with
  | breaks h =>
    cases h with
    | worthless | stray => exact ⟨[], .refl _⟩
    | unclosed ho hi _ => exact exists_passes_next (ho.trans_ne (by simp)) hi.passes
  | awaits h _ ih => exact exists_passes_trans h.passes ih

/-- The cursor of a failure is in front of the faulty token or behind it. -/
theorem FailsAt.cursor_cases (h : FailsAt goal c m d xs) : d = m ∨ d = m.next ∧ m.kind ≠ .eof := by
  induction h with
  | breaks h =>
    cases h with
    | worthless _ hne => exact .inr ⟨rfl, hne⟩
    | unclosed | stray => exact .inl rfl
  | awaits _ _ ih => exact ih

theorem Fails.passes (h : Fails goal c d xs) : ∃ ts, c.Passes ts d := by
  obtain ⟨m, hm⟩ := h.exists_failsAt
  obtain rfl | ⟨rfl, hne⟩ := hm.cursor_cases
  · exact hm.passes
  · exact exists_passes_trans hm.passes ⟨_, passes_next hne⟩

/-- Reading moves on over tokens, whatever it comes to. -/
theorem exists_passes_run (goal : Goal) (c : Cursor) : ∃ ts, c.Passes ts (goal.run c).cursor := by
  rcases goal.ends c with ⟨e, d, xs, h⟩ | ⟨d, xs, h⟩
  · rw [h.run_eq]
    exact h.passes
  · rw [h.run_eq]
    exact h.passes

end Goal
end LoxReader
