import LoxReader.Proofs.Grammar.Follow
import LoxReader.Proofs.Grammar.Yield

/-!
# The ladder of levels in a tree

`Expr.Stands` is the grammar of the levels on trees.  A tree is clean if it stands on the ladder
with all its operands, and no minus in it would be taken for an operator without its left operand.
-/

namespace LoxReader

/-- The level of a left operand.  A factor takes no factor there, so its chains lean right. -/
def Rung.leftOperand : Rung → Level
  | factor => .unary
  | r => .rung r

theorem Rung.rank_le_rank_leftOperand (r : Rung) : (Level.rung r).rank ≤ r.leftOperand.rank := by
  cases r <;> decide

theorem Rung.rank_le_rank_laterOperand (r : Rung) : (Level.rung r).rank ≤ r.laterOperand.rank := by
  cases r <;> decide

/-- Only the commas are looser than a choice. -/
theorem Rung.rank_ternary_le {r : Rung} (h : r ≠ .comma) :
    Level.ternary.rank ≤ (Level.rung r).rank := by
  cases r <;> first | exact absurd rfl h | decide

/-- The tree is of the level or of a tighter one, and so are the trees below it for their places. -/
inductive Expr.Stands : Level → Expr → Prop
  | literal {value} : Stands .primary (.literal value)
  | grouping {inner} : Stands .ternary inner → Stands .primary (.grouping inner)
  | unary {operator right} (own : operator.kind ∈ unaryOperators) : Stands .unary right →
      Stands .unary (.unary operator right)
  | binary {rung left operator right} (own : operator.kind ∈ rung.operators) :
      Stands rung.leftOperand left → Stands rung.laterOperand right →
      Stands (.rung rung) (.binary left operator right)
  | missingLeft {rung operator right} (forgives : rung.forgives)
      (own : operator.kind ∈ rung.operators) : Stands rung.laterOperand right →
      Stands (.rung rung) (.missingLeft operator right)
  | ternary {condition question onTrue colon onFalse} (asks : question.kind = .question) :
      Stands .equality condition → Stands .ternary onTrue → Stands .ternary onFalse →
      Stands .ternary (.ternary condition question onTrue colon onFalse)
  | ofPrimary {e} : Stands .primary e → Stands .unary e
  | ofOperand {rung e} : Stands rung.firstOperand e → Stands (.rung rung) e
  | ofEquality {e} : Stands .equality e → Stands .ternary e

namespace Expr

/-- A tree of the tightest level stands on every level. -/
theorem Stands.of_primary {e : Expr} (h : e.Stands .primary) (l : Level) : e.Stands l := by
  have unary : e.Stands .unary := .ofPrimary h
  have factor : e.Stands .factor := .ofOperand unary
  have term : e.Stands .term := .ofOperand factor
  have comparison : e.Stands .comparison := .ofOperand term
  have equality : e.Stands .equality := .ofOperand comparison
  have ternary : e.Stands .ternary := .ofEquality equality
  have comma : e.Stands .comma := .ofOperand ternary
  rcases l with (_ | _ | _ | _ | _) | _ | _ | _ <;> assumption

/-- The first token of the tree is a minus. -/
def beginsWithMinus : Expr → Bool
  | literal _ | grouping _ => false
  | unary operator _ | missingLeft operator _ => operator.kind = .minus
  | binary left _ _ => left.beginsWithMinus
  | ternary condition _ _ _ _ => condition.beginsWithMinus

/-- The operators that have a tree of a level not tighter than a term on their right. -/
def guardingKinds : List Kind :=
  Rung.comma.operators ++ Rung.equality.operators ++ Rung.comparison.operators

/-- Below the root no minus begins a tree where a term may begin: under a comma, to the right of an
equality or a comparison, in a choice and in a group. -/
def Guarded : Expr → Prop
  | literal _ => True
  | grouping inner => inner.beginsWithMinus = false ∧ inner.Guarded
  | unary _ right => right.Guarded
  | binary left operator right =>
    (operator.kind ∈ Rung.comma.operators → left.beginsWithMinus = false) ∧
      (operator.kind ∈ guardingKinds → right.beginsWithMinus = false) ∧ left.Guarded ∧ right.Guarded
  | missingLeft operator right =>
    (operator.kind ∈ guardingKinds → right.beginsWithMinus = false) ∧ right.Guarded
  | ternary condition _ onTrue _ onFalse =>
    (condition.beginsWithMinus = false ∧ onTrue.beginsWithMinus = false ∧
      onFalse.beginsWithMinus = false) ∧ condition.Guarded ∧ onTrue.Guarded ∧ onFalse.Guarded

/-- A tree that can be written without a fault. -/
structure Clean (e : Expr) : Prop where
  whole : e.lacksOperand = false
  stands : e.Stands .comma
  unsigned : e.beginsWithMinus = false
  guarded : e.Guarded

/-- The tree with nothing in the slots of its colons. -/
def withoutColons : Expr → Expr
  | literal value => literal value
  | grouping inner => grouping inner.withoutColons
  | unary operator right => unary operator right.withoutColons
  | binary left operator right => binary left.withoutColons operator right.withoutColons
  | missingLeft operator right => missingLeft operator right.withoutColons
  | ternary condition question onTrue _ onFalse =>
    ternary condition.withoutColons question onTrue.withoutColons default onFalse.withoutColons

/-! ### The slots of the colons do not matter -/

section Colons

variable {e e' : Expr} {l : Level}

@[simp] theorem lacksOperand_withoutColons (e : Expr) :
    e.withoutColons.lacksOperand = e.lacksOperand := by
  induction e <;> simp_all [withoutColons, lacksOperand]

@[simp] theorem beginsWithMinus_withoutColons (e : Expr) :
    e.withoutColons.beginsWithMinus = e.beginsWithMinus := by
  induction e <;> simp_all [withoutColons, beginsWithMinus]

@[simp] theorem guarded_withoutColons (e : Expr) : e.withoutColons.Guarded ↔ e.Guarded := by
  induction e <;> simp_all [withoutColons, Guarded]

theorem Stands.withoutColons (h : e.Stands l) : e.withoutColons.Stands l := by
  induction h with
  | literal => exact .literal
  | grouping _ ih => exact .grouping ih
  | unary ho _ ih => exact .unary ho ih
  | binary ho _ _ ihLeft ihRight => exact .binary ho ihLeft ihRight
  | missingLeft hf ho _ ih => exact .missingLeft hf ho ih
  | ternary hq _ _ _ ihCondition ihTrue ihFalse => exact .ternary hq ihCondition ihTrue ihFalse
  | ofPrimary _ ih => exact .ofPrimary ih
  | ofOperand _ ih => exact .ofOperand ih
  | ofEquality _ ih => exact .ofEquality ih

theorem Stands.of_withoutColons (h : e.withoutColons.Stands l) : e.Stands l := by
  generalize he : e.withoutColons = e' at h
  induction h generalizing e with
  | ofPrimary _ ih => exact .ofPrimary (ih he)
  | ofOperand _ ih => exact .ofOperand (ih he)
  | ofEquality _ ih => exact .ofEquality (ih he)
  | literal =>
    cases e <;> cases he
    exact .literal
  | grouping _ ih =>
    cases e <;> cases he
    exact .grouping (ih rfl)
  | unary ho _ ih =>
    cases e <;> cases he
    exact .unary ho (ih rfl)
  | binary ho _ _ ihLeft ihRight =>
    cases e <;> cases he
    exact .binary ho (ihLeft rfl) (ihRight rfl)
  | missingLeft hf ho _ ih =>
    cases e <;> cases he
    exact .missingLeft hf ho (ih rfl)
  | ternary hq _ _ _ ihCondition ihTrue ihFalse =>
    cases e <;> cases he
    exact .ternary hq (ihCondition rfl) (ihTrue rfl) (ihFalse rfl)

theorem Clean.of_withoutColons_eq (h : e.Clean) (he : e'.withoutColons = e.withoutColons) :
    e'.Clean := by
  refine ⟨?_, .of_withoutColons ?_, ?_, ?_⟩
  · rw [← lacksOperand_withoutColons, he, lacksOperand_withoutColons, h.whole]
  · exact he ▸ h.stands.withoutColons
  · rw [← beginsWithMinus_withoutColons, he, beginsWithMinus_withoutColons, h.unsigned]
  · rw [← guarded_withoutColons, he, guarded_withoutColons]
    exact h.guarded

end Colons

/-! ### What a tree begins with -/

/-- What an expression begins with that has all its operands. -/
def openingKinds : List Kind := primaryKinds ++ unaryOperators

theorem Stands.begins {e : Expr} {l : Level} {ts : List Token} (h : e.Stands l)
    (hw : e.lacksOperand = false) (hy : e.Yields ts) :
    ∃ t us, ts = t :: us ∧ t.kind ∈ openingKinds ∧ (t.kind = .minus → e.beginsWithMinus) := by
  induction h generalizing ts with
  | literal =>
    cases hy with
    | @literal value t hl =>
      have hk := Token.kind_mem_of_leaf? hl
      refine ⟨t, [], rfl, ?_, ?_⟩
      · exact List.mem_append_left _ (List.mem_append_left _ hk)
      · intro hm
        rw [hm] at hk
        simp [literalKinds] at hk
  | grouping =>
    cases hy with
    | @grouping _ t us v ho _ _ =>
      refine ⟨t, us ++ [v], rfl, ?_, ?_⟩
      · rw [ho]
        decide
      · intro hm
        rw [ho] at hm
        cases hm
  | unary ho _ _ =>
    cases hy with
    | unary _ =>
      exact ⟨_, _, rfl, List.mem_append_right _ ho, fun hm => by simpa [beginsWithMinus] using hm⟩
  | binary _ _ _ ih _ =>
    cases hy with
    | binary hl _ =>
      rw [lacksOperand, Bool.or_eq_false_iff] at hw
      obtain ⟨t, us, rfl, hk, hm⟩ := ih hw.1 hl
      exact ⟨t, _, rfl, hk, hm⟩
  | missingLeft => cases hw
  | ternary _ _ _ _ ih _ _ =>
    simp only [lacksOperand, Bool.or_eq_false_iff] at hw
    cases hy with
    | colon hc _ _ _ | noColon hc _ _ _ _ =>
      obtain ⟨t, us, rfl, hk, hm⟩ := ih hw.1.1 hc
      exact ⟨t, _, rfl, hk, hm⟩
  | ofPrimary _ ih | ofOperand _ ih | ofEquality _ ih => exact ih hw hy

/-- No token of a tree is an end token. -/
theorem Stands.running {e : Expr} {l : Level} {ts : List Token} (h : e.Stands l)
    (hy : e.Yields ts) : ∀ t ∈ ts, t.kind ≠ .eof := by
  induction h generalizing ts with
  | literal =>
    cases hy with
    | literal hl =>
      intro t ht
      rw [List.mem_singleton.1 ht]
      exact Kind.ne_eof_of_literal (Token.kind_mem_of_leaf? hl)
  | grouping _ ih =>
    cases hy with
    | grouping ho hi hc =>
      simp only [List.cons_append, List.mem_cons, List.mem_append, List.not_mem_nil, or_false]
      rintro t (rfl | ht | rfl)
      · exact ho.trans_ne (by simp)
      · exact ih hi t ht
      · exact hc.trans_ne (by simp)
  | unary ho _ ih =>
    cases hy with
    | unary hr =>
      rintro t (_ | ⟨_, ht⟩)
      · exact Kind.ne_eof_of_mem_unaryOperators ho
      · exact ih hr t ht
  | binary ho _ _ ihLeft ihRight =>
    cases hy with
    | binary hl hr =>
      simp only [List.mem_append, List.mem_cons]
      rintro t (ht | rfl | ht)
      · exact ihLeft hl t ht
      · exact Kind.ne_eof_of_mem_operators ho
      · exact ihRight hr t ht
  | missingLeft _ ho _ ih =>
    cases hy with
    | missingLeft hr =>
      rintro t (_ | ⟨_, ht⟩)
      · exact Kind.ne_eof_of_mem_operators ho
      · exact ih hr t ht
  | ternary hq _ _ _ ihCondition ihTrue ihFalse =>
    cases hy with
    | colon hc ht hk hf =>
      simp only [List.append_assoc, List.cons_append, List.mem_append, List.mem_cons]
      rintro t (h | rfl | h | rfl | h)
      · exact ihCondition hc t h
      · exact hq.trans_ne (by simp)
      · exact ihTrue ht t h
      · exact hk.trans_ne (by simp)
      · exact ihFalse hf t h
    | noColon hc ht _ _ hf =>
      simp only [List.append_assoc, List.cons_append, List.mem_append, List.mem_cons]
      rintro t (h | rfl | h | h)
      · exact ihCondition hc t h
      · exact hq.trans_ne (by simp)
      · exact ihTrue ht t h
      · exact ihFalse hf t h
  | ofPrimary _ ih | ofOperand _ ih | ofEquality _ ih => exact ih hy

end Expr

end LoxReader
