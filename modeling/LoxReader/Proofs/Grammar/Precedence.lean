import LoxReader.Proofs.Grammar.Ladder

/-!
# Precedence in the trees that are read

`Expr.Graded` says of a tree, node by node, which levels the operands of a node may be of, and
where its commas are.  Every tree that is read is graded, with its operands or without.
-/

namespace LoxReader

/-- The rung that an operator belongs to. -/
def Rung.ofOperator? (k : Kind) : Option Rung := all.find? fun r => r.operators.contains k

theorem Rung.ofOperator?_of_mem {rung : Rung} {k : Kind} (h : k ∈ rung.operators) :
    ofOperator? k = some rung := by
  cases rung <;> revert k <;> decide

namespace Expr

/-- The level of the node at the root, as its operator tells it. -/
def level? : Expr → Option Level
  | literal _ | grouping _ => some .primary
  | unary operator _ => if operator.kind ∈ unaryOperators then some .unary else none
  | binary _ operator _ | missingLeft operator _ => (Rung.ofOperator? operator.kind).map .rung
  | ternary _ question _ _ _ => if question.kind = .question then some .ternary else none

/-- The tree is of the level or of a tighter one. -/
def AtLeast (l : Level) (e : Expr) : Prop := ∃ l', e.level? = some l' ∧ l.rank ≤ l'.rank

/-- The tree is of a tighter level. -/
def Tighter (l : Level) (e : Expr) : Prop := ∃ l', e.level? = some l' ∧ l.rank < l'.rank

/-- What the operators of a rung take on their left: their own level or a tighter one, but factors
only a tighter one. -/
def TakenOnLeft (rung : Rung) (e : Expr) : Prop :=
  if rung = .factor then e.Tighter (.rung rung) else e.AtLeast (.rung rung)

/-- What the operators of a rung take on their right: a tighter level only, but factors their own
too. -/
def TakenOnRight (rung : Rung) (e : Expr) : Prop :=
  if rung = .factor then e.AtLeast (.rung rung) else e.Tighter (.rung rung)

/-- The node at the root has an operator of its level, and operands of the right levels. -/
def InPlace : Expr → Prop
  | literal _ => True
  | grouping inner => inner.AtLeast .ternary
  | unary operator right => operator.kind ∈ unaryOperators ∧ right.AtLeast .unary
  | binary left operator right => ∃ rung : Rung, operator.kind ∈ rung.operators ∧
    left.TakenOnLeft rung ∧ right.TakenOnRight rung
  | missingLeft operator right => ∃ rung : Rung, operator.kind ∈ rung.operators ∧
    rung ≠ .comma ∧ right.TakenOnRight rung
  | ternary condition question onTrue _ onFalse => question.kind = .question ∧
    condition.AtLeast .equality ∧ onTrue.AtLeast .ternary ∧ onFalse.AtLeast .ternary

/-- All nodes of a tree, each as the tree below it. -/
def nodes : Expr → List Expr
  | literal value => [literal value]
  | grouping inner => grouping inner :: inner.nodes
  | unary operator right => unary operator right :: right.nodes
  | binary left operator right => binary left operator right :: (left.nodes ++ right.nodes)
  | missingLeft operator right => missingLeft operator right :: right.nodes
  | ternary condition question onTrue colon onFalse =>
    ternary condition question onTrue colon onFalse ::
      (condition.nodes ++ onTrue.nodes ++ onFalse.nodes)

/-- No node of the tree is a comma. -/
def CommaFree (e : Expr) : Prop := ∀ s ∈ e.nodes, s.level? ≠ some .comma

/-- Commas are on the left spine only, each with its left operand. -/
inductive CommasLead : Expr → Prop
  | free {e} : e.CommaFree → CommasLead e
  | comma {left operator right} (own : operator.kind = .comma) : CommasLead left →
      right.CommaFree → CommasLead (.binary left operator right)

/-- The tree obeys the ladder of levels at every node. -/
structure Graded (e : Expr) : Prop where
  commas : e.CommasLead
  nodes : ∀ s ∈ e.nodes, s.InPlace

/-! ### A tree on the ladder is graded -/

section Ladder

variable {e : Expr} {l l' : Level} {rung : Rung}

theorem AtLeast.mono (h : e.AtLeast l) (hl : l'.rank ≤ l.rank) : e.AtLeast l' := by
  obtain ⟨m, hm, hr⟩ := h
  exact ⟨m, hm, by omega⟩

theorem AtLeast.tighter (h : e.AtLeast l) (hl : l'.rank < l.rank) : e.Tighter l' := by
  obtain ⟨m, hm, hr⟩ := h
  exact ⟨m, hm, by omega⟩

theorem Stands.atLeast (h : e.Stands l) : e.AtLeast l := by
  induction h with
  | literal | grouping => exact ⟨.primary, rfl, Nat.le_refl _⟩
  | unary ho => exact ⟨.unary, if_pos ho, Nat.le_refl _⟩
  | @binary rung _ _ _ ho | @missingLeft rung _ _ _ ho =>
    refine ⟨.rung rung, ?_, Nat.le_refl _⟩
    rw [level?, Rung.ofOperator?_of_mem ho]
    rfl
  | ternary hq => exact ⟨.ternary, if_pos hq, Nat.le_refl _⟩
  | ofPrimary _ ih => exact ih.mono (by decide)
  | @ofOperand rung _ _ ih => exact ih.mono (Nat.le_of_lt rung.rank_lt_rank_firstOperand)
  | ofEquality _ ih => exact ih.mono (by decide)

theorem Stands.takenOnLeft (h : e.Stands rung.leftOperand) : e.TakenOnLeft rung := by
  unfold TakenOnLeft
  split
  · rename_i hr
    subst hr
    exact h.atLeast.tighter (by decide)
  · exact h.atLeast.mono rung.rank_le_rank_leftOperand

theorem Stands.takenOnRight (h : e.Stands rung.laterOperand) : e.TakenOnRight rung := by
  unfold TakenOnRight
  split
  · rename_i hr
    subst hr
    exact h.atLeast
  · have later : rung.laterOperand = rung.firstOperand := by
      cases rung <;> first | rfl | contradiction
    rw [later] at h
    exact h.atLeast.tighter rung.rank_lt_rank_firstOperand

theorem Stands.inPlace (h : e.Stands l) : ∀ s ∈ e.nodes, s.InPlace := by
  induction h with
  | literal => simp [nodes, InPlace]
  | grouping hi ih =>
    rw [nodes, List.forall_mem_cons]
    exact ⟨hi.atLeast, ih⟩
  | unary ho hr ih =>
    rw [nodes, List.forall_mem_cons]
    exact ⟨⟨ho, hr.atLeast⟩, ih⟩
  | binary ho hl hr ihLeft ihRight =>
    rw [nodes, List.forall_mem_cons, List.forall_mem_append]
    exact ⟨⟨_, ho, hl.takenOnLeft, hr.takenOnRight⟩, ihLeft, ihRight⟩
  | missingLeft hf ho hr ih =>
    rw [nodes, List.forall_mem_cons]
    refine ⟨⟨_, ho, ?_, hr.takenOnRight⟩, ih⟩
    rintro rfl
    cases hf
  | ternary hq hc ht hf ihCondition ihTrue ihFalse =>
    rw [nodes, List.forall_mem_cons, List.forall_mem_append, List.forall_mem_append]
    exact ⟨⟨hq, hc.atLeast, ht.atLeast, hf.atLeast⟩, ⟨ihCondition, ihTrue⟩, ihFalse⟩
  | ofPrimary _ ih | ofOperand _ ih | ofEquality _ ih => exact ih

/-- Where the root is no comma, no node is one. -/
theorem Stands.nodes_atLeast (h : e.Stands l) (hl : Level.ternary.rank ≤ l.rank) :
    ∀ s ∈ e.nodes, s.AtLeast .ternary := by
  induction h with
  | literal => simpa [nodes] using literal.atLeast.mono hl
  | grouping hi ih =>
    rw [nodes, List.forall_mem_cons]
    exact ⟨hi.grouping.atLeast.mono hl, ih (Nat.le_refl _)⟩
  | unary ho hr ih =>
    rw [nodes, List.forall_mem_cons]
    exact ⟨(unary ho hr).atLeast.mono hl, ih (by decide)⟩
  | @binary rung _ _ _ ho hleft hright ihLeft ihRight =>
    rw [nodes, List.forall_mem_cons, List.forall_mem_append]
    refine ⟨(binary ho hleft hright).atLeast.mono hl, ihLeft ?_, ihRight ?_⟩
    · exact Nat.le_trans hl rung.rank_le_rank_leftOperand
    · exact Nat.le_trans hl rung.rank_le_rank_laterOperand
  | @missingLeft rung _ _ hf ho hright ih =>
    rw [nodes, List.forall_mem_cons]
    refine ⟨(missingLeft hf ho hright).atLeast.mono hl, ih ?_⟩
    exact Nat.le_trans hl rung.rank_le_rank_laterOperand
  | ternary hq hc ht hf ihCondition ihTrue ihFalse =>
    rw [nodes, List.forall_mem_cons, List.forall_mem_append, List.forall_mem_append]
    refine ⟨(ternary hq hc ht hf).atLeast.mono hl, ⟨ihCondition (by decide), ?_⟩, ?_⟩
    · exact ihTrue (Nat.le_refl _)
    · exact ihFalse (Nat.le_refl _)
  | ofPrimary _ ih | ofEquality _ ih => exact ih (by decide)
  | @ofOperand rung _ _ ih =>
    exact ih (Nat.le_trans hl (Nat.le_of_lt rung.rank_lt_rank_firstOperand))

theorem Stands.commaFree (h : e.Stands l) (hl : Level.ternary.rank ≤ l.rank) : e.CommaFree := by
  intro s hs
  obtain ⟨m, hm, hr⟩ := h.nodes_atLeast hl s hs
  rw [hm]
  rintro ⟨⟩
  exact absurd hr (by decide)

theorem Stands.commasLead (h : e.Stands l) : e.CommasLead := by
  induction h with
  | literal => exact .free (literal.commaFree (by decide))
  | grouping hi => exact .free (hi.grouping.commaFree (by decide))
  | unary ho hr => exact .free ((unary ho hr).commaFree (by decide))
  | @binary rung left operator right ho hl hr ihLeft =>
    by_cases hrung : rung = .comma
    · subst hrung
      exact .comma (List.mem_singleton.1 ho) ihLeft (hr.commaFree (Nat.le_refl _))
    · exact .free ((binary ho hl hr).commaFree (Rung.rank_ternary_le hrung))
  | @missingLeft rung operator right hf ho hr =>
    have hrung : rung ≠ .comma := by
      rintro rfl
      cases hf
    exact .free ((missingLeft hf ho hr).commaFree (Rung.rank_ternary_le hrung))
  | ternary hq hc ht hf => exact .free ((ternary hq hc ht hf).commaFree (Nat.le_refl _))
  | ofPrimary _ ih | ofOperand _ ih | ofEquality _ ih => exact ih

end Ladder

end Expr

/-! ### What is read is on the ladder -/

section Rungs

variable {e : Expr} {rung : Rung}

theorem Rung.leftOperand_of_ne (h : rung ≠ .factor) : rung.leftOperand = .rung rung := by
  cases rung <;> first | rfl | contradiction

theorem Expr.Stands.leftOperand_of_first (h : e.Stands rung.firstOperand) :
    e.Stands rung.leftOperand := by
  by_cases hr : rung = .factor
  · subst hr
    exact h
  · rw [Rung.leftOperand_of_ne hr]
    exact .ofOperand h

theorem Expr.Stands.of_leftOperand (h : e.Stands rung.leftOperand) : e.Stands (.rung rung) := by
  by_cases hr : rung = .factor
  · subst hr
    exact .ofOperand h
  · rwa [Rung.leftOperand_of_ne hr] at h

end Rungs

namespace Goal

variable {goal : Goal} {c d : Cursor} {e left : Expr} {xs : List Event} {rung : Rung}

/-- A chain begins behind a left operand of its rung, or ends at once. -/
def Continues (rung : Rung) (left : Expr) (c : Cursor) : Prop :=
  left.Stands rung.leftOperand ∨ left.Stands (.rung rung) ∧ c.kind ∉ rung.operators

/-- What a goal comes to is on the ladder. -/
def Climbs (goal : Goal) (c : Cursor) (e : Expr) : Prop :=
  match goal with
  | .level l => e.Stands l
  | .chain rung left => Continues rung left c → e.Stands (.rung rung)

/-- No factor is a left operand of a factor: what is read behind an operator takes the factors that
follow with it. -/
theorem continues_of_notMem (h : left.Stands (.rung rung))
    (hc : c.kind ∉ rung.laterOperand.carriers) : Continues rung left c := by
  by_cases hr : rung = .factor
  · subst hr
    right
    refine ⟨h, fun hk => hc ?_⟩
    exact Level.operators_subset_carriers _ hk
  · left
    rwa [Rung.leftOperand_of_ne hr]

theorem Reads.climbs (h : Reads goal c e d xs) : goal.Climbs c e := by
  induction h with
  | @forgiven rung c right d _ _ _ _ hf ho hr _ ihRight ihChain =>
    have own : c.token.kind ∈ rung.operators := by
      rwa [Cursor.kind_token (Kind.ne_eof_of_mem_operators ho)]
    exact ihChain (continues_of_notMem (.missingLeft hf own ihRight) hr.closes)
  | operand _ _ _ ihLeft ihChain => exact ihChain (.inl ihLeft.leftOperand_of_first)
  | @link rung left c right d _ _ _ _ ho hr _ ihRight ihChain =>
    have own : c.token.kind ∈ rung.operators := by
      rwa [Cursor.kind_token (Kind.ne_eof_of_mem_operators ho)]
    intro hleft
    rcases hleft with hleft | ⟨-, hstop⟩
    · exact ihChain (continues_of_notMem (.binary own hleft ihRight) hr.closes)
    · exact absurd ho hstop
  | stop ho =>
    intro hleft
    rcases hleft with hleft | ⟨hleft, -⟩
    · exact hleft.of_leftOperand
    · exact hleft
  | choice _ hq _ _ ihCondition ihTrue ihFalse =>
    refine .ternary ?_ ihCondition ihTrue ihFalse
    rw [Cursor.kind_token (hq.trans_ne (by simp)), hq]
  | noChoice _ _ ih => exact .ofEquality ih
  | prefixed ho _ ih =>
    refine .unary ?_ ih
    rwa [Cursor.kind_token (Kind.ne_eof_of_mem_unaryOperators ho)]
  | primary _ _ ih => exact .ofPrimary ih
  | leaf => exact .literal
  | group _ _ _ ih => exact .grouping ih

end Goal

/-- **Precedence.** In every tree that is read, each node is in its place on the ladder of levels,
also where an operand is missing. -/
theorem Cursor.readAll_graded {c : Cursor} {e : Expr} (tree : c.readAll.tree? = some e) :
    e.Graded := by
  rcases c.readAll_cases with ⟨e', d, xs, h, hr⟩ | ⟨d, xs, -, hr⟩
  · rw [hr] at tree
    cases tree
    exact ⟨h.climbs.commasLead, h.climbs.inPlace⟩
  · rw [hr] at tree
    cases tree

section Sample

open Token

/-- `nil , true - * -nil / nil`, where a factor lacks its left operand. -/
theorem Cursor.readAll_graded_of_forgiven :
    let tokens := [loose .kwNil "nil", loose .comma ",", loose .kwTrue "true", loose .minus "-",
      loose .star "*", loose .minus "-", loose .kwNil "nil", loose .slash "/", loose .kwNil "nil",
      loose .eof ""]
    let tree := Expr.binary (.literal .nil) (loose .comma ",")
      (.binary (.literal (.boolean true)) (loose .minus "-")
        (.missingLeft (loose .star "*")
          (.binary (.unary (loose .minus "-") (.literal .nil)) (loose .slash "/")
            (.literal .nil))))
    Cursor.ofTokens? tokens = some ⟨0, loose .kwNil "nil", tokens⟩ ∧
      (Cursor.readAll ⟨0, loose .kwNil "nil", tokens⟩).tree? = some tree ∧ tree.Graded := by
  intro tokens tree
  have read : (Cursor.readAll ⟨0, loose .kwNil "nil", tokens⟩).tree? = some tree := by
    decide +kernel
  exact ⟨rfl, read, Cursor.readAll_graded read⟩

end Sample

end LoxReader
