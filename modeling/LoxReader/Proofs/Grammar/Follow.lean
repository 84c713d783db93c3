import LoxReader.Proofs.Grammar.Derivation

/-!
# What stands behind an expression

A level reads on as long as a token carries its expression on, so none of these tokens stands behind
what it has read.
-/

namespace LoxReader

namespace Level

/-- The kinds of token that carry an expression of the level on. -/
def carriers (l : Level) : List Kind :=
  (Rung.all.filter fun r => l.rank ≤ (rung r).rank).flatMap Rung.operators ++
    if l.rank ≤ ternary.rank then [.question] else []

theorem carriers_rung (r : Rung) :
    (rung r).carriers = r.operators ++ r.firstOperand.carriers := by
  cases r <;> rfl

theorem carriers_ternary : ternary.carriers = equality.carriers ++ [.question] := rfl

/-- Only a factor may be carried on as a left operand where it is not carried on as a right one. -/
theorem carriers_firstOperand_subset (r : Rung) :
    r.firstOperand.carriers ⊆ r.laterOperand.carriers := by
  cases r <;> decide

theorem notMem_carriers_rung {r : Rung} {k : Kind} :
    k ∉ (rung r).carriers ↔ k ∉ r.operators ∧ k ∉ r.firstOperand.carriers := by
  rw [carriers_rung, List.mem_append, not_or]

theorem notMem_carriers_ternary {k : Kind} :
    k ∉ ternary.carriers ↔ k ∉ equality.carriers ∧ k ≠ .question := by
  rw [carriers_ternary, List.mem_append, List.mem_singleton, not_or]

theorem operators_subset_carriers (r : Rung) : r.operators ⊆ (rung r).carriers := by
  rw [carriers_rung]
  exact List.subset_append_left _ _

theorem carriers_firstOperand_subset_rung (r : Rung) :
    r.firstOperand.carriers ⊆ (rung r).carriers := by
  rw [carriers_rung]
  exact List.subset_append_right _ _

/-- An operator of a rung ends the tighter levels. -/
theorem notMem_carriers_firstOperand {r : Rung} {k : Kind} (h : k ∈ r.operators) :
    k ∉ r.firstOperand.carriers := by
  cases r <;> revert k <;> decide

theorem notMem_carriers_of_literal {l : Level} {k : Kind} (h : k ∈ literalKinds) :
    k ∉ l.carriers := by
  revert k
  rcases l with (_ | _ | _ | _ | _) | _ | _ | _ <;> decide

end Level

theorem Rung.notMem_operators_of_literal {r : Rung} {k : Kind} (h : k ∈ literalKinds) :
    k ∉ r.operators := by
  have hk : k ∉ (Level.rung r).carriers := Level.notMem_carriers_of_literal h
  exact (Level.notMem_carriers_rung.1 hk).1

/-- What is behind the tree of a goal.  A chain begins behind an operand read to its end. -/
def Goal.Closes (goal : Goal) (c d : Cursor) : Prop :=
  match goal with
  | .level l => d.kind ∉ l.carriers
  | .chain rung _ => c.kind ∉ rung.firstOperand.carriers → d.kind ∉ (Level.rung rung).carriers

/-- A derivation ends where no token carries its tree on. -/
theorem Goal.Reads.closes {goal : Goal} {c d : Cursor} {e : Expr} {xs : List Event}
    (h : Reads goal c e d xs) : goal.Closes c d := by
  induction h with
  | forgiven _ _ _ _ ihRight ihChain =>
    apply ihChain
    intro hk
    exact ihRight (Level.carriers_firstOperand_subset _ hk)
  | link _ _ _ ihRight ihChain =>
    intro _
    apply ihChain
    intro hk
    exact ihRight (Level.carriers_firstOperand_subset _ hk)
  | operand _ _ _ ihLeft ihChain => exact ihChain ihLeft
  | stop ho =>
    intro hk
    exact Level.notMem_carriers_rung.2 ⟨ho, hk⟩
  | choice _ _ _ _ _ _ ihFalse => exact ihFalse
  | noChoice _ hq ih => exact Level.notMem_carriers_ternary.2 ⟨ih, hq⟩
  | prefixed _ _ ih => exact ih
  | primary => exact List.not_mem_nil
  | leaf => exact List.not_mem_nil
  | group => exact List.not_mem_nil

end LoxReader
