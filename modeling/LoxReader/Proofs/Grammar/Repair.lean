import LoxReader.Proofs.Grammar.Writing

/-!
# Repairing what was forgiven

A reading that forgives operators without their left operand is compared with the reading of the
tokens that have a leaf in front of each of these operators.  The second one reports nothing, and
its tree has the leaf for each operand that was missing and is the same elsewhere.
-/

namespace LoxReader

/-! ### Tokens with leaves between them -/

/-- The tokens with `leaf` in front of each of them whose index is marked. -/
def mended (leaf : Token) (marks : List Nat) (tokens : List Token) (start : Nat) : List Token :=
  (tokens.zipIdx start).flatMap fun (t, i) => if i ∈ marks then [leaf, t] else [t]

theorem mended_cons {leaf t : Token} {marks : List Nat} {ts : List Token} {i : Nat} :
    mended leaf marks (t :: ts) i =
      (if i ∈ marks then [leaf, t] else [t]) ++ mended leaf marks ts (i + 1) := rfl

/-- The tokens from index `i` on are mended to others, with a leaf in front of the marked ones.  The
marks are in order. -/
inductive Mends (leaf : Token) : Nat → List Nat → List Token → List Token → Prop
  | nil {i} : Mends leaf i [] [] []
  | kept {i marks t ts us} : Mends leaf (i + 1) marks ts us → Mends leaf i marks (t :: ts) (t :: us)
  | marked {i marks t ts us} : Mends leaf (i + 1) marks ts us →
      Mends leaf i (i :: marks) (t :: ts) (leaf :: t :: us)

namespace Mends

variable {leaf : Token} {i : Nat} {marks marks' : List Nat} {ts us vs ws : List Token}

theorem refl (leaf : Token) (i : Nat) (ts : List Token) : Mends leaf i [] ts ts := by
  induction ts generalizing i with
  | nil => exact .nil
  | cons t ts ih => exact .kept (ih _)

theorem append (h : Mends leaf i marks ts us) (h' : Mends leaf (i + ts.length) marks' vs ws) :
    Mends leaf i (marks ++ marks') (ts ++ vs) (us ++ ws) := by
  induction h with
  | nil => exact h'
  | @kept i _ t ts _ _ ih =>
    refine .kept (ih ?_)
    rwa [Nat.add_right_comm, Nat.add_assoc]
  | @marked i _ t ts _ _ ih =>
    refine .marked (ih ?_)
    rwa [Nat.add_right_comm, Nat.add_assoc]

theorem length (h : Mends leaf i marks ts us) : us.length = ts.length + marks.length := by
  induction h with
  | nil => rfl
  | kept _ ih | marked _ ih =>
    simp only [List.length_cons, ih]
    omega

theorem le_of_mem (h : Mends leaf i marks ts us) : ∀ m ∈ marks, i ≤ m := by
  induction h with
  | nil => simp
  | kept _ ih => exact fun m hm => Nat.le_of_succ_le (ih m hm)
  | marked _ ih =>
    rintro m (_ | ⟨_, hm⟩)
    · exact Nat.le_refl _
    · exact Nat.le_of_succ_le (ih m hm)

/-- Mending is insertion, for any marks that are the same from the index on. -/
theorem eq_mended (h : Mends leaf i marks ts us) (hm : ∀ j, i ≤ j → (j ∈ marks' ↔ j ∈ marks)) :
    us = mended leaf marks' ts i := by
  induction h with
  | nil => rfl
  | @kept i marks t ts us h ih =>
    have hi : i ∉ marks' := by
      rw [hm i (Nat.le_refl i)]
      exact fun hi => absurd (h.le_of_mem i hi) (by omega)
    rw [mended_cons, if_neg hi, ← ih fun j hj => hm j (by omega)]
    rfl
  | @marked i marks t ts us _ ih =>
    have hi : i ∈ marks' := (hm i (Nat.le_refl i)).2 List.mem_cons_self
    rw [mended_cons, if_pos hi, ← ih fun j hj => ?_]
    · rfl
    · rw [hm j (by omega), List.mem_cons]
      exact or_iff_right (by omega)

theorem running {value : Literal} (h : Mends leaf i marks ts us) (hl : leaf.leaf? = some value)
    (ht : ∀ t ∈ ts, t.kind ≠ .eof) : ∀ t ∈ us, t.kind ≠ .eof := by
  have hk : leaf.kind ≠ .eof := Kind.ne_eof_of_literal (Token.kind_mem_of_leaf? hl)
  induction h with
  | nil => exact ht
  | kept _ ih =>
    rw [List.forall_mem_cons] at ht ⊢
    exact ⟨ht.1, ih ht.2⟩
  | marked _ ih =>
    rw [List.forall_mem_cons] at ht
    rw [List.forall_mem_cons, List.forall_mem_cons]
    exact ⟨hk, ht.1, ih ht.2⟩

/-- A leaf never comes last. -/
theorem getLast?_eq (h : Mends leaf i marks ts us) : us.getLast? = ts.getLast? := by
  induction h with
  | nil => rfl
  | kept _ ih | marked _ ih => simp only [List.getLast?_cons, ih, Option.getD_some]

end Mends

/-! ### Readings of mended tokens -/

/-- Between `c` and `d` some tokens are marked.  Wherever these tokens stand mended, in front of a
token of none of the kinds, `P` holds of the cursors before and behind them. -/
def Mendable (leaf : Token) (c d : Cursor) (marks : List Nat) (kinds : List Kind)
    (P : Cursor → Cursor → Prop) : Prop :=
  ∃ ts us, c.Passes ts d ∧ Mends leaf c.position marks ts us ∧
    ∀ c' d', c'.Passes us d' → d'.kind ∉ kinds → P c' d'

namespace Mendable

open Cursor

variable {leaf : Token} {c d e : Cursor} {marks marks' : List Nat} {kinds kinds' : List Kind}
  {P Q : Cursor → Cursor → Prop}

theorem imp (h : Mendable leaf c d marks kinds P)
    (hPQ : ∀ c' d', d'.kind ∉ kinds → P c' d' → Q c' d') : Mendable leaf c d marks kinds Q := by
  obtain ⟨ts, us, hp, hm, hP⟩ := h
  refine ⟨ts, us, hp, hm, ?_⟩
  intro c' d' hu hd'
  exact hPQ c' d' hd' (hP c' d' hu hd')

theorem mono (h : Mendable leaf c d marks kinds P) (hs : kinds ⊆ kinds') :
    Mendable leaf c d marks kinds' P := by
  obtain ⟨ts, us, hp, hm, hP⟩ := h
  refine ⟨ts, us, hp, hm, ?_⟩
  intro c' d' hu hd'
  apply hP c' d' hu
  intro hk
  exact hd' (hs hk)

theorem refl (h : ∀ c', c'.kind ∉ kinds → P c' c') : Mendable leaf c c [] kinds P := by
  refine ⟨[], [], .refl c, .nil, ?_⟩
  intro c' d' hu hd'
  rw [hu.eq_of_nil] at hd' ⊢
  exact h c' hd'

/-- A token in front of the others that is not marked. -/
theorem next (hne : c.kind ≠ .eof) (h : Mendable leaf c.next d marks kinds P) :
    Mendable leaf c d marks kinds fun c' d' =>
      c'.kind = c.kind ∧ c'.token = c.token ∧ P c'.next d' := by
  obtain ⟨ts, us, hp, hm, hP⟩ := h
  rw [position_next hne] at hm
  refine ⟨c.token :: ts, c.token :: us, hp.next hne, .kept hm, ?_⟩
  intro c' d' hu hd'
  obtain ⟨hk, -, ht, hu⟩ := hu.uncons
  rw [kind_token hne] at hk
  exact ⟨hk, ht, hP _ _ hu hd'⟩

/-- A marked token in front of the others. -/
theorem marked (hne : c.kind ≠ .eof) (h : Mendable leaf c.next d marks kinds P) :
    Mendable leaf c d (c.position :: marks) kinds fun c' d' =>
      (c'.kind = leaf.kind ∧ c'.kind ≠ .eof ∧ c'.token = leaf) ∧
        c'.next.kind = c.kind ∧ c'.next.token = c.token ∧ P c'.next.next d' := by
  obtain ⟨ts, us, hp, hm, hP⟩ := h
  rw [position_next hne] at hm
  refine ⟨c.token :: ts, leaf :: c.token :: us, hp.next hne, .marked hm, ?_⟩
  intro c' d' hu hd'
  obtain ⟨hkl, hnl, htl, hu⟩ := hu.uncons
  obtain ⟨hk, -, ht, hu⟩ := hu.uncons
  rw [kind_token hne] at hk
  exact ⟨⟨hkl, hnl, htl⟩, hk, ht, hP _ _ hu hd'⟩

/-- What is in front of mended tokens was there before, or it is the leaf. -/
theorem start {starts : List Kind} (h : Mendable leaf c d marks kinds P) (hc : c.kind ∉ starts)
    (hl : leaf.kind ∉ starts) (hd : c = d → starts ⊆ kinds) :
    Mendable leaf c d marks kinds fun c' d' => c'.kind ∉ starts ∧ P c' d' := by
  obtain ⟨ts, us, hp, hm, hP⟩ := h
  refine ⟨ts, us, hp, hm, ?_⟩
  intro c' d' hu hd'
  refine ⟨?_, hP c' d' hu hd'⟩
  cases hm with
  | nil =>
    rw [hu.eq_of_nil] at hd'
    exact fun hk => hd' (hd hp.eq_of_nil.symm hk)
  | kept => rwa [hu.uncons.1, ← hp.uncons.1]
  | marked => rwa [hu.uncons.1]

/-- The token passed last is not changed by mending. -/
theorem passed (h : Mendable leaf c d marks kinds P) (hd : c ≠ d) :
    Mendable leaf c d marks kinds fun c' d' => d'.passed = d.passed ∧ P c' d' := by
  obtain ⟨ts, us, hp, hm, hP⟩ := h
  refine ⟨ts, us, hp, hm, ?_⟩
  intro c' d' hu hd'
  refine ⟨hp.passed_eq hu hm.getLast?_eq ?_, hP c' d' hu hd'⟩
  rintro rfl
  exact hd hp.eq_of_nil.symm

/-- Two passages of mended tokens, where nothing in front of the second one disturbs the first. -/
theorem append (h : Mendable leaf c d marks kinds P) (h' : Mendable leaf d e marks' kinds' Q)
    (hd : d.kind ∉ kinds) (hl : leaf.kind ∉ kinds) (he : d = e → kinds ⊆ kinds') :
    Mendable leaf c e (marks ++ marks') kinds' fun c' e' =>
      ∃ d', d'.kind ∉ kinds ∧ P c' d' ∧ Q d' e' := by
  obtain ⟨ts, us, hp, hm, hP⟩ := h
  obtain ⟨vs, ws, hp', hm', hQ⟩ := h'.start hd hl he
  refine ⟨ts ++ vs, us ++ ws, hp.trans hp', ?_, ?_⟩
  · rw [hp.position] at hm'
    exact hm.append hm'
  · intro c' e' hu he'
    obtain ⟨d', hu, hw⟩ := hu.unappend
    obtain ⟨hd', hQ⟩ := hQ d' e' hw he'
    exact ⟨d', hd', hP c' d' hu hd', hQ⟩

end Mendable

/-! ### The repaired tree -/

/-- The tree with a literal for each operand that is missing. -/
def Expr.filled (value : Literal) : Expr → Expr
  | literal v => literal v
  | grouping inner => grouping (inner.filled value)
  | unary operator right => unary operator (right.filled value)
  | binary left operator right => binary (left.filled value) operator (right.filled value)
  | missingLeft operator right => binary (literal value) operator (right.filled value)
  | ternary condition question onTrue colon onFalse =>
    ternary (condition.filled value) question (onTrue.filled value) colon (onFalse.filled value)

theorem Expr.lacksOperand_filled (value : Literal) (e : Expr) :
    (e.filled value).lacksOperand = false := by
  induction e <;> simp_all [filled, lacksOperand]

namespace Goal

open Cursor

/-- The goal of the repaired reading. -/
def filled (value : Literal) : Goal → Goal
  | .level l => .level l
  | .chain rung left => .chain rung (left.filled value)

/-- The kinds of token that carry the tree of the goal on. -/
def carriers : Goal → List Kind
  | .level l => l.carriers
  | .chain rung _ => (Level.rung rung).carriers

/-- From `c` to `d` the goal comes to the tree `e` with reports against the marked tokens.  Over the
mended tokens it comes to the repaired tree, and nothing is reported. -/
def Repaired (leaf : Token) (value : Literal) (goal : Goal) (c : Cursor) (e : Expr) (d : Cursor)
    (marks : List Nat) : Prop :=
  Mendable leaf c d marks goal.carriers fun c' d' =>
    Quiet (goal.filled value) c' (e.filled value) d'

section Steps

variable {goal : Goal} {rung : Rung} {c d f : Cursor} {e left right : Expr} {xs : List Event}
  {leaf : Token} {value : Literal} {marks marks' : List Nat}

/-- An operand and what comes behind it. -/
theorem Repaired.andThen {l : Level} (hk : leaf.kind ∈ literalKinds)
    (hr : Reads (.level l) c left d xs) (h : Repaired leaf value (.level l) c left d marks)
    (h' : Repaired leaf value goal d e f marks') (hs : l.carriers ⊆ goal.carriers) :
    Mendable leaf c f (marks ++ marks') goal.carriers fun c' f' =>
      ∃ d', Quiet (.level l) c' (left.filled value) d' ∧
        Quiet (goal.filled value) d' (e.filled value) f' := by
  have both := h.append h' hr.closes (Level.notMem_carriers_of_literal hk) fun _ => hs
  refine both.imp ?_
  rintro c' f' - ⟨d', -, hleft, hrest⟩
  exact ⟨d', hleft, hrest⟩

/-- An operator without its left operand has the leaf in front of it. -/
theorem Repaired.forgiven (hl : leaf.leaf? = some value) (ho : c.kind ∈ rung.operators)
    (hr : Reads (.level rung.laterOperand) c.next right d xs)
    (h : Repaired leaf value (.level rung.laterOperand) c.next right d marks)
    (h' : Repaired leaf value (.chain rung (.missingLeft c.token right)) d e f marks') :
    Repaired leaf value (.level (.rung rung)) c e f (c.position :: (marks ++ marks')) := by
  have hk := Token.kind_mem_of_leaf? hl
  have tail := h.andThen hk hr h' (Level.carriers_laterOperand_subset rung)
  refine (tail.marked (Kind.ne_eof_of_mem_operators ho)).imp ?_
  rintro c' f' - ⟨⟨hkc, hnc, htc⟩, hko, hto, d', hright, hchain⟩
  have ho' : c'.next.kind ∈ rung.operators := hko ▸ ho
  rw [filled, Expr.filled, ← hto] at hchain
  refine .operand (fun _ => ?_) (.leaf_of_level hnc (htc ▸ hl) ?_) (.link ho' hright hchain)
  · rw [hkc]
    exact Rung.notMem_operators_of_literal hk
  · exact Level.notMem_carriers_firstOperand ho'

theorem Repaired.operand (hk : leaf.kind ∈ literalKinds)
    (ho : rung.forgives → c.kind ∉ rung.operators)
    (hr : Reads (.level rung.firstOperand) c left d xs)
    (h : Repaired leaf value (.level rung.firstOperand) c left d marks)
    (h' : Repaired leaf value (.chain rung left) d e f marks') :
    Repaired leaf value (.level (.rung rung)) c e f (marks ++ marks') := by
  have both := h.andThen hk hr h' (Level.carriers_firstOperand_subset_rung rung)
  by_cases hf : rung.forgives
  · have hc := both.start (ho hf) (Rung.notMem_operators_of_literal hk) fun _ => ?_
    · refine hc.imp ?_
      rintro c' f' - ⟨hc', d', hleft, hchain⟩
      exact .operand (fun _ => hc') hleft hchain
    · exact Level.operators_subset_carriers rung
  · refine both.imp ?_
    rintro c' f' - ⟨d', hleft, hchain⟩
    exact .operand (fun hf' => absurd hf' hf) hleft hchain

theorem Repaired.link (hk : leaf.kind ∈ literalKinds) (ho : c.kind ∈ rung.operators)
    (hr : Reads (.level rung.laterOperand) c.next right d xs)
    (h : Repaired leaf value (.level rung.laterOperand) c.next right d marks)
    (h' : Repaired leaf value (.chain rung (.binary left c.token right)) d e f marks') :
    Repaired leaf value (.chain rung left) c e f (marks ++ marks') := by
  have tail := h.andThen hk hr h' (Level.carriers_laterOperand_subset rung)
  refine (tail.next (Kind.ne_eof_of_mem_operators ho)).imp ?_
  rintro c' f' - ⟨hko, hto, d', hright, hchain⟩
  rw [filled, Expr.filled, ← hto] at hchain
  exact .link (hko ▸ ho) hright hchain

/-- The branches of a choice, with `slot` where the colon is. -/
theorem Repaired.branches {onTrue onFalse : Expr} {g : Cursor} {ys zs : List Event}
    (hk : leaf.kind ∈ literalKinds) (ht : Reads (.level .ternary) d onTrue f ys)
    (hf : Reads (.level .ternary) f.skipColon onFalse g zs)
    (h : Repaired leaf value (.level .ternary) d onTrue f marks)
    (h' : Repaired leaf value (.level .ternary) f.skipColon onFalse g marks') :
    Mendable leaf d g (marks ++ marks') Level.ternary.carriers fun d' g' =>
      ∃ f', Quiet (.level .ternary) d' (onTrue.filled value) f' ∧
        Quiet (.level .ternary) f'.skipColon (onFalse.filled value) g' ∧
        f'.skipColon.passed = f.skipColon.passed := by
  have hlt : leaf.kind ∉ Level.ternary.carriers := Level.notMem_carriers_of_literal hk
  by_cases hc : f.kind = .colon
  · have hne : f.kind ≠ .eof := hc.trans_ne (by simp)
    rw [skipColon_of_kind_eq hc, passed_next hne] at *
    have both := h.append (h'.next hne) ht.closes hlt fun _ => List.Subset.refl _
    refine both.imp ?_
    rintro d' g' - ⟨f', -, hTrue, hkf, htf, hFalse⟩
    have hcf : f'.kind = .colon := hkf.trans hc
    rw [← skipColon_of_kind_eq hcf] at hFalse
    refine ⟨f', hTrue, hFalse, ?_⟩
    rw [skipColon_of_kind_eq hcf, passed_next (hcf.trans_ne (by simp)), htf]
  · -- the leaf in front of the second branch does not carry the first one on and is no colon
    rw [skipColon_of_kind_ne hc] at *
    have first := (h.passed ht.ne).mono (List.subset_cons_self .colon _)
    have hfk : f.kind ∉ .colon :: Level.ternary.carriers := by
      rw [List.mem_cons, not_or]
      exact ⟨hc, ht.closes⟩
    have hlk : leaf.kind ∉ .colon :: Level.ternary.carriers := by
      rw [List.mem_cons, not_or]
      exact ⟨Kind.ne_colon_of_literal hk, hlt⟩
    have both := first.append h' hfk hlk fun heq => absurd heq hf.ne
    refine both.imp ?_
    rintro d' g' - ⟨f', hkf, ⟨hslot, hTrue⟩, hFalse⟩
    have hcf : f'.kind ≠ .colon := (not_or.1 (mt List.mem_cons.2 hkf)).1
    refine ⟨f', hTrue, ?_, ?_⟩
    · rwa [skipColon_of_kind_ne hcf]
    · rw [skipColon_of_kind_ne hcf, hslot]

theorem Repaired.choice {condition onTrue onFalse : Expr} {g : Cursor} {ys zs : List Event}
    {marks'' : List Nat} (hk : leaf.kind ∈ literalKinds)
    (hr : Reads (.level .equality) c condition d xs) (hq : d.kind = .question)
    (ht : Reads (.level .ternary) d.next onTrue f ys)
    (hf : Reads (.level .ternary) f.skipColon onFalse g zs)
    (h : Repaired leaf value (.level .equality) c condition d marks)
    (h' : Repaired leaf value (.level .ternary) d.next onTrue f marks')
    (h'' : Repaired leaf value (.level .ternary) f.skipColon onFalse g marks'') :
    Repaired leaf value (.level .ternary) c
      (.ternary condition d.token onTrue f.skipColon.passed onFalse) g
      (marks ++ (marks' ++ marks'')) := by
  have tail := (Repaired.branches hk ht hf h' h'').next (hq.trans_ne (by simp))
  have both := h.append tail hr.closes (Level.notMem_carriers_of_literal hk) fun _ =>
    List.subset_append_left _ _
  refine both.imp ?_
  rintro c' g' - ⟨d', -, hcondition, hkd, htd, f', hTrue, hFalse, hslot⟩
  have hchoice := hcondition.choice (hkd.trans hq) hTrue hFalse
  rwa [htd, hslot] at hchoice

theorem Repaired.group (ho : c.kind = .openParen)
    (hi : Reads (.level .ternary) c.next e d xs)
    (h : Repaired leaf value (.level .ternary) c.next e d marks) (hd : d.kind = .closeParen)
    (hk : leaf.kind ∈ literalKinds) :
    Repaired leaf value (.level .primary) c (.grouping e) d.next marks := by
  have hne : c.kind ≠ .eof := ho.trans_ne (by simp)
  have hne' : d.kind ≠ .eof := hd.trans_ne (by simp)
  have closing : Mendable leaf d.next d.next [] Level.primary.carriers fun c' d' => c' = d' :=
    .refl fun _ _ => rfl
  have both := (h.append (closing.next hne') hi.closes (Level.notMem_carriers_of_literal hk)
    fun heq => ?_).next hne
  · rw [List.append_nil] at both
    refine both.imp ?_
    rintro c' f' - ⟨hkc, -, d', -, hinner, hkd, -, rfl⟩
    exact .group (hkc.trans ho) hinner (hkd.trans hd)
  · have := position_next hne'
    rw [← heq] at this
    omega

/-- Every derivation has its repaired reading. -/
theorem Reads.repaired (h : Reads goal c e d xs) (hl : leaf.leaf? = some value) :
    Repaired leaf value goal c e d ((reports xs).map Report.index) := by
  have hk : leaf.kind ∈ literalKinds := Token.kind_mem_of_leaf? hl
  induction h with
  | forgiven _ ho hr _ ihRight ihChain => simpa using ihRight.forgiven hl ho hr ihChain
  | operand ho hr _ ihLeft ihChain => simpa using ihLeft.operand hk ho hr ihChain
  | link ho hr _ ihRight ihChain => simpa using ihRight.link hk ho hr ihChain
  | stop => exact .refl fun c' hc' => .stop (Level.notMem_carriers_rung.1 hc').1
  | choice hr hq ht hf ihCondition ihTrue ihFalse =>
    rw [reports_append, reports_append, List.map_append, List.map_append]
    exact .choice hk hr hq ht hf ihCondition ihTrue ihFalse
  | noChoice _ _ ih =>
    refine (ih.mono (List.subset_append_left _ _)).imp ?_
    intro c' d' hd' hquiet
    exact .noChoice hquiet (Level.notMem_carriers_ternary.1 hd').2
  | prefixed ho _ ih =>
    refine (ih.next (Kind.ne_eof_of_mem_unaryOperators ho)).imp ?_
    rintro c' d' - ⟨hkc, htc, hquiet⟩
    have hprefixed := hquiet.prefixed (hkc ▸ ho)
    rwa [htc] at hprefixed
  | primary ho hr ih =>
    have both := ih.start ho (Kind.notMem_unaryOperators_of_literal hk) fun heq => absurd heq hr.ne
    refine both.imp ?_
    rintro c' d' - ⟨hc', hquiet⟩
    exact .primary hc' hquiet
  | @leaf c v hne hv =>
    have rest : Mendable leaf c.next c.next [] Level.primary.carriers fun c' d' => c' = d' :=
      .refl fun _ _ => rfl
    refine (rest.next hne).imp ?_
    rintro c' d' - ⟨hkc, htc, rfl⟩
    exact .leaf (hkc ▸ hne) (htc ▸ hv)
  | group ho hi hd ih => exact ih.group ho hi hd hk

end Steps

end Goal

/-- Where the reported tokens stand. -/
def Reply.marks (r : Reply) : List Nat := (reports r.events).map Report.index

/-- **A repaired list is read to the repaired tree.** Where a list of tokens comes to a tree, it
does so with a leaf in front of each reported token, without a report; each missing operand is the
leaf then, and the cursor ends at the same token. -/
theorem Cursor.readAll_mended {tokens : List Token} {c : Cursor} {e : Expr} {leaf : Token}
    {value : Literal} (start : ofTokens? tokens = some c) (tree : c.readAll.tree? = some e)
    (literal : leaf.leaf? = some value) :
    ∃ c', ofTokens? (mended leaf c.readAll.marks tokens 0) = some c' ∧
      c'.readAll.tree? = some (e.filled value) ∧ (e.filled value).lacksOperand = false ∧
      reports c'.readAll.events = [] ∧
      c'.readAll.cursor.position = c.readAll.cursor.position + c.readAll.marks.length := by
  rcases c.readAll_cases with ⟨e', d, xs, h, hr⟩ | ⟨d, xs, -, hr⟩
  · obtain ⟨last, hlast, hend⟩ := (in_of_ofTokens? start).last
    obtain ⟨hzero, hrest⟩ := start_of_ofTokens? start
    obtain ⟨ts, us, hp, hm, hq⟩ := h.repaired literal
    rw [hr] at tree ⊢
    cases tree
    have hmended : us ++ d.rest = mended leaf (Reply.marks ⟨some e, d, xs⟩) tokens 0 := by
      have hm' := hm.append (.refl leaf _ d.rest)
      rw [← hp.rest, hrest, hzero, List.append_nil] at hm'
      exact hm'.eq_mended fun _ _ => Iff.rfl
    have hlast' : (us ++ d.rest).getLast? = some last := by
      rw [List.getLast?_append, hm.getLast?_eq, ← List.getLast?_append, ← hp.rest, hrest, hlast]
    obtain ⟨c', start'⟩ := exists_ofTokens? hlast' hend
    obtain ⟨hzero', hrest'⟩ := start_of_ofTokens? start'
    obtain ⟨d', hp', hd'⟩ := passes_of_rest hrest' (hm.running literal hp.running)
    have hkind : d'.kind ∉ Level.comma.carriers := by
      rw [kind_congr hd']
      exact h.closes
    obtain ⟨tree, quiet, cursor⟩ := (hq c' d' hp' hkind).readAll
    refine ⟨c', hmended ▸ start', tree, e.lacksOperand_filled value, quiet, ?_⟩
    show c'.readAll.cursor.position = d.position + ((reports xs).map Report.index).length
    rw [cursor, hp'.position, hzero', hm.length, hp.position, hzero]
    omega
  · rw [hr] at tree
    cases tree

section Sample

open Token

/-- Three operators without their left operand, each to the right of the one before. -/
theorem Cursor.readAll_mended_of_three :
    let tokens := [loose .equals "==", loose .greater ">", loose .star "*", loose .kwNil "nil",
      loose .eof ""]
    let c : Cursor := ⟨0, loose .equals "==", tokens⟩
    c.readAll.marks = [0, 1, 2] ∧
      ∃ c', ofTokens? [loose .kwTrue "true", loose .equals "==", loose .kwTrue "true",
          loose .greater ">", loose .kwTrue "true", loose .star "*", loose .kwNil "nil",
          loose .eof ""] = some c' ∧
        c'.readAll.tree? = some (.binary (.literal (.boolean true)) (loose .equals "==")
          (.binary (.literal (.boolean true)) (loose .greater ">")
            (.binary (.literal (.boolean true)) (loose .star "*") (.literal .nil)))) ∧
        reports c'.readAll.events = [] ∧ c'.readAll.cursor.position = 7 := by
  intro tokens c
  have marks : c.readAll.marks = [0, 1, 2] := by decide +kernel
  have position : c.readAll.cursor.position = 4 := by decide +kernel
  have tree : c.readAll.tree? = some (.missingLeft (loose .equals "==")
      (.missingLeft (loose .greater ">") (.missingLeft (loose .star "*") (.literal .nil)))) := by
    decide +kernel
  have start : ofTokens? tokens = some c := rfl
  have leaf : (loose .kwTrue "true").leaf? = some (.boolean true) := rfl
  obtain ⟨c', start', whole, -, quiet, ends⟩ := Cursor.readAll_mended start tree leaf
  rw [marks] at start' ends
  rw [position] at ends
  exact ⟨marks, c', start', whole, quiet, ends⟩

end Sample

end LoxReader
