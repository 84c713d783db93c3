import LoxReader.Proofs.Grammar.Passage

/-!
# Derivations

Reading as two relations, one for what comes to a tree and one for what comes to nothing, with a
rule for each way a level goes on.  Every goal has a derivation at every cursor, and it is the one
that reading finds; so what is said of a reading is proved by induction on its derivation.
-/

namespace LoxReader

/-! ### Leaves -/

/-- The literal that a token is by itself. -/
def Token.leaf? (t : Token) : Option Literal :=
  match t.kind with
  | .kwFalse => some (.boolean false)
  | .kwTrue => some (.boolean true)
  | .kwNil => some .nil
  | .number | .string => t.value?
  | _ => none

/-- A number or string token that has no value. -/
def Token.Worthless (t : Token) : Prop := (t.kind = .number ∨ t.kind = .string) ∧ t.value? = none

instance (t : Token) : Decidable t.Worthless := by unfold Token.Worthless; infer_instance

/-- The kinds of token that may be a leaf. -/
def literalKinds : List Kind := [.kwFalse, .kwTrue, .kwNil, .number, .string]

/-- What an expression of the tightest level begins with. -/
def primaryKinds : List Kind := literalKinds ++ [.openParen]

theorem Token.kind_mem_of_leaf? {t : Token} {value : Literal} (h : t.leaf? = some value) :
    t.kind ∈ literalKinds := by
  unfold leaf? at h
  split at h <;> simp_all [literalKinds]

theorem Kind.ne_eof_of_literal {k : Kind} (h : k ∈ literalKinds) : k ≠ .eof := by
  rintro rfl
  simp [literalKinds] at h

theorem Kind.ne_colon_of_literal {k : Kind} (h : k ∈ literalKinds) : k ≠ .colon := by
  rintro rfl
  simp [literalKinds] at h

theorem Kind.notMem_unaryOperators_of_literal {k : Kind} (h : k ∈ literalKinds) :
    k ∉ unaryOperators := by
  revert k
  decide

/-! ### The rules -/

/-- From `c` a goal comes to the tree `e`, with the cursor at `d` and these events. -/
inductive Goal.Reads : Goal → Cursor → Expr → Cursor → List Event → Prop
  /-- An operator without its left operand is reported and passed. -/
  | forgiven {rung c right d e f xs ys} (forgives : rung.forgives)
      (operator : c.kind ∈ rung.operators) :
      Reads (.level rung.laterOperand) c.next right d xs →
      Reads (.chain rung (.missingLeft c.token right)) d e f ys →
      Reads (.level (.rung rung)) c e f
        (.entered rung c.position :: .reported c.position c.token .missingOperand :: (xs ++ ys))
  | operand {rung c left d e f xs ys} (operand : rung.forgives → c.kind ∉ rung.operators) :
      Reads (.level rung.firstOperand) c left d xs →
      Reads (.chain rung left) d e f ys →
      Reads (.level (.rung rung)) c e f (.entered rung c.position :: (xs ++ ys))
  | link {rung left c right d e f xs ys} (operator : c.kind ∈ rung.operators) :
      Reads (.level rung.laterOperand) c.next right d xs →
      Reads (.chain rung (.binary left c.token right)) d e f ys →
      Reads (.chain rung left) c e f (xs ++ ys)
  | stop {rung left c} (other : c.kind ∉ rung.operators) : Reads (.chain rung left) c left c []
  | choice {c condition d onTrue e onFalse f xs ys zs} :
      Reads (.level .equality) c condition d xs → d.kind = .question →
      Reads (.level .ternary) d.next onTrue e ys →
      Reads (.level .ternary) e.skipColon onFalse f zs →
      Reads (.level .ternary) c (.ternary condition d.token onTrue e.skipColon.passed onFalse) f
        (xs ++ (ys ++ zs))
  | noChoice {c e d xs} : Reads (.level .equality) c e d xs → d.kind ≠ .question →
      Reads (.level .ternary) c e d xs
  | prefixed {c right d xs} (operator : c.kind ∈ unaryOperators) :
      Reads (.level .unary) c.next right d xs →
      Reads (.level .unary) c (.unary c.token right) d xs
  | primary {c e d xs} (other : c.kind ∉ unaryOperators) : Reads (.level .primary) c e d xs →
      Reads (.level .unary) c e d xs
  | leaf {c value} (running : c.kind ≠ .eof) (leaf : c.token.leaf? = some value) :
      Reads (.level .primary) c (.literal value) c.next []
  | group {c inner d xs} (opens : c.kind = .openParen) :
      Reads (.level .ternary) c.next inner d xs → d.kind = .closeParen →
      Reads (.level .primary) c (.grouping inner) d.next xs

/-- From `c` a goal comes to nothing, with the cursor at `d` and these events. -/
inductive Goal.Fails : Goal → Cursor → Cursor → List Event → Prop
  | forgiven {rung c d xs} (forgives : rung.forgives) (operator : c.kind ∈ rung.operators) :
      Fails (.level rung.laterOperand) c.next d xs →
      Fails (.level (.rung rung)) c d
        (.entered rung c.position :: .reported c.position c.token .missingOperand :: xs)
  | forgivenChain {rung c right d e xs ys} (forgives : rung.forgives)
      (operator : c.kind ∈ rung.operators) :
      Reads (.level rung.laterOperand) c.next right d xs →
      Fails (.chain rung (.missingLeft c.token right)) d e ys →
      Fails (.level (.rung rung)) c e
        (.entered rung c.position :: .reported c.position c.token .missingOperand :: (xs ++ ys))
  | operand {rung c d xs} (operand : rung.forgives → c.kind ∉ rung.operators) :
      Fails (.level rung.firstOperand) c d xs →
      Fails (.level (.rung rung)) c d (.entered rung c.position :: xs)
  | operandChain {rung c left d e xs ys} (operand : rung.forgives → c.kind ∉ rung.operators) :
      Reads (.level rung.firstOperand) c left d xs →
      Fails (.chain rung left) d e ys →
      Fails (.level (.rung rung)) c e (.entered rung c.position :: (xs ++ ys))
  | link {rung left c d xs} (operator : c.kind ∈ rung.operators) :
      Fails (.level rung.laterOperand) c.next d xs → Fails (.chain rung left) c d xs
  | linkChain {rung left c right d e xs ys} (operator : c.kind ∈ rung.operators) :
      Reads (.level rung.laterOperand) c.next right d xs →
      Fails (.chain rung (.binary left c.token right)) d e ys →
      Fails (.chain rung left) c e (xs ++ ys)
  | condition {c d xs} : Fails (.level .equality) c d xs → Fails (.level .ternary) c d xs
  | onTrue {c condition d e xs ys} : Reads (.level .equality) c condition d xs →
      d.kind = .question → Fails (.level .ternary) d.next e ys →
      Fails (.level .ternary) c e (xs ++ ys)
  | onFalse {c condition d onTrue e f xs ys zs} : Reads (.level .equality) c condition d xs →
      d.kind = .question → Reads (.level .ternary) d.next onTrue e ys →
      Fails (.level .ternary) e.skipColon f zs → Fails (.level .ternary) c f (xs ++ (ys ++ zs))
  | prefixed {c d xs} (operator : c.kind ∈ unaryOperators) : Fails (.level .unary) c.next d xs →
      Fails (.level .unary) c d xs
  | primary {c d xs} (other : c.kind ∉ unaryOperators) : Fails (.level .primary) c d xs →
      Fails (.level .unary) c d xs
  /-- The token without a value is passed before it is reported. -/
  | worthless {c} (worthless : c.token.Worthless) (running : c.kind ≠ .eof) :
      Fails (.level .primary) c c.next [.reported c.next.position c.token .noExpression]
  | group {c d xs} (opens : c.kind = .openParen) : Fails (.level .ternary) c.next d xs →
      Fails (.level .primary) c d xs
  | unclosed {c inner d xs} (opens : c.kind = .openParen) :
      Reads (.level .ternary) c.next inner d xs → d.kind ≠ .closeParen →
      Fails (.level .primary) c d (xs ++ [.reported d.position d.token .openGroup])
  | stray {c} (other : c.kind ∉ primaryKinds) :
      Fails (.level .primary) c c [.reported c.position c.token .noExpression]

/-! ### A derivation tells what is read -/

/-- The reply to a goal. -/
def Goal.run : Goal → Cursor → Reply
  | .level l, c => c.read l
  | .chain rung left, c => c.readChain rung left

namespace Cursor

variable {c d : Cursor} {rung : Rung} {left : Expr}

theorem forgives_and_seesAny_iff :
    (rung.forgives && c.seesAny rung.operators) = true ↔
      rung.forgives ∧ c.kind ∈ rung.operators := by
  rw [Bool.and_eq_true, seesAny_operators]

theorem read_forgiven (hf : rung.forgives) (ho : c.kind ∈ rung.operators) :
    c.read (.rung rung) =
      ((c.next.read rung.laterOperand).andThen fun right d =>
        d.readChain rung (.missingLeft c.token right)).after
          [.entered rung c.position, .reported c.position c.token .missingOperand] := by
  rw [read_rung, if_pos (forgives_and_seesAny_iff.2 ⟨hf, ho⟩)]

theorem read_operand (h : rung.forgives → c.kind ∉ rung.operators) :
    c.read (.rung rung) =
      ((c.read rung.firstOperand).andThen fun left d => d.readChain rung left).after
        [.entered rung c.position] := by
  rw [read_rung, if_neg]
  intro hs
  obtain ⟨hf, ho⟩ := forgives_and_seesAny_iff.1 hs
  exact h hf ho

theorem readChain_link (h : c.kind ∈ rung.operators) :
    c.readChain rung left =
      (c.next.read rung.laterOperand).andThen fun right d =>
        d.readChain rung (.binary left c.token right) := by
  rw [readChain_eq, if_pos (seesAny_operators.2 h)]

theorem readChain_stop (h : c.kind ∉ rung.operators) : c.readChain rung left = .done left c := by
  rw [readChain_eq, if_neg (mt seesAny_operators.1 h)]

theorem read_prefixed (h : c.kind ∈ unaryOperators) :
    c.read .unary = (c.next.read .unary).andThen fun right d => .done (.unary c.token right) d := by
  rw [read_unary, if_pos (seesAny_unaryOperators.2 h)]

theorem read_notPrefixed (h : c.kind ∉ unaryOperators) : c.read .unary = c.read .primary := by
  rw [read_unary, if_neg (mt seesAny_unaryOperators.1 h)]

theorem read_leaf {value : Literal} (h : c.kind ≠ .eof) (hl : c.token.leaf? = some value) :
    c.read .primary = .done (.literal value) c.next := by
  rw [read_primary]
  unfold Token.leaf? at hl
  rw [kind_token h] at hl
  split at hl <;> simp_all

theorem read_worthless (h : c.kind ≠ .eof) (hw : c.token.Worthless) :
    c.read .primary = .fail c.next c.token .noExpression := by
  obtain ⟨hk, hv⟩ := hw
  rw [kind_token h] at hk
  rw [read_primary]
  rcases hk with hk | hk <;> simp [hk, hv]

theorem read_group (h : c.kind = .openParen) :
    c.read .primary =
      (c.next.read .ternary).andThen fun inner d =>
        if d.sees .closeParen then .done (.grouping inner) d.next
        else .fail d d.token .openGroup := by
  rw [read_primary, h]

theorem read_stray (h : c.kind ∉ primaryKinds) :
    c.read .primary = .fail c c.token .noExpression := by
  rw [read_primary]
  split <;> simp_all [primaryKinds, literalKinds]

end Cursor

namespace Reply

variable {tree : Expr} {c : Cursor} {events : List Event} {next : Expr → Cursor → Reply}

theorem andThen_some :
    (⟨some tree, c, events⟩ : Reply).andThen next = (next tree c).after events := rfl

theorem andThen_none : (⟨none, c, events⟩ : Reply).andThen next = ⟨none, c, events⟩ := rfl

end Reply

namespace Goal

open Cursor Reply

variable {goal : Goal} {c d : Cursor} {e : Expr} {l : Level} {xs : List Event}

theorem Reads.run_eq (h : Reads goal c e d xs) : goal.run c = ⟨some e, d, xs⟩ := by
  induction h with
  | forgiven hf ho _ _ ihRight ihChain =>
    simp only [run] at ihRight ihChain
    rw [run, read_forgiven hf ho, ihRight, andThen_some, ihChain]
    rfl
  | operand h _ _ ihLeft ihChain =>
    simp only [run] at ihLeft ihChain
    rw [run, read_operand h, ihLeft, andThen_some, ihChain]
    rfl
  | link h _ _ ihRight ihChain =>
    simp only [run] at ihRight ihChain
    rw [run, readChain_link h, ihRight, andThen_some, ihChain]
    rfl
  | stop h => rw [run, readChain_stop h]; rfl
  | choice _ hq _ _ ihCondition ihTrue ihFalse =>
    simp only [run] at ihCondition ihTrue ihFalse
    rw [run, read_ternary, ihCondition, andThen_some, if_pos ((sees_iff (by decide)).2 hq), ihTrue,
      andThen_some, ihFalse, andThen_some]
    simp [done, after]
  | noChoice _ hq ih =>
    simp only [run] at ih
    rw [run, read_ternary, ih, andThen_some, if_neg (mt (sees_iff (by decide)).1 hq)]
    simp [done, after]
  | prefixed h _ ih =>
    simp only [run] at ih
    rw [run, read_prefixed h, ih, andThen_some]
    simp [done, after]
  | primary h _ ih => rw [run, read_notPrefixed h]; exact ih
  | leaf h hl => rw [run, read_leaf h hl]; rfl
  | group h _ hd ih =>
    simp only [run] at ih
    rw [run, read_group h, ih, andThen_some, if_pos ((sees_iff (by decide)).2 hd)]
    simp [done, after]

theorem Fails.run_eq (h : Fails goal c d xs) : goal.run c = ⟨none, d, xs⟩ := by
  induction h with
  | forgiven hf ho _ ih =>
    simp only [run] at ih
    rw [run, read_forgiven hf ho, ih, andThen_none]
    rfl
  | forgivenChain hf ho hr _ ih =>
    have hr := hr.run_eq
    simp only [run] at hr ih
    rw [run, read_forgiven hf ho, hr, andThen_some, ih]
    rfl
  | operand h _ ih =>
    simp only [run] at ih
    rw [run, read_operand h, ih, andThen_none]
    rfl
  | operandChain h hl _ ih =>
    have hl := hl.run_eq
    simp only [run] at hl ih
    rw [run, read_operand h, hl, andThen_some, ih]
    rfl
  | link h _ ih =>
    simp only [run] at ih
    rw [run, readChain_link h, ih, andThen_none]
  | linkChain h hr _ ih =>
    have hr := hr.run_eq
    simp only [run] at hr ih
    rw [run, readChain_link h, hr, andThen_some, ih]
    rfl
  | condition _ ih =>
    simp only [run] at ih
    rw [run, read_ternary, ih, andThen_none]
  | onTrue hc hq _ ih =>
    have hc := hc.run_eq
    simp only [run] at hc ih
    rw [run, read_ternary, hc, andThen_some, if_pos ((sees_iff (by decide)).2 hq), ih]
    rfl
  | onFalse hc hq ht _ ih =>
    have hc := hc.run_eq
    have ht := ht.run_eq
    simp only [run] at hc ht ih
    rw [run, read_ternary, hc, andThen_some, if_pos ((sees_iff (by decide)).2 hq), ht,
      andThen_some, ih]
    rfl
  | prefixed h _ ih =>
    simp only [run] at ih
    rw [run, read_prefixed h, ih, andThen_none]
  | primary h _ ih => rw [run, read_notPrefixed h]; exact ih
  | worthless hw h => rw [run, read_worthless h hw]; rfl
  | group h _ ih =>
    simp only [run] at ih
    rw [run, read_group h, ih, andThen_none]
  | unclosed h hi hd =>
    have hi := hi.run_eq
    simp only [run] at hi
    rw [run, read_group h, hi, andThen_some, if_neg (mt (sees_iff (by decide)).1 hd)]
    rfl
  | stray h => rw [run, read_stray h]; rfl

/-! ### Every goal has a derivation -/

theorem Reads.remaining_lt (h : Reads (.level l) c e d xs) : d.remaining < c.remaining := by
  have hr : (Goal.reply (.level l) c).1 = ⟨some e, d, xs⟩ := h.run_eq
  have hf := (Goal.reply (.level l) c).2
  rw [hr] at hf
  exact hf.2 rfl rfl

theorem Reads.ne (h : Reads (.level l) c e d xs) : c ≠ d := by
  rintro rfl
  exact absurd h.remaining_lt (Nat.lt_irrefl _)

/-- A goal comes to a tree or to nothing. -/
def Ends (goal : Goal) (c : Cursor) : Prop :=
  (∃ e d xs, Reads goal c e d xs) ∨ ∃ d xs, Fails goal c d xs

/-- What every goal asks of the ones that follow it: they end behind the cursor, and the levels that
are tighter end at the cursor. -/
structure Grounded (c : Cursor) (n : Nat) : Prop where
  behind : ∀ goal d, d.remaining < c.remaining → Ends goal d
  tighter : ∀ l : Level, n < l.rank → Ends (.level l) c

theorem ends_chain {rung : Rung} (left : Expr)
    (h : ∀ goal d, d.remaining < c.remaining → Ends goal d) :
    Ends (.chain rung left) c := by
  by_cases ho : c.kind ∈ rung.operators
  · have hc := remaining_next_lt_of_kind_ne (Kind.ne_eof_of_mem_operators ho)
    rcases h (.level rung.laterOperand) c.next hc with ⟨right, d, xs, hr⟩ | ⟨d, xs, hr⟩
    · have hd := hr.remaining_lt
      rcases h (.chain rung (.binary left c.token right)) d (by omega) with
        ⟨e, f, ys, he⟩ | ⟨f, ys, he⟩
      · exact .inl ⟨e, f, _, .link ho hr he⟩
      · exact .inr ⟨f, _, .linkChain ho hr he⟩
    · exact .inr ⟨d, _, .link ho hr⟩
  · exact .inl ⟨left, c, [], .stop ho⟩

theorem ends_rung {rung : Rung} (h : Grounded c (Level.rung rung).rank) :
    Ends (.level (.rung rung)) c := by
  by_cases ho : rung.forgives ∧ c.kind ∈ rung.operators
  · obtain ⟨hf, ho⟩ := ho
    have hc := remaining_next_lt_of_kind_ne (Kind.ne_eof_of_mem_operators ho)
    rcases h.behind (.level rung.laterOperand) c.next hc with ⟨right, d, xs, hr⟩ | ⟨d, xs, hr⟩
    · have hd := hr.remaining_lt
      rcases h.behind (.chain rung (.missingLeft c.token right)) d (by omega) with
        ⟨e, f, ys, he⟩ | ⟨f, ys, he⟩
      · exact .inl ⟨e, f, _, .forgiven hf ho hr he⟩
      · exact .inr ⟨f, _, .forgivenChain hf ho hr he⟩
    · exact .inr ⟨d, _, .forgiven hf ho hr⟩
  · have ho : rung.forgives → c.kind ∉ rung.operators := by
      intro hf hk
      exact ho ⟨hf, hk⟩
    rcases h.tighter rung.firstOperand rung.rank_lt_rank_firstOperand with
      ⟨left, d, xs, hl⟩ | ⟨d, xs, hl⟩
    · have hd := hl.remaining_lt
      rcases h.behind (.chain rung left) d hd with ⟨e, f, ys, he⟩ | ⟨f, ys, he⟩
      · exact .inl ⟨e, f, _, .operand ho hl he⟩
      · exact .inr ⟨f, _, .operandChain ho hl he⟩
    · exact .inr ⟨d, _, .operand ho hl⟩

theorem ends_ternary (h : Grounded c Level.ternary.rank) : Ends (.level .ternary) c := by
  rcases h.tighter .equality (by decide) with ⟨condition, d, xs, hc⟩ | ⟨d, xs, hc⟩
  · have hd := hc.remaining_lt
    by_cases hq : d.kind = .question
    · have hn := remaining_next_lt_of_kind_ne (hq.trans_ne (by simp))
      rcases h.behind (.level .ternary) d.next (by omega) with ⟨onTrue, e, ys, ht⟩ | ⟨e, ys, ht⟩
      · have he := ht.remaining_lt
        have hs := e.remaining_skipColon_le
        rcases h.behind (.level .ternary) e.skipColon (by omega) with
          ⟨onFalse, f, zs, hf⟩ | ⟨f, zs, hf⟩
        · exact .inl ⟨_, f, _, .choice hc hq ht hf⟩
        · exact .inr ⟨f, _, .onFalse hc hq ht hf⟩
      · exact .inr ⟨e, _, .onTrue hc hq ht⟩
    · exact .inl ⟨condition, d, xs, .noChoice hc hq⟩
  · exact .inr ⟨d, xs, .condition hc⟩

theorem ends_unary (h : Grounded c Level.unary.rank) : Ends (.level .unary) c := by
  by_cases ho : c.kind ∈ unaryOperators
  · have hc := remaining_next_lt_of_kind_ne (Kind.ne_eof_of_mem_unaryOperators ho)
    rcases h.behind (.level .unary) c.next hc with ⟨right, d, xs, hr⟩ | ⟨d, xs, hr⟩
    · exact .inl ⟨_, d, xs, .prefixed ho hr⟩
    · exact .inr ⟨d, xs, .prefixed ho hr⟩
  · rcases h.tighter .primary (by decide) with ⟨e, d, xs, hp⟩ | ⟨d, xs, hp⟩
    · exact .inl ⟨e, d, xs, .primary ho hp⟩
    · exact .inr ⟨d, xs, .primary ho hp⟩

theorem ends_primary (h : Grounded c Level.primary.rank) : Ends (.level .primary) c := by
  by_cases hk : c.kind ∈ primaryKinds
  · have hne : c.kind ≠ .eof := by
      intro he
      rw [he] at hk
      simp [primaryKinds, literalKinds] at hk
    by_cases ho : c.kind = .openParen
    · rcases h.behind (.level .ternary) c.next (remaining_next_lt_of_kind_ne hne) with
        ⟨inner, d, xs, hi⟩ | ⟨d, xs, hi⟩
      · by_cases hd : d.kind = .closeParen
        · exact .inl ⟨_, _, xs, .group ho hi hd⟩
        · exact .inr ⟨d, _, .unclosed ho hi hd⟩
      · exact .inr ⟨d, xs, .group ho hi⟩
    · cases hl : c.token.leaf? with
      | some value => exact .inl ⟨_, _, [], .leaf hne hl⟩
      | none =>
        refine .inr ⟨_, _, .worthless ?_ hne⟩
        unfold Token.leaf? at hl
        unfold Token.Worthless
        rw [kind_token hne] at hl ⊢
        revert hk hl
        split <;> simp_all [primaryKinds, literalKinds]
  · exact .inr ⟨c, _, .stray hk⟩

/-- Every goal ends: behind the cursor by induction on what is left of the tokens, at the cursor by
going down the ladder. -/
theorem ends (goal : Goal) (c : Cursor) : Ends goal c := by
  induction hn : c.remaining using Nat.strongRecOn generalizing goal c with
  | ind n ih =>
    subst hn
    have behind : ∀ goal d, d.remaining < c.remaining → Ends goal d := by
      intro goal d hd
      exact ih d.remaining hd goal d rfl
    have level : ∀ k l, 8 ≤ k + Level.rank l → Ends (.level l) c := by
      intro k
      induction k with
      | zero =>
        intro l hl
        have := l.rank_lt
        omega
      | succ k ihk =>
        intro l hl
        have hg : Grounded c l.rank := ⟨behind, fun l' hl' => ihk l' (by omega)⟩
        cases l with
        | rung rung => exact ends_rung hg
        | ternary => exact ends_ternary hg
        | unary => exact ends_unary hg
        | primary => exact ends_primary hg
    cases goal with
    | level l => exact level 8 l (by omega)
    | chain rung left => exact ends_chain left behind

theorem reads_iff : Reads goal c e d xs ↔ goal.run c = ⟨some e, d, xs⟩ := by
  refine ⟨Reads.run_eq, ?_⟩
  intro h
  rcases ends goal c with ⟨e', d', xs', hr⟩ | ⟨d', xs', hf⟩
  · have he := hr.run_eq
    rw [h] at he
    cases he
    exact hr
  · have he := hf.run_eq
    rw [h] at he
    cases he

theorem fails_iff : Fails goal c d xs ↔ goal.run c = ⟨none, d, xs⟩ := by
  refine ⟨Fails.run_eq, ?_⟩
  intro h
  rcases ends goal c with ⟨e', d', xs', hr⟩ | ⟨d', xs', hf⟩
  · have he := hr.run_eq
    rw [h] at he
    cases he
  · have he := hf.run_eq
    rw [h] at he
    cases he
    exact hf

theorem reads_of_tree?_eq_some (h : (c.read l).tree? = some e) :
    Reads (.level l) c e (c.read l).cursor (c.read l).events := by
  rw [reads_iff, run, ← h]

end Goal

namespace Cursor

variable {c d : Cursor} {e : Expr} {xs : List Event}

theorem readAll_of_some (h : (c.read .comma).tree? = some e) : c.readAll = c.read .comma := by
  simp only [readAll, h]

theorem readAll_of_none (h : (c.read .comma).tree? = none) :
    c.readAll =
      { c.read .comma with
        events := (c.read .comma).events ++ [.abandoned (c.read .comma).cursor.position] } := by
  simp only [readAll, h]

/-- An expression that is abandoned leaves the cursor where it is. -/
theorem readAll_cursor (c : Cursor) : c.readAll.cursor = (c.read .comma).cursor := by
  cases h : (c.read .comma).tree? with
  | some e => rw [readAll_of_some h]
  | none => rw [readAll_of_none h]

theorem readAll_of_reads (h : Goal.Reads (.level .comma) c e d xs) :
    c.readAll = ⟨some e, d, xs⟩ := by
  have hr : c.read .comma = ⟨some e, d, xs⟩ := h.run_eq
  rw [readAll, hr]

theorem readAll_of_fails (h : Goal.Fails (.level .comma) c d xs) :
    c.readAll = ⟨none, d, xs ++ [.abandoned d.position]⟩ := by
  have hr : c.read .comma = ⟨none, d, xs⟩ := h.run_eq
  rw [readAll, hr]

/-- A whole expression either has a derivation of its tree or a derivation of its failure. -/
theorem readAll_cases (c : Cursor) :
    (∃ e d xs, Goal.Reads (.level .comma) c e d xs ∧ c.readAll = ⟨some e, d, xs⟩) ∨
      ∃ d xs, Goal.Fails (.level .comma) c d xs ∧
        c.readAll = ⟨none, d, xs ++ [.abandoned d.position]⟩ := by
  rcases Goal.ends (.level .comma) c with ⟨e, d, xs, h⟩ | ⟨d, xs, h⟩
  · exact .inl ⟨e, d, xs, h, readAll_of_reads h⟩
  · exact .inr ⟨d, xs, h, readAll_of_fails h⟩

theorem exists_reads_of_readAll (h : c.readAll.tree? = some e) :
    ∃ d xs, Goal.Reads (.level .comma) c e d xs := by
  rcases c.readAll_cases with ⟨e', d, xs, reads, reply⟩ | ⟨d, xs, -, reply⟩
  · rw [reply] at h
    cases h
    exact ⟨d, xs, reads⟩
  · rw [reply] at h
    cases h

end Cursor
end LoxReader
