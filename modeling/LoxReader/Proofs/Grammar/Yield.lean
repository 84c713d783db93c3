import LoxReader.Proofs.Grammar.Derivation

/-!
# The tokens of a tree

`Expr.Yields` says which tokens a tree was written with, in their order.  Whatever is read yields
exactly the tokens it was read from: none is lost, none is there twice and none is moved.
-/

namespace LoxReader

/-- The tree is written with these tokens.  A colon that was left out has the last token in front of
it in its slot. -/
inductive Expr.Yields : Expr → List Token → Prop
  | literal {value t} (leaf : t.leaf? = some value) : Yields (.literal value) [t]
  | grouping {inner opening ts closing} (opens : opening.kind = .openParen) : Yields inner ts →
      closing.kind = .closeParen → Yields (.grouping inner) (opening :: ts ++ [closing])
  | unary {operator right ts} : Yields right ts → Yields (.unary operator right) (operator :: ts)
  | binary {left operator right ts us} : Yields left ts → Yields right us →
      Yields (.binary left operator right) (ts ++ operator :: us)
  | missingLeft {operator right ts} : Yields right ts →
      Yields (.missingLeft operator right) (operator :: ts)
  | colon {condition question onTrue colon onFalse ts us vs} : Yields condition ts →
      Yields onTrue us → colon.kind = .colon → Yields onFalse vs →
      Yields (.ternary condition question onTrue colon onFalse)
        (ts ++ question :: us ++ colon :: vs)
  | noColon {condition question onTrue slot onFalse ts us vs} : Yields condition ts →
      Yields onTrue us → us.getLast? = some slot → slot.kind ≠ .colon → Yields onFalse vs →
      Yields (.ternary condition question onTrue slot onFalse) (ts ++ question :: us ++ vs)

namespace Expr.Yields

variable {e : Expr} {ts : List Token}

/-- The last token of a tree is a leaf or closes a group. -/
theorem exists_getLast? (h : e.Yields ts) :
    ∃ t, ts.getLast? = some t ∧ (t.leaf?.isSome ∨ t.kind = .closeParen) := by
  induction h with
  | @literal value t leaf => exact ⟨t, rfl, .inl (by rw [leaf]; rfl)⟩
  | @grouping inner opening ts closing _ _ closes _ =>
    exact ⟨closing, List.getLast?_concat, .inr closes⟩
  | unary _ ih | missingLeft _ ih | binary _ _ _ ih | colon _ _ _ _ _ _ ih
  | noColon _ _ _ _ _ _ _ ih =>
    obtain ⟨t, ht, hk⟩ := ih
    exact ⟨t, by simp [List.getLast?_append, List.getLast?_cons, ht], hk⟩

theorem getLast?_kind_ne_colon (h : e.Yields ts) {t : Token} (ht : ts.getLast? = some t) :
    t.kind ≠ .colon := by
  obtain ⟨u, hu, hk⟩ := h.exists_getLast?
  rw [ht] at hu
  cases hu
  rcases hk with hk | hk
  · obtain ⟨value, hv⟩ := Option.isSome_iff_exists.1 hk
    exact Kind.ne_colon_of_literal (Token.kind_mem_of_leaf? hv)
  · rw [hk]
    simp

theorem ne_nil (h : e.Yields ts) : ts ≠ [] := by
  rintro rfl
  obtain ⟨t, ht, -⟩ := h.exists_getLast?
  cases ht

/-- The tokens of a choice, with its colon or without. -/
theorem choice_cases {condition onTrue onFalse : Expr} {question slot : Token}
    (h : (ternary condition question onTrue slot onFalse).Yields ts) :
    ∃ us vs ws rest, ts = us ++ question :: (vs ++ rest) ∧
      condition.Yields us ∧ onTrue.Yields vs ∧ onFalse.Yields ws ∧
      (slot.kind = .colon ∧ rest = slot :: ws ∨
        slot.kind ≠ .colon ∧ vs.getLast? = some slot ∧ rest = ws) := by
  cases h with
  | @colon _ _ _ _ _ us vs ws hc ht hk hf =>
    exact ⟨us, vs, ws, _, by simp, hc, ht, hf, .inl ⟨hk, rfl⟩⟩
  | @noColon _ _ _ _ _ us vs ws hc ht hl hk hf =>
    exact ⟨us, vs, ws, _, by simp, hc, ht, hf, .inr ⟨hk, hl, rfl⟩⟩

end Expr.Yields

/-- What the tokens passed for a goal make.  Those of a chain come behind its operand. -/
def Goal.Makes (goal : Goal) (ts : List Token) (e : Expr) : Prop :=
  match goal with
  | .level _ => e.Yields ts
  | .chain _ left => ∀ us, left.Yields us → e.Yields (us ++ ts)

namespace Goal

open Cursor

variable {goal : Goal} {c d : Cursor} {e : Expr} {xs : List Event}

/-- The tree of a derivation is written with the tokens that were passed. -/
theorem Reads.makes (h : Reads goal c e d xs) : ∃ ts, c.Passes ts d ∧ goal.Makes ts e := by
  induction h with
  | forgiven _ ho _ _ ihRight ihChain =>
    obtain ⟨ts, hp, ht⟩ := ihRight
    obtain ⟨us, hq, hu⟩ := ihChain
    have hc := Kind.ne_eof_of_mem_operators ho
    exact ⟨_, (hp.next hc).trans hq, hu _ (.missingLeft ht)⟩
  | operand _ _ _ ihLeft ihChain =>
    obtain ⟨ts, hp, ht⟩ := ihLeft
    obtain ⟨us, hq, hu⟩ := ihChain
    exact ⟨_, hp.trans hq, hu _ ht⟩
  | link ho _ _ ihRight ihChain =>
    obtain ⟨ts, hp, ht⟩ := ihRight
    obtain ⟨us, hq, hu⟩ := ihChain
    refine ⟨_, (hp.next (Kind.ne_eof_of_mem_operators ho)).trans hq, fun vs hv => ?_⟩
    rw [← List.append_assoc]
    exact hu _ (.binary hv ht)
  | stop => exact ⟨[], .refl _, fun us hu => by rwa [List.append_nil]⟩
  | @choice c condition d onTrue e onFalse f _ _ _ _ hq _ _ ihCondition ihTrue ihFalse =>
    obtain ⟨ts, hp, ht⟩ := ihCondition
    obtain ⟨us, hq', hu⟩ := ihTrue
    obtain ⟨vs, hr, hv⟩ := ihFalse
    have hpq := hp.trans (hq'.next (hq.trans_ne (by simp)))
    by_cases he : e.kind = .colon
    · have hne : e.kind ≠ .eof := he.trans_ne (by simp)
      rw [skipColon_of_kind_eq he] at hr ⊢
      rw [passed_next hne]
      have hk : e.token.kind = .colon := by rw [kind_token hne, he]
      exact ⟨_, hpq.trans (hr.next hne), .colon ht hu hk hv⟩
    · rw [skipColon_of_kind_ne he] at hr ⊢
      obtain ⟨t, hl, -⟩ := hu.exists_getLast?
      have hs : us.getLast? = some e.passed := by rw [hq'.passed, hl]; rfl
      exact ⟨_, hpq.trans hr, .noColon ht hu hs (hu.getLast?_kind_ne_colon hs) hv⟩
  | noChoice _ _ ih => exact ih
  | prefixed ho _ ih =>
    obtain ⟨ts, hp, ht⟩ := ih
    exact ⟨_, hp.next (Kind.ne_eof_of_mem_unaryOperators ho), .unary ht⟩
  | primary _ _ ih => exact ih
  | leaf hc hl => exact ⟨_, passes_next hc, .literal hl⟩
  | @group c inner d xs ho _ hd ih =>
    obtain ⟨ts, hp, ht⟩ := ih
    have hc : c.kind ≠ .eof := ho.trans_ne (by simp)
    have hd' : d.kind ≠ .eof := hd.trans_ne (by simp)
    refine ⟨_, (hp.next hc).trans (passes_next hd'), .grouping ?_ ht ?_⟩
    · rw [kind_token hc, ho]
    · rw [kind_token hd', hd]

theorem Reads.in {tokens : List Token} (h : Reads goal c e d xs) (hc : c.In tokens) :
    d.In tokens := by
  obtain ⟨ts, hp, -⟩ := h.makes
  exact hc.passes hp

end Goal

/-- **No token is lost, doubled or moved.** A level that comes to a tree has moved the cursor
forward, and the tree is written with exactly the tokens between the two positions. -/
theorem Cursor.read_yields {tokens : List Token} {c : Cursor} {e : Expr} (level : Level)
    (hc : c.In tokens) (he : (c.read level).tree? = some e) :
    c.position < (c.read level).cursor.position ∧ (c.read level).cursor.In tokens ∧
      e.Yields ((tokens.drop c.position).take ((c.read level).cursor.position - c.position)) := by
  obtain ⟨ts, hp, ht⟩ := (Goal.reads_of_tree?_eq_some he).makes
  refine ⟨?_, hc.passes hp, ?_⟩
  · have := List.length_pos_iff.2 ht.ne_nil
    rw [hp.position]
    omega
  · rw [← hc.rest, ← hp.eq_take]
    exact ht

section Sample

open Token

/-- `true ? (* nil) false`, where a colon and an operand were left out. -/
def gappedTokens : List Token :=
  [loose .kwTrue "true", loose .question "?", loose .openParen "(", loose .star "*",
    loose .kwNil "nil", loose .closeParen ")", loose .kwFalse "false", loose .eof ""]

def gappedTree : Expr :=
  .ternary (.literal (.boolean true)) (loose .question "?")
    (.grouping (.missingLeft (loose .star "*") (.literal .nil))) (loose .closeParen ")")
    (.literal (.boolean false))

theorem Cursor.read_gappedTokens :
    let r := Cursor.read ⟨0, loose .kwTrue "true", gappedTokens⟩ .ternary
    r.tree? = some gappedTree ∧ r.cursor.position = 7 ∧
      gappedTree.Yields (gappedTokens.take 7) := by
  intro r
  have tree : r.tree? = some gappedTree := by decide +kernel
  have position : r.cursor.position = 7 := by decide +kernel
  have start : Cursor.ofTokens? gappedTokens = some ⟨0, loose .kwTrue "true", gappedTokens⟩ := rfl
  obtain ⟨-, -, written⟩ := Cursor.read_yields .ternary (in_of_ofTokens? start) tree
  refine ⟨tree, position, ?_⟩
  rwa [position] at written

end Sample

end LoxReader
