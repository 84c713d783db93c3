import LoxReader.Proofs.Grammar.Reports

/-!
# Reading without a report

The rules of a derivation in which nothing is forgiven.
-/

namespace LoxReader.Goal

open Cursor

/-- From `c` a goal comes to the tree `e`, with the cursor at `d`, and nothing is reported. -/
def Quiet (goal : Goal) (c : Cursor) (e : Expr) (d : Cursor) : Prop :=
  ∃ xs, Reads goal c e d xs ∧ reports xs = []

namespace Quiet

variable {rung : Rung} {c d f : Cursor} {e left right : Expr}

theorem operand (h : rung.forgives → c.kind ∉ rung.operators)
    (hl : Quiet (.level rung.firstOperand) c left d) (hc : Quiet (.chain rung left) d e f) :
    Quiet (.level (.rung rung)) c e f := by
  obtain ⟨xs, hl, hx⟩ := hl
  obtain ⟨ys, hc, hy⟩ := hc
  exact ⟨_, .operand h hl hc, by simp [hx, hy]⟩

theorem link (h : c.kind ∈ rung.operators) (hr : Quiet (.level rung.laterOperand) c.next right d)
    (hc : Quiet (.chain rung (.binary left c.token right)) d e f) :
    Quiet (.chain rung left) c e f := by
  obtain ⟨xs, hr, hx⟩ := hr
  obtain ⟨ys, hc, hy⟩ := hc
  exact ⟨_, .link h hr hc, by simp [hx, hy]⟩

theorem stop (h : c.kind ∉ rung.operators) : Quiet (.chain rung left) c left c := ⟨_, .stop h, rfl⟩

theorem choice {condition onTrue onFalse : Expr} {g : Cursor}
    (hc : Quiet (.level .equality) c condition d) (hq : d.kind = .question)
    (ht : Quiet (.level .ternary) d.next onTrue f)
    (hf : Quiet (.level .ternary) f.skipColon onFalse g) :
    Quiet (.level .ternary) c (.ternary condition d.token onTrue f.skipColon.passed onFalse) g := by
  obtain ⟨xs, hc, hx⟩ := hc
  obtain ⟨ys, ht, hy⟩ := ht
  obtain ⟨zs, hf, hz⟩ := hf
  exact ⟨_, .choice hc hq ht hf, by simp [hx, hy, hz]⟩

theorem choice_colon {condition onTrue onFalse : Expr} {g : Cursor}
    (hc : Quiet (.level .equality) c condition d) (hq : d.kind = .question)
    (ht : Quiet (.level .ternary) d.next onTrue f) (hk : f.kind = .colon)
    (hf : Quiet (.level .ternary) f.next onFalse g) :
    Quiet (.level .ternary) c (.ternary condition d.token onTrue f.token onFalse) g := by
  have hs := skipColon_of_kind_eq hk
  have h := choice hc hq ht (hs ▸ hf)
  rwa [hs, passed_next (hk.trans_ne (by simp))] at h

theorem choice_noColon {condition onTrue onFalse : Expr} {g : Cursor}
    (hc : Quiet (.level .equality) c condition d) (hq : d.kind = .question)
    (ht : Quiet (.level .ternary) d.next onTrue f) (hk : f.kind ≠ .colon)
    (hf : Quiet (.level .ternary) f onFalse g) :
    Quiet (.level .ternary) c (.ternary condition d.token onTrue f.passed onFalse) g := by
  have hs := skipColon_of_kind_ne hk
  have h := choice hc hq ht (hs ▸ hf)
  rwa [hs] at h

theorem noChoice (h : Quiet (.level .equality) c e d) (hq : d.kind ≠ .question) :
    Quiet (.level .ternary) c e d := by
  obtain ⟨xs, h, hx⟩ := h
  exact ⟨xs, .noChoice h hq, hx⟩

theorem prefixed (h : c.kind ∈ unaryOperators) (hr : Quiet (.level .unary) c.next right d) :
    Quiet (.level .unary) c (.unary c.token right) d := by
  obtain ⟨xs, hr, hx⟩ := hr
  exact ⟨xs, .prefixed h hr, hx⟩

theorem primary (h : c.kind ∉ unaryOperators) (hp : Quiet (.level .primary) c e d) :
    Quiet (.level .unary) c e d := by
  obtain ⟨xs, hp, hx⟩ := hp
  exact ⟨xs, .primary h hp, hx⟩

theorem leaf {value : Literal} (h : c.kind ≠ .eof) (hl : c.token.leaf? = some value) :
    Quiet (.level .primary) c (.literal value) c.next := ⟨_, .leaf h hl, rfl⟩

theorem group (h : c.kind = .openParen) (hi : Quiet (.level .ternary) c.next e d)
    (hd : d.kind = .closeParen) : Quiet (.level .primary) c (.grouping e) d.next := by
  obtain ⟨xs, hi, hx⟩ := hi
  exact ⟨xs, .group h hi hd, hx⟩

end Quiet

/-- A whole expression that is read without a report. -/
theorem Quiet.readAll {c d : Cursor} {e : Expr} (h : Quiet (.level .comma) c e d) :
    c.readAll.tree? = some e ∧ reports c.readAll.events = [] ∧ c.readAll.cursor = d := by
  obtain ⟨xs, h, hx⟩ := h
  rw [readAll_of_reads h]
  exact ⟨rfl, hx, rfl⟩

end LoxReader.Goal
