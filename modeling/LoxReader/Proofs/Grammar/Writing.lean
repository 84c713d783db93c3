import LoxReader.Proofs.Grammar.Ladder
import LoxReader.Proofs.Grammar.Quiet

/-!
# What is written is read

Every clean tree is read from the tokens that write it, up to the first token that does not carry it
on and without a report.  A tree of a rung is the left operand of whatever chain comes behind it, so
the induction along the ladder reads it together with the rest of the chain.
-/

namespace LoxReader

/-! ### Kinds of tokens at the borders of operands -/

section Borders

variable {rung : Rung} {k : Kind}

theorem Rung.notMem_operators_of_opening (h : k ∈ Expr.openingKinds)
    (hm : rung = .term → k ≠ .minus) : k ∉ rung.operators := by
  revert k
  cases rung <;> decide

/-- What begins a tree does not carry on the one before it, unless it is a minus. -/
theorem Level.notMem_carriers_of_opening (h : k ∈ Expr.openingKinds) (hm : k ≠ .minus) :
    k ∉ ternary.carriers ∧ k ≠ .colon := by
  revert k
  decide

theorem Level.notMem_carriers_laterOperand (hr : rung ≠ .factor) (h : k ∈ rung.operators) :
    k ∉ rung.laterOperand.carriers := by
  revert k
  cases rung <;> first | exact absurd rfl hr | decide

theorem Level.carriers_laterOperand_subset (r : Rung) :
    r.laterOperand.carriers ⊆ (Level.rung r).carriers := by
  cases r <;> decide

theorem Expr.mem_guardingKinds (hr : rung.laterOperand.rank ≤ Level.term.rank)
    (h : k ∈ rung.operators) : k ∈ guardingKinds := by
  revert k
  cases rung <;> first | exact absurd hr (by decide) | decide

end Borders

open Cursor

/-- From `c` to `d` the tree is read for a level, in front of a token that does not carry it on.  On
a rung it is read as the left operand of a chain. -/
def Goal.Reaches : Level → Cursor → Expr → Cursor → Prop
  | .rung rung, c, e, d => d.kind ∉ rung.laterOperand.carriers →
    ∀ e' f, Quiet (.chain rung e) d e' f → Quiet (.level (.rung rung)) c e' f
  | l, c, e, d => d.kind ∉ l.carriers → Quiet (.level l) c e d

namespace Goal.Reaches

variable {c d f : Cursor} {e left right : Expr} {l : Level} {rung : Rung}

/-- A chain that ends at once leaves the tree itself. -/
theorem quiet (h : Reaches l c e d) (hd : d.kind ∉ l.carriers) : Quiet (.level l) c e d := by
  cases l with
  | rung rung =>
    have hlater : d.kind ∉ rung.laterOperand.carriers := by
      intro hk
      exact hd (Level.carriers_laterOperand_subset rung hk)
    exact h hlater e d (.stop (Level.notMem_carriers_rung.1 hd).1)
  | ternary | unary | primary => exact h hd

/-- A left operand in front of an operator of the rung. -/
theorem leftOperand (h : Reaches rung.leftOperand c left d)
    (hc : rung.forgives → c.kind ∉ rung.operators) (ho : d.kind ∈ rung.operators)
    (hq : Quiet (.chain rung left) d e f) : Quiet (.level (.rung rung)) c e f := by
  by_cases hr : rung = .factor
  · subst hr
    exact .operand hc (h List.not_mem_nil) hq
  · have hl : rung.leftOperand = .rung rung := by cases rung <;> first | exact absurd rfl hr | rfl
    rw [hl] at h
    exact h (Level.notMem_carriers_laterOperand hr ho) e f hq

theorem binary (hl : Reaches rung.leftOperand c left d)
    (hc : rung.forgives → c.kind ∉ rung.operators) (ho : d.kind ∈ rung.operators)
    (hr : Reaches rung.laterOperand d.next right f) :
    Reaches (.rung rung) c (.binary left d.token right) f := by
  intro hf e' g hq
  apply hl.leftOperand hc ho
  exact .link ho (hr.quiet hf) hq

theorem ofOperand (h : Reaches rung.firstOperand c e d)
    (hc : rung.forgives → c.kind ∉ rung.operators) : Reaches (.rung rung) c e d := by
  intro hd e' f hq
  have hfirst : d.kind ∉ rung.firstOperand.carriers := by
    intro hk
    exact hd (Level.carriers_firstOperand_subset rung hk)
  exact .operand hc (h.quiet hfirst) hq

theorem ofEquality (h : Reaches .equality c e d) : Reaches .ternary c e d := by
  intro hd
  obtain ⟨hk, hq⟩ := Level.notMem_carriers_ternary.1 hd
  exact .noChoice (h.quiet hk) hq

theorem group (ho : c.kind = .openParen) (h : Reaches .ternary c.next e d)
    (hd : d.kind = .closeParen) : Reaches .primary c (.grouping e) d.next := by
  intro _
  refine .group ho (h.quiet ?_) hd
  rw [hd]
  decide

theorem choice_colon {condition onTrue onFalse : Expr} {g : Cursor}
    (hc : Reaches .equality c condition d) (hq : d.kind = .question)
    (ht : Reaches .ternary d.next onTrue f) (hk : f.kind = .colon)
    (hf : Reaches .ternary f.next onFalse g) :
    Reaches .ternary c (.ternary condition d.token onTrue f.token onFalse) g := by
  intro hg
  have hd : d.kind ∉ Level.equality.carriers := by
    rw [hq]
    decide
  have hf' : f.kind ∉ Level.ternary.carriers := by
    rw [hk]
    decide
  exact .choice_colon (hc.quiet hd) hq (ht.quiet hf') hk (hf.quiet hg)

theorem choice_noColon {condition onTrue onFalse : Expr} {g : Cursor}
    (hc : Reaches .equality c condition d) (hq : d.kind = .question)
    (ht : Reaches .ternary d.next onTrue f) (hf' : f.kind ∉ Level.ternary.carriers)
    (hk : f.kind ≠ .colon) (hf : Reaches .ternary f onFalse g) :
    Reaches .ternary c (.ternary condition d.token onTrue f.passed onFalse) g := by
  intro hg
  have hd : d.kind ∉ Level.equality.carriers := by
    rw [hq]
    decide
  exact .choice_noColon (hc.quiet hd) hq (ht.quiet hf') hk (hf.quiet hg)

end Goal.Reaches

namespace Expr

open Goal

variable {e : Expr} {l : Level} {rung : Rung} {ts : List Token} {c d : Cursor}

/-- In front of a tree no rung finds an operator of its own, unless a term finds a minus. -/
theorem Stands.kind_notMem_operators (h : e.Stands l) (hw : e.lacksOperand = false)
    (hm : (Level.rung rung).rank ≤ Level.term.rank → e.beginsWithMinus = false) (hy : e.Yields ts)
    (hp : c.Passes ts d) : c.kind ∉ rung.operators := by
  obtain ⟨t, us, rfl, hk, hb⟩ := h.begins hw hy
  rw [hp.uncons.1]
  refine Rung.notMem_operators_of_opening hk ?_
  rintro rfl ht
  have := hb ht
  rw [hm (Nat.le_refl _)] at this
  cases this

/-- Nor does a token in front of a tree carry on what is before it, unless it is a minus. -/
theorem Stands.kind_notMem_carriers (h : e.Stands l) (hw : e.lacksOperand = false)
    (hm : e.beginsWithMinus = false) (hy : e.Yields ts) (hp : c.Passes ts d) :
    c.kind ∉ Level.ternary.carriers ∧ c.kind ≠ .colon := by
  obtain ⟨t, us, rfl, hk, hb⟩ := h.begins hw hy
  rw [hp.uncons.1]
  refine Level.notMem_carriers_of_opening hk fun ht => ?_
  have := hb ht
  rw [hm] at this
  cases this

theorem Stands.kind_notMem_unaryOperators (h : e.Stands .primary) (hy : e.Yields ts)
    (hp : c.Passes ts d) : c.kind ∉ unaryOperators := by
  cases h with
  | literal =>
    cases hy with
    | literal hl =>
      rw [hp.uncons.1]
      exact Kind.notMem_unaryOperators_of_literal (Token.kind_mem_of_leaf? hl)
  | grouping =>
    cases hy with
    | grouping ho _ _ =>
      rw [hp.uncons.1, ho]
      decide

/-- **A tree on the ladder is read from its tokens.** -/
theorem Stands.reaches (h : e.Stands l) (hw : e.lacksOperand = false) (hg : e.Guarded)
    (hm : l.rank ≤ Level.term.rank → e.beginsWithMinus = false) (hy : e.Yields ts)
    (hp : c.Passes ts d) : Reaches l c e d := by
  induction h generalizing ts c d with
  | literal =>
    cases hy with
    | literal hl =>
      obtain ⟨-, hne, ht, hn⟩ := hp.uncons
      rw [hn.eq_of_nil]
      intro _
      exact .leaf hne (ht ▸ hl)
  | grouping _ ih =>
    cases hy with
    | grouping ho hi hc =>
      obtain ⟨hk, -, -, hn⟩ := hp.uncons
      obtain ⟨m, hn, hd⟩ := hn.unappend
      obtain ⟨hk', -, -, hd⟩ := hd.uncons
      rw [hd.eq_of_nil]
      exact .group (hk.trans ho) (ih hw hg.2 (fun _ => hg.1) hi hn) (hk'.trans hc)
  | unary ho _ ih =>
    cases hy with
    | unary hr =>
      obtain ⟨hk, -, ht, hn⟩ := hp.uncons
      have hr := (ih hw hg (fun hl => absurd hl (by decide)) hr hn).quiet List.not_mem_nil
      intro _
      exact ht ▸ .prefixed (hk ▸ ho) hr
  | @binary rung left operator right ho hL _ ihLeft ihRight =>
    cases hy with
    | binary hl hr =>
      rw [lacksOperand, Bool.or_eq_false_iff] at hw
      obtain ⟨-, hgr, hgLeft, hgRight⟩ := hg
      obtain ⟨m, hpl, hpr⟩ := hp.unappend
      obtain ⟨hk, -, ht, hn⟩ := hpr.uncons
      have hml : rung.leftOperand.rank ≤ Level.term.rank → left.beginsWithMinus = false := by
        intro h
        exact hm (Nat.le_trans rung.rank_le_rank_leftOperand h)
      have hc := hL.kind_notMem_operators hw.1 hm hl hpl
      have hleft := ihLeft hw.1 hgLeft hml hl hpl
      have hright := ihRight hw.2 hgRight (fun h => hgr (mem_guardingKinds h ho)) hr hn
      exact ht ▸ hleft.binary (fun _ => hc) (hk ▸ ho) hright
  | missingLeft => cases hw
  | @ternary condition question onTrue colon onFalse hq _ _ hF ihCondition ihTrue ihFalse =>
    simp only [lacksOperand, Bool.or_eq_false_iff] at hw
    obtain ⟨⟨hwc, hwt⟩, hwf⟩ := hw
    obtain ⟨⟨hmc, hmt, hmf⟩, hgc, hgt, hgf⟩ := hg
    obtain ⟨us, vs, ws, rest, rfl, hc, ht, hf, hrest⟩ := hy.choice_cases
    obtain ⟨m, hpc, hp⟩ := hp.unappend
    obtain ⟨hkm, -, htm, hp⟩ := hp.uncons
    obtain ⟨n, hpt, hpf⟩ := hp.unappend
    have hc := ihCondition hwc hgc (fun _ => hmc) hc hpc
    have ht := ihTrue hwt hgt (fun _ => hmt) ht hpt
    rw [← htm]
    rcases hrest with ⟨hk, rfl⟩ | ⟨-, hl, rfl⟩
    · obtain ⟨hkn, -, htn, hpf⟩ := hpf.uncons
      rw [← htn]
      exact hc.choice_colon (hkm.trans hq) ht (hkn.trans hk) (ihFalse hwf hgf (fun _ => hmf) hf hpf)
    · -- the else branch begins right behind, with a token that does not carry the other one on
      obtain ⟨hcn, hkn⟩ := hF.kind_notMem_carriers hwf hmf hf hpf
      have hpassed : n.passed = colon := by
        rw [hpt.passed, hl]
        rfl
      rw [← hpassed]
      exact hc.choice_noColon (hkm.trans hq) ht hcn hkn (ihFalse hwf hgf (fun _ => hmf) hf hpf)
  | ofPrimary hP ih =>
    have hk := hP.kind_notMem_unaryOperators hy hp
    have hquiet := (ih hw hg (fun hl => absurd hl (by decide)) hy hp).quiet List.not_mem_nil
    intro _
    exact .primary hk hquiet
  | @ofOperand rung e hO ih =>
    have hlt := rung.rank_lt_rank_firstOperand
    have hf := ih hw hg (fun h => hm (by omega)) hy hp
    exact hf.ofOperand fun _ => hO.kind_notMem_operators hw hm hy hp
  | ofEquality _ ih => exact (ih hw hg (fun _ => hm (by decide)) hy hp).ofEquality

end Expr

/-- A leaf is read on every level that the token behind it does not carry on. -/
theorem Goal.Quiet.leaf_of_level {c : Cursor} {value : Literal} {l : Level} (h : c.kind ≠ .eof)
    (hl : c.token.leaf? = some value) (hn : c.next.kind ∉ l.carriers) :
    Quiet (.level l) c (.literal value) c.next := by
  have stands : (Expr.literal value).Stands l := .of_primary .literal l
  exact (stands.reaches rfl trivial (fun _ => rfl) (.literal hl) (passes_next h)).quiet hn

/-- **What is written is read.** A clean tree is read from all tokens that write it, with any colons
left out, when no token behind them carries it on.  Nothing is reported, and the cursor ends behind
them. -/
theorem Cursor.readAll_of_yields {c : Cursor} {e e' : Expr} {ts rest : List Token} {t : Token}
    (clean : e.Clean) (same : e'.withoutColons = e.withoutColons) (written : e'.Yields ts)
    (front : c.rest = ts ++ t :: rest) (ends : t.kind ∉ Level.comma.carriers) :
    c.readAll.tree? = some e' ∧ reports c.readAll.events = [] ∧
      c.readAll.cursor.position = c.position + ts.length ∧ c.readAll.cursor.rest = t :: rest := by
  obtain ⟨whole, stands, unsigned, guarded⟩ := clean.of_withoutColons_eq same
  obtain ⟨d, hp, hd⟩ := passes_of_rest front (stands.running written)
  have hk : d.kind ∉ Level.comma.carriers := by rwa [kind_of_rest hd]
  have read := (stands.reaches whole guarded (fun _ => unsigned) written hp).quiet hk
  obtain ⟨tree, quiet, cursor⟩ := read.readAll
  rw [cursor]
  exact ⟨tree, quiet, hp.position, hd⟩

section Sample

open Token

/-- `nil * -false`. -/
def negatedProduct : Expr :=
  .binary (.literal .nil) (loose .star "*") (.unary (loose .minus "-") (.literal (.boolean false)))

/-- `nil * -false ? true : nil`, with a slot for the colon. -/
def negatedChoice (slot : Token) : Expr :=
  .ternary negatedProduct (loose .question "?") (.literal (.boolean true)) slot (.literal .nil)

theorem negatedProduct_yields : negatedProduct.Yields
    [loose .kwNil "nil", loose .star "*", loose .minus "-", loose .kwFalse "false"] :=
  .binary (.literal (t := loose .kwNil "nil") rfl)
    (.unary (.literal (t := loose .kwFalse "false") rfl))

theorem negatedProduct_stands : negatedProduct.Stands .factor := by
  have leaf (value : Literal) (l : Level) : (Expr.literal value).Stands l := .of_primary .literal l
  exact .binary (by decide) (leaf .nil _)
    (.ofOperand (.unary (by decide) (leaf (.boolean false) _)))

theorem negatedChoice_clean (slot : Token) : (negatedChoice slot).Clean := by
  have leaf (value : Literal) (l : Level) : (Expr.literal value).Stands l := .of_primary .literal l
  refine ⟨rfl, .ofOperand (.ternary rfl ?_ (leaf _ _) (leaf _ _)), rfl, ?_⟩
  · exact .ofOperand (.ofOperand (.ofOperand negatedProduct_stands))
  · refine ⟨⟨rfl, rfl, rfl⟩, ⟨?_, ?_, trivial, trivial⟩, trivial, trivial⟩ <;> decide

/-- The choice is read without its colon. -/
theorem Cursor.readAll_negatedChoice :
    let c : Cursor := ⟨0, loose .kwNil "nil",
      [loose .kwNil "nil", loose .star "*", loose .minus "-", loose .kwFalse "false",
        loose .question "?", loose .kwTrue "true", loose .kwNil "nil", loose .eof ""]⟩
    c.readAll.tree? = some (negatedChoice (loose .kwTrue "true")) ∧ reports c.readAll.events = [] ∧
      c.readAll.cursor.position = 7 ∧ c.readAll.cursor.rest = [loose .eof ""] := by
  intro c
  have same : (negatedChoice (loose .kwTrue "true")).withoutColons =
      (negatedChoice (loose .colon ":")).withoutColons := rfl
  have written : (negatedChoice (loose .kwTrue "true")).Yields (c.rest.take 7) :=
    .noColon negatedProduct_yields (.literal (t := loose .kwTrue "true") rfl) rfl (by decide)
      (.literal (t := loose .kwNil "nil") rfl)
  have front : c.rest = c.rest.take 7 ++ loose .eof "" :: [] := rfl
  exact Cursor.readAll_of_yields (negatedChoice_clean _) same written front (by decide)

end Sample

end LoxReader
