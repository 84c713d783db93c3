import LoxReader.Proofs.Grammar.Precedence
import LoxReader.Proofs.Grammar.Reports

/-!
# What a minus is

A minus stands between two operands, in front of its only operand, or lacks its left operand.  The
token in front of it tells which: it ends an operand, or is an operator that takes no term on its
right, or is one of those behind which a term may begin.
-/

namespace LoxReader

/-! ### The operators of a tree -/

/-- How an operator stands to its operands. -/
inductive Stance where
  /-- Between two operands. -/
  | between
  /-- In front of its only operand. -/
  | before
  /-- In front of its right operand, with the left one missing. -/
  | orphaned
deriving DecidableEq

namespace Expr

/-- The operator of a node, and how it stands to the operands of the node. -/
def operatorStance? : Expr → Option (Token × Stance)
  | literal _ | grouping _ | ternary _ _ _ _ _ => none
  | unary operator _ => some (operator, .before)
  | binary _ operator _ => some (operator, .between)
  | missingLeft operator _ => some (operator, .orphaned)

/-- How many tokens the slot of a colon takes.  It takes none where no colon was written. -/
def slotWidth (slot : Token) : Nat := if slot.kind = .colon then 1 else 0

/-- How many tokens the tree is written with. -/
def width : Expr → Nat
  | literal _ => 1
  | grouping inner => inner.width + 2
  | unary _ right | missingLeft _ right => right.width + 1
  | binary left _ right => left.width + 1 + right.width
  | ternary condition _ onTrue slot onFalse =>
    condition.width + 1 + onTrue.width + slotWidth slot + onFalse.width

/-- The nodes of operators from left to right, each with the place of its operator.  The first token
of the tree is at `n`. -/
def operators (n : Nat) : Expr → List (Nat × Expr)
  | literal _ => []
  | grouping inner => inner.operators (n + 1)
  | unary operator right => (n, unary operator right) :: right.operators (n + 1)
  | binary left operator right =>
    left.operators n ++
      (n + left.width, binary left operator right) :: right.operators (n + left.width + 1)
  | missingLeft operator right => (n, missingLeft operator right) :: right.operators (n + 1)
  | ternary condition _ onTrue slot onFalse =>
    condition.operators n ++
      (onTrue.operators (n + condition.width + 1) ++
        onFalse.operators (n + condition.width + 1 + onTrue.width + slotWidth slot))

variable {e : Expr} {ts : List Token}

theorem Yields.length_eq (h : e.Yields ts) : ts.length = e.width := by
  induction h with
  | literal => rfl
  | grouping _ _ _ ih => simp [width, ih]
  | unary _ ih | missingLeft _ ih => simp [width, ih]
  | binary _ _ ihLeft ihRight =>
    simp only [List.length_append, List.length_cons, width, ihLeft, ihRight]
    omega
  | colon _ _ kind _ ihCondition ihTrue ihFalse =>
    simp only [List.length_append, List.length_cons, width, slotWidth, kind, if_true, ihCondition,
      ihTrue, ihFalse]
    omega
  | noColon _ _ _ kind _ ihCondition ihTrue ihFalse =>
    simp only [List.length_append, List.length_cons, width, slotWidth, kind, if_false, ihCondition,
      ihTrue, ihFalse]
    omega

/-- Every node with an operator is there once. -/
theorem operators_perm (e : Expr) (n : Nat) :
    ((e.operators n).map Prod.snd).Perm (e.nodes.filter fun s => s.operatorStance?.isSome) := by
  induction e generalizing n with
  | literal => exact .nil
  | grouping _ ih => exact ih (n + 1)
  | unary _ _ ih | missingLeft _ _ ih => exact (ih (n + 1)).cons _
  | binary left operator right ihLeft ihRight =>
    rw [operators, List.map_append, List.map_cons, nodes, List.filter_cons_of_pos rfl,
      List.filter_append]
    exact List.perm_middle.trans (((ihLeft _).append (ihRight _)).cons _)
  | ternary _ _ _ _ _ ihCondition ihTrue ihFalse =>
    rw [operators, List.map_append, List.map_append, nodes,
      List.filter_cons_of_neg (by simp [operatorStance?]), List.filter_append, List.filter_append,
      List.append_assoc]
    exact (ihCondition _).append ((ihTrue _).append (ihFalse _))

end Expr

/-! ### What stands in front of a minus -/

/-- The stance of a minus behind a token of this kind, or at the start. -/
def stanceBehind? : Option Kind → Option Stance
  | none => some .orphaned
  | some kind =>
    match kind with
    | .kwFalse | .kwTrue | .kwNil | .number | .string | .closeParen => some .between
    | .minus | .plus | .slash | .star | .not => some .before
    | .openParen | .comma | .question | .colon | .notEquals | .equals | .greater | .greaterEquals
    | .less | .lessEquals => some .orphaned
    | _ => none

/-- The kind of the token in front of a place. -/
def kindBefore (tokens : List Token) : Nat → Option Kind
  | 0 => none
  | m + 1 => tokens[m]?.map Token.kind

/-- The stance of a minus at the beginning of an expression of the level. -/
def Level.stance (l : Level) : Stance := if l.rank ≤ term.rank then .orphaned else .before

/-- A minus in front of the cursor has the stance of one at the beginning of the level. -/
def Level.Expects (l : Level) (tokens : List Token) (c : Cursor) : Prop :=
  c.kind = .minus → stanceBehind? (kindBefore tokens c.position) = some l.stance

theorem stanceBehind?_of_literal {k : Kind} (h : k ∈ literalKinds) :
    stanceBehind? (some k) = some .between := by
  revert k
  decide

theorem stanceBehind?_of_operator {rung : Rung} {k : Kind} (h : k ∈ rung.operators) :
    stanceBehind? (some k) = some rung.laterOperand.stance := by
  cases rung <;> revert k <;> decide

theorem stanceBehind?_of_unaryOperator {k : Kind} (h : k ∈ unaryOperators) :
    stanceBehind? (some k) = some Level.unary.stance := by
  revert k
  decide

section Context

open Cursor

variable {tokens : List Token} {c d : Cursor} {l : Level} {rung : Rung} {e : Expr} {xs : List Event}

theorem Cursor.In.kindBefore_next (h : c.In tokens) (running : c.kind ≠ .eof) :
    kindBefore tokens c.next.position = some c.kind := by
  rw [position_next running, kindBefore, h.getElem?_position, Option.map_some, h.kind_token]

theorem Cursor.In.expects_next (h : c.In tokens) (running : c.kind ≠ .eof)
    (told : stanceBehind? (some c.kind) = some l.stance) : l.Expects tokens c.next := by
  intro _
  rw [h.kindBefore_next running, told]

theorem Level.expects_of_kind_ne (h : c.kind ≠ .minus) : l.Expects tokens c :=
  fun minus => absurd minus h

/-- A term without its left operand is found before its first operand is looked for. -/
theorem Level.Expects.firstOperand (h : (Level.rung rung).Expects tokens c)
    (operand : rung.forgives → c.kind ∉ rung.operators) : rung.firstOperand.Expects tokens c := by
  intro minus
  cases rung with
  | comma | equality | comparison | factor => exact h minus
  | term =>
    rw [minus] at operand
    exact absurd (by decide) (operand rfl)

namespace Goal

theorem Reads.position_eq (h : Reads (.level l) c e d xs) : d.position = c.position + e.width := by
  obtain ⟨ts, passes, yields⟩ := h.makes
  rw [passes.position, yields.length_eq]

/-- A minus behind an expression has this one on its left. -/
theorem Reads.between (h : Reads (.level l) c e d xs) (hc : c.In tokens) :
    stanceBehind? (kindBefore tokens d.position) = some .between := by
  obtain ⟨ts, passes, yields⟩ := h.makes
  obtain ⟨t, last, ends⟩ := yields.exists_getLast?
  have passed : tokens[d.position - 1]? = some t := by
    rw [(hc.passes passes).passed, passes.passed, last]
    rfl
  have moved := List.length_pos_iff.2 yields.ne_nil
  have behind : d.position ≠ 0 := by
    rw [passes.position]
    omega
  obtain ⟨m, position⟩ := Nat.exists_eq_succ_of_ne_zero behind
  rw [position, Nat.succ_eq_add_one, Nat.add_sub_cancel] at passed
  rw [position, kindBefore, passed, Option.map_some]
  obtain leaf | closes := ends
  · obtain ⟨value, leaf⟩ := Option.isSome_iff_exists.1 leaf
    exact stanceBehind?_of_literal (Token.kind_mem_of_leaf? leaf)
  · rw [closes]
    rfl

/-- Behind the middle of a choice, its slot takes as many tokens as are passed for it. -/
theorem Reads.position_skipColon (h : Reads (.level l) c e d xs) :
    d.skipColon.position = d.position + Expr.slotWidth d.skipColon.passed := by
  by_cases colon : d.kind = .colon
  · have running : d.kind ≠ .eof := colon.trans_ne (by simp)
    rw [skipColon_of_kind_eq colon, position_next running, passed_next running, Expr.slotWidth,
      kind_token running, if_pos colon]
  · obtain ⟨ts, passes, yields⟩ := h.makes
    obtain ⟨t, last, -⟩ := yields.exists_getLast?
    have passed : d.passed = t := by rw [passes.passed, last]; rfl
    rw [skipColon_of_kind_ne colon, passed, Expr.slotWidth,
      if_neg (yields.getLast?_kind_ne_colon last), Nat.add_zero]

/-- A minus behind a choice without its last part is a part of what stands in front of it. -/
theorem Reads.expects_skipColon (h : Reads (.level .ternary) c e d xs) (hd : d.In tokens) :
    Level.ternary.Expects tokens d.skipColon := by
  by_cases colon : d.kind = .colon
  · rw [skipColon_of_kind_eq colon]
    exact hd.expects_next (colon.trans_ne (by simp)) (by rw [colon]; rfl)
  · rw [skipColon_of_kind_ne colon]
    refine Level.expects_of_kind_ne fun minus => ?_
    have closes : d.kind ∉ Level.ternary.carriers := h.closes
    rw [minus] at closes
    exact closes (by decide)

/-! ### The operators between two cursors -/

section Cursors

variable {left right inner condition onTrue onFalse : Expr} {n : Nat}

theorem operators_grouping (running : c.kind ≠ .eof) :
    (Expr.grouping inner).operators c.position = inner.operators c.next.position := by
  rw [Expr.operators, position_next running]

theorem operators_unary (running : c.kind ≠ .eof) :
    (Expr.unary c.token right).operators c.position =
      (c.position, .unary c.token right) :: right.operators c.next.position := by
  rw [Expr.operators, position_next running]

theorem operators_missingLeft (running : c.kind ≠ .eof) :
    (Expr.missingLeft c.token right).operators c.position =
      (c.position, .missingLeft c.token right) :: right.operators c.next.position := by
  rw [Expr.operators, position_next running]

theorem operators_binary (running : c.kind ≠ .eof) (place : n + left.width = c.position) :
    (Expr.binary left c.token right).operators n =
      left.operators n ++
        (c.position, .binary left c.token right) :: right.operators c.next.position := by
  rw [Expr.operators, position_next running, place]

theorem Reads.operators_ternary {f : Cursor} {ys : List Event}
    (reads : Reads (.level .equality) c condition d xs) (asks : d.kind = .question)
    (readsTrue : Reads (.level .ternary) d.next onTrue f ys) :
    (Expr.ternary condition d.token onTrue f.skipColon.passed onFalse).operators c.position =
      condition.operators c.position ++
        (onTrue.operators d.next.position ++ onFalse.operators f.skipColon.position) := by
  have placeTrue : c.position + condition.width + 1 = d.next.position := by
    rw [position_next (asks.trans_ne (by simp)), reads.position_eq]
  have placeFalse :
      d.next.position + onTrue.width + Expr.slotWidth f.skipColon.passed = f.skipColon.position := by
    rw [readsTrue.position_skipColon, readsTrue.position_eq]
  rw [Expr.operators, placeTrue, placeFalse]

theorem Reads.width_missingLeft (reads : Reads (.level l) c.next right d xs)
    (running : c.kind ≠ .eof) : c.position + (Expr.missingLeft c.token right).width = d.position := by
  rw [reads.position_eq, position_next running, Expr.width]
  omega

theorem Reads.width_binary (reads : Reads (.level l) c.next right d xs) (running : c.kind ≠ .eof)
    (place : n + left.width = c.position) :
    n + (Expr.binary left c.token right).width = d.position := by
  rw [reads.position_eq, position_next running, Expr.width, ← place]
  omega

end Cursors

end Goal

end Context

/-! ### Charts of operators -/

/-- The operators of the tokens from `lo` up to `hi`, from left to right.  No minus is left out, and
the token in front of each tells its stance. -/
structure Charted (tokens : List Token) (lo hi : Nat) (ops : List (Nat × Expr)) : Prop where
  le : lo ≤ hi
  bounds : ∀ x ∈ ops, lo ≤ x.1 ∧ x.1 < hi
  sorted : ops.Pairwise fun x y => x.1 < y.1
  told : ∀ x ∈ ops, ∃ t stance, tokens[x.1]? = some t ∧
    x.2.operatorStance? = some (t, stance) ∧
    (t.kind = .minus → stanceBehind? (kindBefore tokens x.1) = some stance)
  complete : ∀ m t, lo ≤ m → m < hi → tokens[m]? = some t → t.kind = .minus →
    ∃ node, (m, node) ∈ ops

namespace Charted

variable {tokens : List Token} {lo mid hi : Nat} {ops more : List (Nat × Expr)}

theorem append (h : Charted tokens lo mid ops) (h' : Charted tokens mid hi more) :
    Charted tokens lo hi (ops ++ more) := by
  have le := h.le
  have le' := h'.le
  refine ⟨Nat.le_trans le le', ?_, ?_, ?_, ?_⟩
  · intro x mem
    obtain mem | mem := List.mem_append.1 mem
    · have := h.bounds x mem
      omega
    · have := h'.bounds x mem
      omega
  · refine List.pairwise_append.2 ⟨h.sorted, h'.sorted, fun x mem y mem' => ?_⟩
    exact Nat.lt_of_lt_of_le (h.bounds x mem).2 (h'.bounds y mem').1
  · intro x mem
    exact (List.mem_append.1 mem).elim (h.told x) (h'.told x)
  · intro m t low high here minus
    by_cases first : m < mid
    · obtain ⟨node, mem⟩ := h.complete m t low first here minus
      exact ⟨node, List.mem_append_left _ mem⟩
    · obtain ⟨node, mem⟩ := h'.complete m t (by omega) high here minus
      exact ⟨node, List.mem_append_right _ mem⟩

/-- One operator stands at each place. -/
theorem filter_eq {m : Nat} {node : Expr} (h : Charted tokens lo hi ops) (mem : (m, node) ∈ ops) :
    ops.filter (fun x => x.1 = m) = [(m, node)] := by
  obtain ⟨front, behind, rfl⟩ := List.append_of_mem mem
  have sorted := List.pairwise_append.1 h.sorted
  have first : front.filter (fun x => x.1 = m) = [] := by
    refine List.filter_eq_nil_iff.2 fun x mem => ?_
    have := sorted.2.2 x mem (m, node) List.mem_cons_self
    simpa using Nat.ne_of_lt this
  have last : behind.filter (fun x => x.1 = m) = [] := by
    refine List.filter_eq_nil_iff.2 fun x mem => ?_
    have := (List.pairwise_cons.1 sorted.2.1).1 x mem
    simpa using Nat.ne_of_gt this
  rw [List.filter_append, List.filter_cons_of_pos (by simp), first, last]
  rfl

end Charted

namespace Cursor

variable {tokens : List Token} {c : Cursor}

/-- A token that is no minus is passed. -/
theorem In.charted_plain (h : c.In tokens) (running : c.kind ≠ .eof) (plain : c.kind ≠ .minus) :
    Charted tokens c.position c.next.position [] := by
  rw [position_next running]
  refine ⟨Nat.le_succ _, nofun, .nil, nofun, fun m t low high here minus => ?_⟩
  obtain rfl : m = c.position := by omega
  rw [h.getElem?_position, Option.some.injEq] at here
  rw [← here, h.kind_token] at minus
  exact absurd minus plain

/-- An operator is passed. -/
theorem In.charted_operator {node : Expr} {stance : Stance} (h : c.In tokens)
    (running : c.kind ≠ .eof) (own : node.operatorStance? = some (c.token, stance))
    (told : c.kind = .minus → stanceBehind? (kindBefore tokens c.position) = some stance) :
    Charted tokens c.position c.next.position [(c.position, node)] := by
  rw [position_next running]
  refine ⟨Nat.le_succ _, ?_, List.pairwise_singleton _ _, ?_, fun m t low high _ _ => ?_⟩
  · simp
  · rw [List.forall_mem_singleton]
    refine ⟨c.token, stance, h.getElem?_position, own, ?_⟩
    rwa [h.kind_token]
  · obtain rfl : m = c.position := by omega
    exact ⟨node, List.mem_singleton_self _⟩

end Cursor

namespace Charted

open Cursor

variable {tokens : List Token} {lo : Nat} {ops : List (Nat × Expr)} {c : Cursor}

theorem next (h : Charted tokens lo c.position ops) (hc : c.In tokens) (running : c.kind ≠ .eof)
    (plain : c.kind ≠ .minus) : Charted tokens lo c.next.position ops := by
  have all := h.append (hc.charted_plain running plain)
  rwa [List.append_nil] at all

theorem skipColon (h : Charted tokens lo c.position ops) (hc : c.In tokens) :
    Charted tokens lo c.skipColon.position ops := by
  by_cases colon : c.kind = .colon
  · rw [skipColon_of_kind_eq colon]
    exact h.next hc (colon.trans_ne (by simp)) (colon.trans_ne (by simp))
  · rwa [skipColon_of_kind_ne colon]

end Charted

/-! ### What is read is charted -/

namespace Goal

open Cursor

variable {tokens : List Token} {goal : Goal} {c d : Cursor} {e : Expr} {xs : List Event} {l : Level}

/-- The operators of what a goal comes to.  A chain begins behind its operand, which begins at `n`. -/
def Charts (tokens : List Token) (goal : Goal) (c d : Cursor) (e : Expr) : Prop :=
  match goal with
  | .level l => l.Expects tokens c → Charted tokens c.position d.position (e.operators c.position)
  | .chain _ left => ∀ n, n + left.width = c.position →
      Charted tokens n c.position (left.operators n) →
      stanceBehind? (kindBefore tokens c.position) = some .between →
      Charted tokens n d.position (e.operators n)

/-- An operator and the operand on its right. -/
theorem Charts.cons {node right : Expr} {stance : Stance}
    (h : Charts tokens (.level l) c.next d right) (hc : c.In tokens) (running : c.kind ≠ .eof)
    (later : stanceBehind? (some c.kind) = some l.stance)
    (own : node.operatorStance? = some (c.token, stance))
    (told : c.kind = .minus → stanceBehind? (kindBefore tokens c.position) = some stance) :
    Charted tokens c.position d.position ((c.position, node) :: right.operators c.next.position) :=
  (hc.charted_operator running own told).append (h (hc.expects_next running later))

/-- The minuses of what is read are charted.  By induction on the derivation: a level is entered where
its stance is the one that is told, and a chain behind an operand. -/
theorem Reads.charts (h : Reads goal c e d xs) (hc : c.In tokens) : Charts tokens goal c d e := by
  induction h with
  | @forgiven rung c right d _ _ _ _ forgives operator reads _ ihRight ihChain =>
    intro expects
    have running := Kind.ne_eof_of_mem_operators operator
    refine ihChain (reads.in hc.next) _ (reads.width_missingLeft running) ?_ (reads.between hc.next)
    rw [operators_missingLeft running]
    refine (ihRight hc.next).cons hc running (stanceBehind?_of_operator operator) rfl ?_
    intro minus
    rw [minus] at operator
    have term : rung = .term := by cases rung <;> revert operator <;> decide
    rw [expects minus, term]
    rfl
  | operand operand reads _ ihLeft ihChain =>
    intro expects
    have left := ihLeft hc (expects.firstOperand operand)
    exact ihChain (reads.in hc) _ reads.position_eq.symm left (reads.between hc)
  | @link rung left c right d _ _ _ _ operator reads _ ihRight ihChain =>
    intro n place operators between
    have running := Kind.ne_eof_of_mem_operators operator
    have later := stanceBehind?_of_operator operator
    refine ihChain (reads.in hc.next) n (reads.width_binary running place) ?_ (reads.between hc.next)
    rw [operators_binary running place]
    exact operators.append ((ihRight hc.next).cons hc running later rfl fun _ => between)
  | stop => exact fun _ _ operators _ => operators
  | choice reads asks readsTrue _ ihCondition ihTrue ihFalse =>
    intro expects
    have hd := reads.in hc
    have he := readsTrue.in hd.next
    have running := asks.trans_ne (by simp : Kind.question ≠ .eof)
    have first := (ihCondition hc expects).next hd running (asks.trans_ne (by simp))
    have middle := ihTrue hd.next (hd.expects_next running (by rw [asks]; rfl))
    have last := ihFalse he.skipColon (readsTrue.expects_skipColon he)
    rw [reads.operators_ternary asks readsTrue]
    exact first.append ((middle.skipColon he).append last)
  | noChoice _ _ ih => exact ih hc
  | prefixed operator _ ih =>
    intro expects
    have running := Kind.ne_eof_of_mem_unaryOperators operator
    rw [operators_unary running]
    exact (ih hc.next).cons hc running (stanceBehind?_of_unaryOperator operator) rfl expects
  | primary _ _ ih => exact ih hc
  | leaf running leaf =>
    intro _
    refine hc.charted_plain running fun minus => ?_
    have literal := Token.kind_mem_of_leaf? leaf
    rw [hc.kind_token, minus] at literal
    revert literal
    decide
  | group opens reads closes ih =>
    intro _
    have running := opens.trans_ne (by simp : Kind.openParen ≠ .eof)
    have opening := hc.charted_plain running (opens.trans_ne (by simp))
    have inside := ih hc.next (hc.expects_next running (by rw [opens]; rfl))
    rw [operators_grouping running]
    exact opening.append
      (inside.next (reads.in hc.next) (closes.trans_ne (by simp)) (closes.trans_ne (by simp)))

end Goal

/-! ### The reports of what is read -/

/-- What is reported of a node at a place: an operator without its left operand. -/
def orphanReport? (x : Nat × Expr) : Option Report :=
  match x.2 with
  | .missingLeft operator _ => some ⟨x.1, operator, .missingOperand⟩
  | _ => none

@[simp] theorem filterMap_missingLeft {n : Nat} {t : Token} {right : Expr} {ops : List (Nat × Expr)} :
    ((n, .missingLeft t right) :: ops).filterMap orphanReport? =
      ⟨n, t, .missingOperand⟩ :: ops.filterMap orphanReport? := rfl

/-- The reports against one place are the ones of its operator. -/
theorem filter_index_filterMap (ops : List (Nat × Expr)) (m : Nat) :
    (ops.filterMap orphanReport?).filter (fun x => x.index = m) =
      (ops.filter fun x => x.1 = m).filterMap orphanReport? := by
  rw [List.filter_filterMap, List.filterMap_filter]
  refine congrArg (List.filterMap · ops) (funext ?_)
  rintro ⟨n, node⟩
  cases node with
  | missingLeft => simp [orphanReport?, Option.filter]
  | _ => simp [orphanReport?]

namespace Goal

variable {goal : Goal} {c d : Cursor} {e : Expr} {xs : List Event}

/-- The reports of what a goal comes to.  Those of an operand in front of a chain were made before. -/
def Reported (goal : Goal) (c : Cursor) (e : Expr) (rs : List Report) : Prop :=
  match goal with
  | .level _ => (e.operators c.position).filterMap orphanReport? = rs
  | .chain _ left => ∀ n, n + left.width = c.position →
      (e.operators n).filterMap orphanReport? = (left.operators n).filterMap orphanReport? ++ rs

theorem Reads.reported (h : Reads goal c e d xs) : Reported goal c e (reports xs) := by
  induction h with
  | forgiven _ operator reads _ ihRight ihChain =>
    have running := Kind.ne_eof_of_mem_operators operator
    have chain := ihChain _ (reads.width_missingLeft running)
    rw [operators_missingLeft running, filterMap_missingLeft, ihRight, List.cons_append,
      ← reports_append] at chain
    exact chain
  | operand _ reads _ ihLeft ihChain =>
    have chain := ihChain _ reads.position_eq.symm
    rw [ihLeft, ← reports_append] at chain
    exact chain
  | link operator reads _ ihRight ihChain =>
    intro n place
    have running := Kind.ne_eof_of_mem_operators operator
    have chain := ihChain n (reads.width_binary running place)
    rw [operators_binary running place, List.filterMap_append, List.filterMap_cons_none rfl, ihRight,
      List.append_assoc, ← reports_append] at chain
    exact chain
  | stop => exact fun _ _ => (List.append_nil _).symm
  | choice reads asks readsTrue _ ihCondition ihTrue ihFalse =>
    rw [Reported, reads.operators_ternary asks readsTrue, List.filterMap_append,
      List.filterMap_append, ihCondition, ihTrue, ihFalse, reports_append, reports_append]
  | noChoice _ _ ih => exact ih
  | prefixed operator _ ih =>
    rw [Reported, operators_unary (Kind.ne_eof_of_mem_unaryOperators operator),
      List.filterMap_cons_none rfl, ih]
  | primary _ _ ih => exact ih
  | leaf => rfl
  | group opens _ _ ih => rw [Reported, operators_grouping (opens.trans_ne (by simp)), ih]

end Goal

/-! ### The minuses of a whole expression -/

/-- What the tokens say of the operators of a tree that was read from the first of them. -/
structure Told (tokens : List Token) (r : Reply) (e : Expr) : Prop where
  /-- The tree is written with the tokens up to the cursor. -/
  yields : e.Yields (tokens.take r.cursor.position)
  /-- Every node with an operator is among the operators once. -/
  nodes : ((e.operators 0).map Prod.snd).Perm (e.nodes.filter fun s => s.operatorStance?.isSome)
  /-- The operator of a node stands at its place. -/
  places : ∀ x ∈ e.operators 0, ∃ t stance, tokens[x.1]? = some t ∧
    x.2.operatorStance? = some (t, stance)
  /-- A minus is the operator of one node, and the token in front of it tells its stance.  It is
  reported once if it lacks its left operand, and never otherwise. -/
  minus : ∀ m t, m < r.cursor.position → tokens[m]? = some t → t.kind = .minus →
    ∃ node stance, (e.operators 0).filter (fun x => x.1 = m) = [(m, node)] ∧
      node.operatorStance? = some (t, stance) ∧
      stanceBehind? (kindBefore tokens m) = some stance ∧
      (reports r.events).filter (fun x => x.index = m) =
        if stance = .orphaned then [⟨m, t, .missingOperand⟩] else []

/-- **Every minus is told by the token in front of it.** -/
theorem Cursor.readAll_told {tokens : List Token} {c : Cursor} {e : Expr}
    (start : ofTokens? tokens = some c) (tree : c.readAll.tree? = some e) :
    Told tokens c.readAll e := by
  obtain ⟨origin, front⟩ := start_of_ofTokens? start
  have hc := in_of_ofTokens? start
  obtain ⟨d, xs, reads⟩ := exists_reads_of_readAll tree
  rw [readAll_of_reads reads]
  -- at the start a minus lacks its left operand, and the loosest level takes it so
  have expects : Level.comma.Expects tokens c := fun _ => by rw [origin]; rfl
  have charted := reads.charts hc expects
  have reported := reads.reported
  rw [Goal.Reported] at reported
  rw [origin] at charted reported
  refine ⟨?_, e.operators_perm 0, fun x mem => ?_, fun m t behind here minus => ?_⟩
  · obtain ⟨ts, passes, yields⟩ := reads.makes
    have taken := passes.eq_take
    rw [front, origin, Nat.sub_zero] at taken
    rw [← taken]
    exact yields
  · obtain ⟨t, stance, here, own, -⟩ := charted.told x mem
    exact ⟨t, stance, here, own⟩
  · obtain ⟨node, mem⟩ := charted.complete m t (Nat.zero_le m) behind here minus
    obtain ⟨_, stance, same, own, told⟩ := charted.told _ mem
    cases here.symm.trans same
    refine ⟨node, stance, charted.filter_eq mem, own, told minus, ?_⟩
    rw [← reported, filter_index_filterMap, charted.filter_eq mem]
    cases node <;> cases own <;> rfl

section Sample

open Token

/-- `- nil - - ( true ) , - false`, with a minus of each stance. -/
theorem Cursor.readAll_told_of_signs :
    let tokens := [loose .minus "-", loose .kwNil "nil", loose .minus "-", loose .minus "-",
      loose .openParen "(", loose .kwTrue "true", loose .closeParen ")", loose .comma ",",
      loose .minus "-", loose .kwFalse "false", loose .eof ""]
    let tree := Expr.binary
      (.binary (.missingLeft (loose .minus "-") (.literal .nil)) (loose .minus "-")
        (.unary (loose .minus "-") (.grouping (.literal (.boolean true)))))
      (loose .comma ",") (.missingLeft (loose .minus "-") (.literal (.boolean false)))
    let c : Cursor := ⟨0, loose .minus "-", tokens⟩
    Cursor.ofTokens? tokens = some c ∧ c.readAll.tree? = some tree ∧ Told tokens c.readAll tree ∧
      (tree.operators 0).map (fun x => (x.1, x.2.operatorStance?.map Prod.snd)) =
        [(0, some .orphaned), (2, some .between), (3, some .before), (7, some .between),
          (8, some .orphaned)] := by
  intro tokens tree c
  have read : c.readAll.tree? = some tree := by decide +kernel
  exact ⟨rfl, read, Cursor.readAll_told rfl read, by decide⟩

end Sample

end LoxReader
