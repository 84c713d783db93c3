import LoxReader.Proofs.Grammar.Yield

/-!
# Reports

The reports among the events of a reading, tied to the tree that is read and to the places of the
tokens.  A tree comes with one report for each operator without its left operand; where there is no
tree, the last report is the fault that ended the reading.  No token is reported twice.
-/

namespace LoxReader

/-- A fault found in a token, with the cursor at `position`. -/
structure Report where
  position : Nat
  token : Token
  fault : Fault
deriving DecidableEq

/-- The report that an event is. -/
def Event.report? : Event → Option Report
  | .reported position token fault => some ⟨position, token, fault⟩
  | _ => none

/-- The reports among some events, in order. -/
def reports (events : List Event) : List Report := events.filterMap Event.report?

/-- The report is made from behind its token: a token without a value is passed before it is
reported as no expression. -/
def Report.Late (x : Report) : Prop := x.fault = .noExpression ∧ x.token.Worthless

instance (x : Report) : Decidable x.Late := by unfold Report.Late; infer_instance

/-- The event does not end a reading: it is an entrance or a report that is forgiven. -/
def Event.Harmless : Event → Prop
  | .entered _ _ => True
  | .reported _ _ fault => fault = .missingOperand
  | .abandoned _ => False

/-- Where the reported token stands. -/
def Report.index (x : Report) : Nat := if x.Late then x.position - 1 else x.position

/-- The diagnostic that a report makes. -/
def Report.diagnostic (x : Report) : Diagnostic := ⟨x.token, x.fault.message⟩

section Views

variable {xs ys : List Event} {rung : Rung} {i : Nat} {t : Token} {fault : Fault}

@[simp] theorem reports_nil : reports [] = [] := rfl

@[simp] theorem reports_append : reports (xs ++ ys) = reports xs ++ reports ys :=
  List.filterMap_append

@[simp] theorem reports_entered_cons : reports (.entered rung i :: xs) = reports xs := rfl

@[simp] theorem reports_reported_cons :
    reports (.reported i t fault :: xs) = ⟨i, t, fault⟩ :: reports xs := rfl

@[simp] theorem reports_abandoned_cons : reports (.abandoned i :: xs) = reports xs := rfl

theorem fault_eq_of_harmless (h : ∀ x ∈ xs, x.Harmless) :
    ∀ x ∈ reports xs, x.fault = .missingOperand := by
  intro x mem
  obtain ⟨event, mem, report⟩ := List.mem_filterMap.1 mem
  have harmless := h event mem
  cases event with
  | reported position token fault =>
    cases report
    exact harmless
  | entered | abandoned => cases report

theorem diagnostics_eq_map_reports (xs : List Event) :
    diagnostics xs = (reports xs).map Report.diagnostic := by
  unfold diagnostics reports
  rw [List.map_filterMap]
  refine congrArg (List.filterMap · xs) (funext fun x => ?_)
  cases x <;> rfl

theorem Report.index_of_not_late {x : Report} (h : ¬ x.Late) : x.index = x.position := by
  unfold index
  rw [if_neg h]

@[simp] theorem Report.index_missingOperand : Report.index ⟨i, t, .missingOperand⟩ = i :=
  index_of_not_late fun h => by cases h.1

@[simp] theorem Report.index_openGroup : Report.index ⟨i, t, .openGroup⟩ = i :=
  index_of_not_late fun h => by cases h.1

end Views

/-! ### One report for each operator without its left operand -/

/-- The operators without their left operand, in pre-order. -/
def Expr.orphans : Expr → List Token
  | literal _ => []
  | grouping inner => inner.orphans
  | unary _ right => right.orphans
  | binary left _ right => left.orphans ++ right.orphans
  | missingLeft operator right => operator :: right.orphans
  | ternary condition _ onTrue _ onFalse => condition.orphans ++ onTrue.orphans ++ onFalse.orphans

theorem Expr.lacksOperand_iff (e : Expr) : e.lacksOperand ↔ e.orphans ≠ [] := by
  induction e with
  | literal => simp [lacksOperand, orphans]
  | grouping _ ih | unary _ _ ih => simpa [lacksOperand, orphans] using ih
  | missingLeft => simp [lacksOperand, orphans]
  | binary _ _ _ ihLeft ihRight =>
    simp only [lacksOperand, orphans, Bool.or_eq_true, ihLeft, ihRight, ne_eq,
      List.append_eq_nil_iff, Decidable.not_and_iff_not_or_not]
  | ternary _ _ _ _ _ ihCondition ihTrue ihFalse =>
    simp only [lacksOperand, orphans, Bool.or_eq_true, ihCondition, ihTrue, ihFalse, ne_eq,
      List.append_eq_nil_iff, Decidable.not_and_iff_not_or_not]

/-- The orphans that a goal has from the start. -/
def Goal.orphans : Goal → List Token
  | .level _ => []
  | .chain _ left => left.orphans

namespace Goal

open Cursor

variable {goal : Goal} {c d : Cursor} {e : Expr} {xs : List Event} {tokens : List Token}

/-- On the way to a tree every fault is forgiven. -/
theorem Reads.harmless (h : Reads goal c e d xs) : ∀ x ∈ xs, x.Harmless := by
  induction h with
  | forgiven _ _ _ _ ihRight ihChain =>
    rw [List.forall_mem_cons, List.forall_mem_cons, List.forall_mem_append]
    exact ⟨trivial, rfl, ihRight, ihChain⟩
  | operand _ _ _ ih ih' =>
    rw [List.forall_mem_cons, List.forall_mem_append]
    exact ⟨trivial, ih, ih'⟩
  | link _ _ _ ih ih' => exact List.forall_mem_append.2 ⟨ih, ih'⟩
  | choice _ _ _ _ ihCondition ihTrue ihFalse =>
    rw [List.forall_mem_append, List.forall_mem_append]
    exact ⟨ihCondition, ihTrue, ihFalse⟩
  | noChoice _ _ ih | prefixed _ _ ih | primary _ _ ih | group _ _ _ ih => exact ih
  | stop | leaf => exact List.forall_mem_nil _

theorem Reads.fault_eq (h : Reads goal c e d xs) : ∀ x ∈ reports xs, x.fault = .missingOperand :=
  fault_eq_of_harmless h.harmless

theorem Reads.orphans_eq (h : Reads goal c e d xs) :
    e.orphans = goal.orphans ++ (reports xs).map Report.token := by
  induction h with
  | forgiven _ _ _ _ ihRight ihChain => simp [ihChain, ihRight, Goal.orphans, Expr.orphans]
  | operand _ _ _ ihLeft ihChain => simp [ihChain, ihLeft, Goal.orphans]
  | link _ _ _ ihRight ihChain => simp [ihChain, ihRight, Goal.orphans, Expr.orphans]
  | stop => simp [Goal.orphans]
  | choice _ _ _ _ ihCondition ihTrue ihFalse =>
    simp [ihCondition, ihTrue, ihFalse, Goal.orphans, Expr.orphans]
  | noChoice _ _ ih | primary _ _ ih => exact ih
  | prefixed _ _ ih => exact ih
  | leaf => rfl
  | group _ _ _ ih => exact ih

end Goal

/-! ### Where the reported tokens stand -/

/-- Reports against tokens of a list from `lo` up to `hi`, each behind the one before. -/
structure Placed (tokens : List Token) (lo hi : Nat) (rs : List Report) : Prop where
  le : lo ≤ hi
  token : ∀ x ∈ rs, tokens[x.index]? = some x.token
  bounds : ∀ x ∈ rs, lo ≤ x.index ∧ x.index < hi
  sorted : rs.Pairwise fun x y => x.index < y.index

namespace Placed

variable {tokens : List Token} {lo lo' mid hi hi' : Nat} {rs ss : List Report} {x : Report}

theorem nil (h : lo ≤ hi) : Placed tokens lo hi [] := ⟨h, by simp, by simp, .nil⟩

theorem single (h : tokens[x.index]? = some x.token) : Placed tokens x.index (x.index + 1) [x] :=
  ⟨Nat.le_succ _, by simpa using h, by simp, List.pairwise_singleton _ _⟩

theorem mono (h : Placed tokens lo hi rs) (hlo : lo' ≤ lo) (hhi : hi ≤ hi') :
    Placed tokens lo' hi' rs := by
  refine ⟨?_, h.token, fun x hx => ?_, h.sorted⟩
  · have := h.le
    omega
  · have := h.bounds x hx
    omega

theorem append (h : Placed tokens lo mid rs) (h' : Placed tokens mid hi ss) :
    Placed tokens lo hi (rs ++ ss) := by
  refine ⟨Nat.le_trans h.le h'.le, fun x hx => ?_, fun x hx => ?_, ?_⟩
  · exact (List.mem_append.1 hx).elim (h.token x) (h'.token x)
  · have := h.le
    have := h'.le
    rcases List.mem_append.1 hx with hx | hx
    · have := h.bounds x hx
      omega
    · have := h'.bounds x hx
      omega
  · refine List.pairwise_append.2 ⟨h.sorted, h'.sorted, fun x hx y hy => ?_⟩
    have := h.bounds x hx
    have := h'.bounds y hy
    omega

end Placed

namespace Cursor

variable {c : Cursor} {tokens : List Token}

/-- The operator in front of the cursor, reported as one without its left operand. -/
theorem In.placed_operator (h : c.In tokens) (hk : c.kind ≠ .eof) :
    Placed tokens c.position c.next.position [⟨c.position, c.token, .missingOperand⟩] := by
  rw [position_next hk]
  exact Placed.single (x := ⟨c.position, c.token, .missingOperand⟩) h.getElem?_position

end Cursor

namespace Goal

open Cursor

variable {goal : Goal} {c d : Cursor} {e : Expr} {xs : List Event} {tokens : List Token}

theorem Reads.placed (h : Reads goal c e d xs) (hc : c.In tokens) :
    Placed tokens c.position d.position (reports xs) := by
  induction h with
  | forgiven _ ho hr _ ihRight ihChain =>
    have hoperator := hc.placed_operator (Kind.ne_eof_of_mem_operators ho)
    simp only [reports_entered_cons, reports_reported_cons, reports_append]
    exact hoperator.append ((ihRight hc.next).append (ihChain (hr.in hc.next)))
  | operand _ hl _ ihLeft ihChain =>
    simp only [reports_entered_cons, reports_append]
    exact (ihLeft hc).append (ihChain (hl.in hc))
  | link _ hr _ ihRight ihChain =>
    have hboth := (ihRight hc.next).append (ihChain (hr.in hc.next))
    rw [reports_append]
    exact hboth.mono (position_le_next _) (Nat.le_refl _)
  | stop => exact .nil (Nat.le_refl _)
  | choice hr _ ht _ ihCondition ihTrue ihFalse =>
    have hn := (hr.in hc).next
    have he := ht.in hn
    rw [reports_append, reports_append]
    refine (ihCondition hc).append ?_
    refine ((ihTrue hn).mono (position_le_next _) ?_).append (ihFalse he.skipColon)
    exact position_le_skipColon _
  | noChoice _ _ ih | primary _ _ ih => exact ih hc
  | prefixed _ _ ih => exact (ih hc.next).mono (position_le_next _) (Nat.le_refl _)
  | leaf => exact .nil (position_le_next _)
  | group _ _ _ ih => exact (ih hc.next).mono (position_le_next _) (position_le_next _)

end Goal

/-! ### The report that ends a reading -/

/-- `x` is the fault that ended a reading at `d`, and the reports `rs` before it were forgiven. -/
structure Halted (tokens : List Token) (lo : Nat) (d : Cursor) (rs : List Report) (x : Report) :
    Prop where
  forgiven : ∀ y ∈ rs, y.fault = .missingOperand
  fault : x.fault = .noExpression ∨ x.fault = .openGroup
  position : x.position = d.position
  index : if x.Late then x.index + 1 = d.position else x.index = d.position
  placed : Placed tokens lo (d.position + 1) (rs ++ [x])

/-- The last of the reports is the fault that ended the reading. -/
def Halts (tokens : List Token) (lo : Nat) (d : Cursor) (rs : List Report) : Prop :=
  ∃ ss x, rs = ss ++ [x] ∧ Halted tokens lo d ss x

namespace Report

open Cursor

variable {c : Cursor} {tokens : List Token}

/-- A token without a value is passed, and then reported. -/
theorem index_passed (hk : c.kind ≠ .eof) (hw : c.token.Worthless) :
    Report.index ⟨c.next.position, c.token, .noExpression⟩ = c.position := by
  have late : Report.Late ⟨c.next.position, c.token, .noExpression⟩ := ⟨rfl, hw⟩
  rw [index, if_pos late, position_next hk, Nat.add_sub_cancel]

/-- A token that begins no expression is not passed. -/
theorem not_late_of_stray (hc : c.In tokens) (ho : c.kind ∉ primaryKinds) :
    ¬ Report.Late ⟨c.position, c.token, .noExpression⟩ := by
  rintro ⟨-, hk, -⟩
  rw [hc.kind_token] at hk
  rcases hk with hk | hk <;> simp [hk, primaryKinds, literalKinds] at ho

end Report

namespace Halts

open Cursor

variable {tokens : List Token} {lo mid : Nat} {c d : Cursor} {rs ss : List Report} {x : Report}

theorem after (h : Halts tokens mid d rs) (hs : ∀ y ∈ ss, y.fault = .missingOperand)
    (hp : Placed tokens lo mid ss) : Halts tokens lo d (ss ++ rs) := by
  obtain ⟨us, x, rfl, h⟩ := h
  refine ⟨ss ++ us, x, (List.append_assoc _ _ _).symm, ?_, h.fault, h.position, h.index, ?_⟩
  · intro y hy
    exact (List.mem_append.1 hy).elim (hs y) (h.forgiven y)
  · rw [List.append_assoc]
    exact hp.append h.placed

theorem mono (h : Halts tokens mid d rs) (hlo : lo ≤ mid) : Halts tokens lo d rs := by
  obtain ⟨us, x, hx, h⟩ := h
  have hp := h.placed.mono hlo (Nat.le_refl _)
  exact ⟨us, x, hx, h.forgiven, h.fault, h.position, h.index, hp⟩

/-- The operator in front of the cursor is forgiven. -/
theorem afterOperator (h : Halts tokens c.next.position d rs) (hc : c.In tokens)
    (hk : c.kind ≠ .eof) :
    Halts tokens c.position d (⟨c.position, c.token, .missingOperand⟩ :: rs) :=
  h.after (by simp) (hc.placed_operator hk)

/-- A fault found in the token in front of the cursor. -/
theorem here (hd : d.In tokens) (hx : x = ⟨d.position, d.token, x.fault⟩)
    (hf : x.fault = .noExpression ∨ x.fault = .openGroup) (hl : ¬ x.Late) :
    Halts tokens d.position d [x] := by
  have hp : x.position = d.position := by rw [hx]
  have hi : x.index = d.position := by rw [Report.index_of_not_late hl, hp]
  refine ⟨[], x, rfl, by simp, hf, hp, ?_, ?_⟩
  · rw [if_neg hl, hi]
  · have ht : tokens[x.index]? = some x.token := by rw [hi, hd.getElem?_position, hx]
    exact hi ▸ Placed.single ht

/-- The token in front of the cursor has no value, and is passed. -/
theorem late (hc : c.In tokens) (hk : c.kind ≠ .eof) (hw : c.token.Worthless) :
    Halts tokens c.position c.next [⟨c.next.position, c.token, .noExpression⟩] := by
  have hl : Report.Late ⟨c.next.position, c.token, .noExpression⟩ := ⟨rfl, hw⟩
  have hi := Report.index_passed hk hw
  have hp := Placed.single (x := ⟨c.next.position, c.token, .noExpression⟩)
    (hi ▸ hc.getElem?_position)
  rw [hi] at hp
  refine ⟨[], _, rfl, by simp, .inl rfl, rfl, ?_, ?_⟩
  · rw [if_pos hl, hi, position_next hk]
  · apply hp.mono (Nat.le_refl _)
    rw [position_next hk]
    omega

end Halts

namespace Goal

open Cursor

variable {goal : Goal} {c d : Cursor} {e : Expr} {xs : List Event} {tokens : List Token}

/-- A derivation that comes to nothing ends with the report of one fault. -/
theorem Fails.halts (h : Fails goal c d xs) (hc : c.In tokens) :
    Halts tokens c.position d (reports xs) := by
  induction h with
  | forgiven _ ho _ ih => exact (ih hc.next).afterOperator hc (Kind.ne_eof_of_mem_operators ho)
  | forgivenChain _ ho hr _ ih =>
    have hright := (ih (hr.in hc.next)).after hr.fault_eq (hr.placed hc.next)
    rw [reports_entered_cons, reports_reported_cons, reports_append]
    exact hright.afterOperator hc (Kind.ne_eof_of_mem_operators ho)
  | operand _ _ ih => exact ih hc
  | operandChain _ hl _ ih =>
    rw [reports_entered_cons, reports_append]
    exact (ih (hl.in hc)).after hl.fault_eq (hl.placed hc)
  | link _ _ ih => exact (ih hc.next).mono (position_le_next _)
  | linkChain _ hr _ ih =>
    rw [reports_append]
    exact ((ih (hr.in hc.next)).after hr.fault_eq (hr.placed hc.next)).mono (position_le_next _)
  | condition _ ih => exact ih hc
  | onTrue hr _ _ ih =>
    have hTrue := (ih (hr.in hc).next).mono (position_le_next _)
    rw [reports_append]
    exact hTrue.after hr.fault_eq (hr.placed hc)
  | onFalse hr _ ht _ ih =>
    have hd := (hr.in hc).next
    have hFalse := (ih (ht.in hd).skipColon).mono (position_le_skipColon _)
    have hTrue := (hFalse.after ht.fault_eq (ht.placed hd)).mono (position_le_next _)
    rw [reports_append, reports_append]
    exact hTrue.after hr.fault_eq (hr.placed hc)
  | prefixed _ _ ih => exact (ih hc.next).mono (position_le_next _)
  | primary _ _ ih => exact ih hc
  | worthless hw hne => exact .late hc hne hw
  | group _ _ ih => exact (ih hc.next).mono (position_le_next _)
  | @unclosed c inner d xs _ hi _ =>
    have hfault : Halts tokens d.position d [⟨d.position, d.token, .openGroup⟩] :=
      .here (hi.in hc.next) rfl (.inr rfl) fun hl => by cases hl.1
    rw [reports_append]
    exact (hfault.after hi.fault_eq (hi.placed hc.next)).mono (position_le_next _)
  | @stray c ho =>
    have late := Report.not_late_of_stray hc ho
    exact .here (x := ⟨c.position, c.token, .noExpression⟩) hc rfl (.inl rfl) late

end Goal

/-! ### The reports of a whole expression -/

/-- What holds of the reports of a reading of a list of tokens. -/
structure Disciplined (tokens : List Token) (r : Reply) : Prop where
  /-- A tree comes with one report for each operator without its left operand, in pre-order. -/
  tree : ∀ e, r.tree? = some e → (∀ x ∈ reports r.events, x.fault = .missingOperand) ∧
    (reports r.events).map Report.token = e.orphans ∧ (reports r.events ≠ [] ↔ e.lacksOperand)
  /-- Where there is no tree, exactly the last report is not forgiven.  It is against the token at
  the cursor, or the one just passed if that has no value. -/
  noTree : r.tree? = none → ∃ rs x, reports r.events = rs ++ [x] ∧
    (∀ y ∈ rs, y.fault = .missingOperand) ∧ (x.fault = .noExpression ∨ x.fault = .openGroup) ∧
    x.position = r.cursor.position ∧
    if x.Late then x.index + 1 = r.cursor.position else x.index = r.cursor.position
  /-- A report is against the token of its index, which is not behind the cursor. -/
  located : ∀ x ∈ reports r.events, tokens[x.index]? = some x.token ∧ x.index ≤ r.cursor.position
  /-- No token is reported twice. -/
  sorted : (reports r.events).Pairwise fun x y => x.index < y.index

/-- **The reports of a whole expression** that is read from any cursor of a list. -/
theorem Cursor.readAll_disciplined {tokens : List Token} {c : Cursor} (hc : c.In tokens) :
    Disciplined tokens c.readAll := by
  rcases c.readAll_cases with ⟨e, d, xs, h, hr⟩ | ⟨d, xs, h, hr⟩
  · have hp := h.placed hc
    have ho := h.orphans_eq
    rw [hr]
    refine ⟨?_, by simp, fun x hx => ⟨hp.token x hx, Nat.le_of_lt (hp.bounds x hx).2⟩, hp.sorted⟩
    rintro _ ⟨⟩
    refine ⟨h.fault_eq, ho.symm, ?_⟩
    rw [e.lacksOperand_iff, ho]
    simp [Goal.orphans]
  · obtain ⟨rs, x, hx, hh⟩ := h.halts hc
    have hx : reports (xs ++ [.abandoned d.position]) = rs ++ [x] := by simpa using hx
    rw [hr]
    refine ⟨by simp, fun _ => ⟨rs, x, hx, hh.forgiven, hh.fault, hh.position, hh.index⟩, ?_, ?_⟩
    · intro y hy
      rw [hx] at hy
      exact ⟨hh.placed.token y hy, Nat.le_of_lt_succ (hh.placed.bounds y hy).2⟩
    · rw [hx]
      exact hh.placed.sorted

section Sample

open Token

/-- Two operators without their left operand, and a group that is not closed. -/
theorem Cursor.readAll_disciplined_of_openGroup :
    let tokens := [loose .star "*", loose .openParen "(", loose .equals "==", loose .kwNil "nil",
      loose .eof ""]
    let r := Cursor.readAll ⟨0, loose .star "*", tokens⟩
    Disciplined tokens r ∧ reports r.events =
      [⟨0, loose .star "*", .missingOperand⟩, ⟨2, loose .equals "==", .missingOperand⟩,
        ⟨4, loose .eof "", .openGroup⟩] := by
  intro tokens r
  refine ⟨Cursor.readAll_disciplined (in_of_ofTokens? (by decide)), ?_⟩
  decide +kernel

/-- A token without a value is not passed when it is met where a group should be closed. -/
theorem Cursor.not_forall_worthless_passed :
    ¬ ∀ (tokens : List Token) (c : Cursor) (x : Report), c.In tokens → c.readAll.tree? = none →
      (reports c.readAll.events).getLast? = some x → x.token.Worthless →
        tokens[c.readAll.cursor.position - 1]? = some x.token := by
  intro h
  let tokens := [loose .openParen "(", loose .kwTrue "true", loose .string "\"", loose .eof ""]
  have passed := h tokens ⟨0, loose .openParen "(", tokens⟩ ⟨2, loose .string "\"", .openGroup⟩
    (in_of_ofTokens? (by decide)) (by decide +kernel) (by decide +kernel) (by decide)
  revert passed
  decide +kernel

end Sample

end LoxReader
