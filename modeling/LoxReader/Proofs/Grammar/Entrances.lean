import LoxReader.Proofs.Grammar.Pending
import Mathlib.Data.List.Perm.Subperm

/-!
# Where the rungs are entered

No rung is entered twice at one token: it is entered again only behind a token that was passed, and
the comma, to which nothing leads back, is entered once.  So the entrances on the log are as many as
the tokens that were looked at allow, four for each of them and one more.
-/

namespace LoxReader

/-- The rung that an event enters, and where. -/
def Event.entrance? : Event → Option (Rung × Nat)
  | entered rung position => some (rung, position)
  | _ => none

/-- The entrances among some events, in order. -/
def entrances (events : List Event) : List (Rung × Nat) := events.filterMap Event.entrance?

/-- Where the rung was entered. -/
def Rung.positions (rung : Rung) (xs : List (Rung × Nat)) : List Nat :=
  (xs.filter (·.1 = rung)).map Prod.snd

/-- An entrance on the log. -/
def entranceEntry (x : Rung × Nat) : Log.Entry := (Event.entered x.1 x.2).entry

/-- The entries of the lowest severity on the log. -/
def Sink.traces (sink : Sink) (events : List Event) : List Log.Entry :=
  (sink.log events).filter (·.severity = .trace)

section Views

variable {xs ys : List Event} {rung : Rung} {i : Nat} {t : Token} {fault : Fault}

@[simp] theorem entrances_nil : entrances [] = [] := rfl

@[simp] theorem entrances_append : entrances (xs ++ ys) = entrances xs ++ entrances ys :=
  List.filterMap_append

@[simp] theorem entrances_entered_cons :
    entrances (.entered rung i :: xs) = (rung, i) :: entrances xs := rfl

@[simp] theorem entrances_reported_cons : entrances (.reported i t fault :: xs) = entrances xs := rfl

@[simp] theorem entrances_abandoned_cons : entrances (.abandoned i :: xs) = entrances xs := rfl

/-- On the log the entrances are told by their severity, wherever the diagnostics go. -/
theorem Sink.traces_eq (sink : Sink) (xs : List Event) :
    sink.traces xs = (entrances xs).map entranceEntry := by
  induction xs with
  | nil => rfl
  | cons x xs ih =>
    have split : sink.traces (x :: xs) =
        (sink.entries x).filter (·.severity = .trace) ++ sink.traces xs := by
      rw [traces, log, List.flatMap_cons, List.filter_append]
      rfl
    rw [split, ih]
    cases x <;> cases sink <;> rfl

theorem Rung.mem_positions {xs : List (Rung × Nat)} : i ∈ rung.positions xs ↔ (rung, i) ∈ xs := by
  simp [positions]

@[simp] theorem Rung.positions_nil (rung : Rung) : rung.positions [] = [] := rfl

@[simp] theorem Rung.positions_append (rung : Rung) (xs ys : List (Rung × Nat)) :
    rung.positions (xs ++ ys) = rung.positions xs ++ rung.positions ys := by
  simp [positions]

/-- Every entrance is one of a rung. -/
theorem length_eq_add_positions (xs : List (Rung × Nat)) :
    xs.length = (Rung.comma.positions xs).length + (Rung.equality.positions xs).length +
      (Rung.comparison.positions xs).length + (Rung.term.positions xs).length +
      (Rung.factor.positions xs).length := by
  induction xs with
  | nil => rfl
  | cons x xs ih =>
    obtain ⟨rung, i⟩ := x
    rw [List.length_cons, ih]
    cases rung <;> simp [Rung.positions] <;> omega

end Views

/-! ### Rising entrances -/

/-- Each rung is entered from its place in `lo` on and before its place in `hi`, and each time behind
the time before. -/
structure Rising (lo hi : Rung → Nat) (xs : List Event) : Prop where
  le : ∀ r, lo r ≤ hi r
  bounds : ∀ x ∈ entrances xs, lo x.1 ≤ x.2 ∧ x.2 < hi x.1
  sorted : (entrances xs).Pairwise fun x y => x.1 = y.1 → x.2 < y.2

namespace Rising

variable {lo lo' mid hi hi' : Rung → Nat} {xs ys : List Event} {rung : Rung} {i : Nat}

theorem of_none (le : ∀ r, lo r ≤ hi r) (h : entrances xs = []) : Rising lo hi xs := by
  refine ⟨le, ?_, ?_⟩
  · rw [h]
    exact fun _ mem => absurd mem List.not_mem_nil
  · rw [h]
    exact .nil

theorem single (le : ∀ r, lo r ≤ hi r) (h : entrances xs = [(rung, i)]) (low : lo rung ≤ i)
    (high : i < hi rung) : Rising lo hi xs := by
  refine ⟨le, ?_, ?_⟩
  · rw [h, List.forall_mem_singleton]
    exact ⟨low, high⟩
  · rw [h]
    exact List.pairwise_singleton _ _

theorem mono (h : Rising lo hi xs) (low : ∀ r, lo' r ≤ lo r) (high : ∀ r, hi r ≤ hi' r) :
    Rising lo' hi' xs := by
  refine ⟨fun r => ?_, fun x mem => ?_, h.sorted⟩
  · exact Nat.le_trans (low r) (Nat.le_trans (h.le r) (high r))
  · have := h.bounds x mem
    exact ⟨Nat.le_trans (low _) this.1, Nat.lt_of_lt_of_le this.2 (high _)⟩

theorem append (h : Rising lo mid xs) (h' : Rising mid hi ys) : Rising lo hi (xs ++ ys) := by
  refine ⟨fun r => Nat.le_trans (h.le r) (h'.le r), ?_, ?_⟩
  · intro x mem
    rw [entrances_append] at mem
    have := h.le x.1
    have := h'.le x.1
    rcases List.mem_append.1 mem with mem | mem
    · have := h.bounds x mem
      omega
    · have := h'.bounds x mem
      omega
  · rw [entrances_append]
    refine List.pairwise_append.2 ⟨h.sorted, h'.sorted, fun x mem y mem' same => ?_⟩
    have first := h.bounds x mem
    have second := h'.bounds y mem'
    rw [same] at first
    omega

theorem positions (h : Rising lo hi xs) (rung : Rung) :
    (rung.positions (entrances xs)).Pairwise (· < ·) := by
  unfold Rung.positions
  rw [List.pairwise_map]
  refine (h.sorted.filter _).imp_of_mem fun mem mem' rises => ?_
  have same := of_decide_eq_true (List.mem_filter.1 mem).2
  have same' := of_decide_eq_true (List.mem_filter.1 mem').2
  exact rises (same.trans same'.symm)

/-- A rung is entered at most as often as there are positions. -/
theorem length_positions_le (h : Rising lo hi xs) (rung : Rung) :
    (rung.positions (entrances xs)).length ≤ hi rung - lo rung := by
  have inside : rung.positions (entrances xs) ⊆ List.range' (lo rung) (hi rung - lo rung) := by
    intro i mem
    have bounds : lo rung ≤ i ∧ i < hi rung := h.bounds _ (Rung.mem_positions.1 mem)
    rw [List.mem_range'_1]
    omega
  have distinct : (rung.positions (entrances xs)).Nodup := (h.positions rung).imp Nat.ne_of_lt
  have fewer := (List.subperm_of_subset distinct inside).length_le
  rwa [List.length_range'] at fewer

end Rising

/-! ### Entrances of a reading -/

namespace Goal

open Cursor

/-- Where a goal may first enter a rung.  A looser rung than its level is entered behind a token. -/
def origin (goal : Goal) (c : Cursor) (rung : Rung) : Nat :=
  match goal with
  | .level l => if l.rank ≤ (Level.rung rung).rank then c.position else c.position + 1
  | .chain _ _ => c.position

variable {goal goal' : Goal} {c c' d m : Cursor} {e : Expr} {xs ys : List Event} {due : List Token}
  {rung : Rung}

theorem position_le_origin (goal : Goal) (c : Cursor) (r : Rung) : c.position ≤ goal.origin c r := by
  unfold origin
  split
  · split <;> omega
  · exact Nat.le_refl _

theorem origin_le (goal : Goal) (c : Cursor) (r : Rung) : goal.origin c r ≤ c.position + 1 := by
  unfold origin
  split
  · split <;> omega
  · omega

theorem origin_mono {l l' : Level} (h : l.rank ≤ l'.rank) (c : Cursor) (r : Rung) :
    (level l).origin c r ≤ (level l').origin c r := by
  simp only [origin]
  split <;> split <;> omega

/-- Behind the next token every rung may be entered. -/
theorem origin_le_next (h : c.kind ≠ .eof) (goal goal' : Goal) (r : Rung) :
    goal.origin c r ≤ goal'.origin c.next r := by
  have first := goal.origin_le c r
  have second := goal'.position_le_origin c.next r
  rw [position_next h] at second
  exact Nat.le_trans first second

/-- Entrances in front of a cursor, and then a goal that begins there or behind it. -/
theorem rising_upTo {lo : Rung → Nat} (goal : Goal) (h : Rising lo (fun _ => d.position) xs)
    (le : d.position ≤ m.position) : Rising lo (goal.origin m) xs :=
  h.mono (fun _ => Nat.le_refl _) fun r => Nat.le_trans le (goal.position_le_origin m r)

section Origins

variable {hi : Rung → Nat} {l l' : Level}

/-- A goal that has gone on behind a token. -/
theorem rising_next (hne : c.kind ≠ .eof) (h : Rising (goal'.origin c.next) hi xs) :
    Rising (goal.origin c) hi xs :=
  h.mono (origin_le_next hne goal goal') fun _ => Nat.le_refl _

/-- A level that has gone on with a tighter one. -/
theorem rising_tighter (le : l.rank ≤ l'.rank) (h : Rising ((level l').origin c) hi xs) :
    Rising ((level l).origin c) hi xs :=
  h.mono (origin_mono le c) fun _ => Nat.le_refl _

end Origins

/-- A rung is entered, and then the level of its first operand may enter the tighter ones here. -/
theorem rising_operand (rung : Rung) (c : Cursor) :
    Rising ((level (.rung rung)).origin c) ((level rung.firstOperand).origin c)
      [.entered rung c.position] := by
  have tighter := rung.rank_lt_rank_firstOperand
  refine .single (origin_mono (Nat.le_of_lt tighter) c) rfl ?_ ?_
  · exact Nat.le_of_eq (if_pos (Nat.le_refl _))
  · have behind : (level rung.firstOperand).origin c rung = c.position + 1 := if_neg (by omega)
    omega

/-- A rung is entered at an operator without its left operand, which is passed. -/
theorem rising_forgiven (ho : c.kind ∈ rung.operators) :
    Rising ((level (.rung rung)).origin c) ((level rung.laterOperand).origin c.next)
      [.entered rung c.position, .reported c.position c.token .missingOperand] := by
  have hne := Kind.ne_eof_of_mem_operators ho
  refine .single (origin_le_next hne _ _) rfl ?_ ?_
  · exact Nat.le_of_eq (if_pos (Nat.le_refl _))
  · have behind := (level rung.laterOperand).position_le_origin c.next rung
    rw [position_next hne] at behind
    exact behind

/-- The entrances on the way to a tree.  By induction on the derivation: each part goes on where the
part in front of it ends, and an entrance at that token was one of a looser rung. -/
theorem Reads.rising (h : Reads goal c e d xs) :
    Rising (goal.origin c) (fun _ => d.position) xs := by
  induction h with
  | forgiven _ ho _ _ ihRight ihChain => exact (rising_forgiven ho).append (ihRight.append ihChain)
  | operand _ _ _ ihLeft ihChain => exact (rising_operand _ _).append (ihLeft.append ihChain)
  | link ho _ _ ihRight ihChain =>
    exact rising_next (Kind.ne_eof_of_mem_operators ho) (ihRight.append ihChain)
  | stop => exact .of_none (fun _ => Nat.le_refl _) rfl
  | @choice _ _ d _ e _ _ _ _ _ _ _ _ _ ihCondition ihTrue ihFalse =>
    have condition := rising_upTo (level .ternary) ihCondition d.position_le_next
    have onTrue := rising_upTo (level .ternary) ihTrue e.position_le_skipColon
    exact rising_tighter (by decide) (condition.append (onTrue.append ihFalse))
  | noChoice _ _ ih => exact rising_tighter (by decide) ih
  | prefixed ho _ ih => exact rising_next (Kind.ne_eof_of_mem_unaryOperators ho) ih
  | primary _ _ ih => exact rising_tighter (by decide) ih
  | leaf hne =>
    refine .of_none (fun r => ?_) rfl
    rw [position_next hne]
    exact origin_le _ _ _
  | @group _ _ d _ ho _ _ ih =>
    have closed := ih.mono (fun _ => Nat.le_refl _) fun _ => d.position_le_next
    exact rising_next (ho.trans_ne (by simp)) closed

/-- The entrances on the way to a goal that is awaited. -/
theorem Awaits.rising (h : Awaits goal c goal' c' xs due) :
    Rising (goal.origin c) (goal'.origin c') xs := by
  cases h with
  | forgiven _ ho => exact rising_forgiven ho
  | forgivenChain _ ho hr => exact (rising_forgiven ho).append hr.rising
  | operand => exact rising_operand _ _
  | operandChain _ hl => exact (rising_operand _ _).append hl.rising
  | link ho => exact .of_none (origin_le_next (Kind.ne_eof_of_mem_operators ho) _ _) rfl
  | linkChain ho hr => exact rising_next (Kind.ne_eof_of_mem_operators ho) hr.rising
  | condition => exact .of_none (origin_mono (by decide) c) rfl
  | @onTrue _ _ d _ hc _ =>
    have condition := rising_upTo (level .ternary) hc.rising d.position_le_next
    exact rising_tighter (by decide) condition
  | @onFalse _ _ d _ e _ _ hc _ ht =>
    have condition := rising_upTo (level .ternary) hc.rising d.position_le_next
    have onTrue := rising_upTo (level .ternary) ht.rising e.position_le_skipColon
    exact rising_tighter (by decide) (condition.append onTrue)
  | prefixed ho => exact .of_none (origin_le_next (Kind.ne_eof_of_mem_unaryOperators ho) _ _) rfl
  | primary => exact .of_none (origin_mono (by decide) c) rfl
  | group ho => exact .of_none (origin_le_next (ho.trans_ne (by simp)) _ _) rfl

/-- The entrances on the way to a failure.  At the token in front of the cursor rungs may have been
entered too. -/
theorem FailsAt.rising (h : FailsAt goal c m d xs) :
    Rising (goal.origin c) (fun _ => d.position + 1) xs := by
  induction h with
  | breaks h =>
    cases h with
    | worthless =>
      refine .of_none (fun r => ?_) rfl
      exact Nat.le_trans (origin_le _ _ r) (Nat.succ_le_succ (position_le_next _))
    | unclosed ho hi =>
      refine rising_next (ho.trans_ne (by simp)) (hi.rising.append ?_)
      exact .of_none (fun _ => Nat.le_succ _) rfl
    | stray => exact .of_none (origin_le _ _) rfl
  | awaits h _ ih => exact h.rising.append ih

/-! ### Commas -/

/-- Where a goal enters the rung of the comma. -/
def commas (goal : Goal) (c : Cursor) : List Nat :=
  match goal with
  | .level .comma => [c.position]
  | _ => []

@[simp] theorem positions_entered (rung : Rung) (c : Cursor) (xs : List (Rung × Nat)) :
    Rung.comma.positions ((rung, c.position) :: xs) =
      (level (.rung rung)).commas c ++ Rung.comma.positions xs := by
  cases rung <;> rfl

@[simp] theorem commas_chain (rung : Rung) (left : Expr) (c : Cursor) :
    (chain rung left).commas c = [] := rfl

/-- No operand is of the level of the comma. -/
@[simp] theorem commas_firstOperand (rung : Rung) (c : Cursor) :
    (level rung.firstOperand).commas c = [] := by
  cases rung <;> rfl

@[simp] theorem commas_laterOperand (rung : Rung) (c : Cursor) :
    (level rung.laterOperand).commas c = [] := by
  cases rung <;> rfl

/-- A goal enters the comma at its own token, if it is the goal of the comma, and nowhere else. -/
theorem Reads.commas (h : Reads goal c e d xs) :
    Rung.comma.positions (entrances xs) = goal.commas c := by
  induction h with
  | forgiven _ _ _ _ ihRight ihChain => simp [ihRight, ihChain]
  | operand _ _ _ ihLeft ihChain => simp [ihLeft, ihChain]
  | link _ _ _ ihRight ihChain => simp [ihRight, ihChain]
  | stop => rfl
  | choice _ _ _ _ ihCondition ihTrue ihFalse => simp [ihCondition, ihTrue, ihFalse, Goal.commas]
  | noChoice _ _ ih => exact ih
  | prefixed _ _ ih => exact ih
  | primary _ _ ih => exact ih
  | leaf => rfl
  | group _ _ _ ih => exact ih

theorem Awaits.commas (h : Awaits goal c goal' c' xs due) :
    Rung.comma.positions (entrances xs) ++ goal'.commas c' = goal.commas c := by
  cases h with
  | forgiven => simp
  | forgivenChain _ _ hr => simp [hr.commas]
  | operand => simp
  | operandChain _ hl => simp [hl.commas]
  | link => simp
  | linkChain _ hr => simp [hr.commas]
  | condition => rfl
  | onTrue hc => simp [hc.commas, Goal.commas]
  | onFalse hc _ ht => simp [hc.commas, ht.commas, Goal.commas]
  | prefixed => rfl
  | primary => rfl
  | group => rfl

theorem FailsAt.commas (h : FailsAt goal c m d xs) :
    Rung.comma.positions (entrances xs) = goal.commas c := by
  induction h with
  | breaks h =>
    cases h with
    | worthless | stray => rfl
    | unclosed _ hi => simp [hi.commas, Goal.commas]
  | awaits h _ ih => rw [entrances_append, Rung.positions_append, ih, h.commas]

end Goal

/-! ### Entrances of a whole reading -/

namespace Cursor

variable {xs : List Event}

/-- At most four rungs are entered at each of these tokens, and the comma once. -/
theorem length_entrances_le {lo hi : Rung → Nat} {i j : Nat} (rises : Rising lo hi xs)
    (low : ∀ r, i ≤ lo r) (high : ∀ r, hi r ≤ j)
    (comma : (Rung.comma.positions (entrances xs)).length = 1) :
    (entrances xs).length ≤ 1 + 4 * (j - i) := by
  have each (r : Rung) : (r.positions (entrances xs)).length ≤ j - i := by
    have := rises.length_positions_le r
    have := low r
    have := high r
    omega
  have equality := each .equality
  have comparison := each .comparison
  have term := each .term
  have factor := each .factor
  rw [length_eq_add_positions, comma]
  omega

/-- Whatever reading comes to, its entrances rise, up to the token it ends at. -/
theorem rising_readAll (c : Cursor) :
    Rising (fun _ => c.position) (fun _ => c.readAll.cursor.position + 1) c.readAll.events := by
  have low := (Goal.level .comma).position_le_origin c
  rcases c.readAll_cases with ⟨e, d, xs, reads, reply⟩ | ⟨d, xs, fails, reply⟩
  · rw [reply]
    exact reads.rising.mono low fun _ => Nat.le_succ _
  · obtain ⟨m, failsAt⟩ := fails.exists_failsAt
    rw [reply]
    exact (failsAt.rising.mono low fun _ => Nat.le_refl _).append
      (.of_none (fun _ => Nat.le_refl _) rfl)

theorem commas_readAll (c : Cursor) :
    Rung.comma.positions (entrances c.readAll.events) = [c.position] := by
  rcases c.readAll_cases with ⟨e, d, xs, reads, reply⟩ | ⟨d, xs, fails, reply⟩
  · rw [reply]
    exact reads.commas
  · obtain ⟨m, failsAt⟩ := fails.exists_failsAt
    rw [reply, entrances_append, Rung.positions_append, failsAt.commas]
    rfl

/-- **Reading is linear.**  The lowest entries of its log are the entrances of the rungs.  Each rung
is entered at rising tokens, and the comma once; so there are at most four entrances for each token
from the first that was looked at to the last, and one more.  And every goal ends, with a tree or
without: its reply is that of a derivation. -/
theorem readAll_linear (c : Cursor) (sink : Sink) :
    let r := c.readAll
    sink.traces r.events = (entrances r.events).map entranceEntry ∧
      (∀ rung : Rung, (rung.positions (entrances r.events)).Pairwise (· < ·)) ∧
      Rung.comma.positions (entrances r.events) = [c.position] ∧
      c.position ≤ r.cursor.position ∧
      (sink.traces r.events).length ≤ 1 + 4 * (r.cursor.position - c.position + 1) ∧
      (∀ goal : Goal, goal.Ends c) ∧
      (∀ goal e d xs, Goal.run goal c = ⟨some e, d, xs⟩ ↔ Goal.Reads goal c e d xs) ∧
      ∀ goal d xs, Goal.run goal c = ⟨none, d, xs⟩ ↔ Goal.Fails goal c d xs := by
  intro r
  have rises := c.rising_readAll
  have comma := c.commas_readAll
  have traces := sink.traces_eq r.events
  obtain ⟨ts, passes⟩ := Goal.exists_passes_run (.level .comma) c
  have forward : c.position ≤ r.cursor.position := by
    rw [show r.cursor = (Goal.run (.level .comma) c).cursor from c.readAll_cursor, passes.position]
    exact Nat.le_add_right _ _
  refine ⟨traces, rises.positions, comma, forward, ?_, fun goal => goal.ends c,
    fun _ _ _ _ => Goal.reads_iff.symm, fun _ _ _ => Goal.fails_iff.symm⟩
  rw [traces, List.length_map]
  have bound := length_entrances_le rises (fun _ => Nat.le_refl _) (fun _ => Nat.le_refl _)
    (by rw [comma]; rfl)
  rwa [Nat.sub_add_comm forward] at bound

section Sample

open Token

/-- A group goes down the ladder again at its first token, and a right operand from the rung it is
of. -/
theorem readAll_linear_of_group :
    let tokens := [loose .kwNil "nil", loose .comma ",", loose .openParen "(", loose .kwTrue "true",
      loose .slash "/", loose .kwFalse "false", loose .closeParen ")", loose .eof ""]
    let c : Cursor := ⟨0, loose .kwNil "nil", tokens⟩
    let r := c.readAll
    let entered : List (Rung × Nat) :=
      [(.comma, 0), (.equality, 0), (.comparison, 0), (.term, 0), (.factor, 0),
       (.equality, 2), (.comparison, 2), (.term, 2), (.factor, 2),
       (.equality, 3), (.comparison, 3), (.term, 3), (.factor, 3), (.factor, 5)]
    entrances r.events = entered ∧ Sink.kept.traces r.events = entered.map entranceEntry ∧
      (∀ rung : Rung, (rung.positions entered).Pairwise (· < ·)) ∧
      Rung.comma.positions entered = [0] ∧ r.cursor.position = 7 ∧
      (Sink.kept.traces r.events).length ≤ 1 + 4 * (r.cursor.position - c.position + 1) := by
  intro tokens c r entered
  have found : entrances r.events = entered := by decide +kernel
  obtain ⟨traces, rises, comma, -, bound, -⟩ := readAll_linear c .kept
  rw [found] at traces rises comma
  exact ⟨found, traces, rises, comma, by decide +kernel, bound⟩

/-- At an end token alone there are as many entrances as can be. -/
example :
    let c : Cursor := ⟨0, loose .eof "", [loose .eof ""]⟩
    (entrances c.readAll.events).length = 1 + 4 * (c.readAll.cursor.position - c.position + 1) := by
  decide +kernel

end Sample

end Cursor
end LoxReader
