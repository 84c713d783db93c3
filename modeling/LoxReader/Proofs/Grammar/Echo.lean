import LoxReader.Proofs.Grammar.Follow
import LoxReader.Proofs.Grammar.Pending

/-!
# Reading the same tokens again

What a goal comes to depends on the tokens it passes and on the one behind them, and on nothing
else.  The same tokens elsewhere are read in the same way, also when other tokens stand for them
that are of the same kinds and worth the same.
-/

namespace LoxReader

/-- The kinds of token that decide how reading goes on.  All other kinds behind an expression have
the same effect on it. -/
def steeringKinds : List Kind := Level.comma.carriers ++ .colon :: unaryOperators

theorem Level.carriers_subset_steeringKinds (l : Level) : l.carriers ⊆ steeringKinds := by
  rcases l with (_ | _ | _ | _ | _) | _ | _ | _ <;> decide

theorem Rung.operators_subset_steeringKinds (r : Rung) : r.operators ⊆ steeringKinds := by
  cases r <;> decide

theorem unaryOperators_subset_steeringKinds : unaryOperators ⊆ steeringKinds := by decide

/-! ### Other tokens in the place of the same ones -/

section Map

variable (f : Token → Token) (g : Nat → Nat)

/-- The tree with other tokens. -/
def Expr.map : Expr → Expr
  | literal value => literal value
  | grouping inner => grouping inner.map
  | unary operator right => unary (f operator) right.map
  | binary left operator right => binary left.map (f operator) right.map
  | missingLeft operator right => missingLeft (f operator) right.map
  | ternary condition question onTrue colon onFalse =>
    ternary condition.map (f question) onTrue.map (f colon) onFalse.map

/-- The event with another token, at another position. -/
def Event.map : Event → Event
  | entered rung i => entered rung (g i)
  | reported i t fault => reported (g i) (f t) fault
  | abandoned i => abandoned (g i)

/-- The diagnostic with another token. -/
def Diagnostic.map (d : Diagnostic) : Diagnostic := ⟨f d.token, d.message⟩

/-- The goal with other tokens in the operand that it begins behind. -/
def Goal.map : Goal → Goal
  | level l => level l
  | chain rung left => chain rung (left.map f)

/-- The token that stands for `t` is read like `t`. -/
structure Token.Kept (t : Token) : Prop where
  kind : (f t).kind = t.kind
  leaf : (f t).leaf? = t.leaf?

end Map

@[simp] theorem Expr.map_id (e : Expr) : e.map id = e := by
  induction e <;> simp_all [map]

@[simp] theorem Event.map_id : Event.map id id = id := by
  funext x
  cases x <;> rfl

theorem diagnostics_map (f : Token → Token) (g : Nat → Nat) (xs : List Event) :
    diagnostics (xs.map (Event.map f g)) = (diagnostics xs).map (Diagnostic.map f) := by
  unfold diagnostics
  rw [List.filterMap_map, List.map_filterMap]
  refine congrArg (List.filterMap · xs) (funext fun x => ?_)
  cases x <;> rfl

@[simp] theorem Goal.map_id (goal : Goal) : goal.map id = goal := by
  cases goal <;> simp [map]

theorem Token.kept_id (t : Token) : t.Kept id := ⟨rfl, rfl⟩

theorem Token.Kept.worthless {f : Token → Token} {t : Token} (h : t.Kept f) (hw : t.Worthless) :
    (f t).Worthless := by
  obtain ⟨hk, hv⟩ := hw
  have leaf := h.leaf
  unfold leaf? at leaf
  rw [h.kind] at leaf
  refine ⟨h.kind.symm ▸ hk, ?_⟩
  rcases hk with hk | hk <;> simpa [hk, hv] using leaf

namespace Cursor

variable {f : Token → Token} {g : Nat → Nat} {c d e c' d' e' : Cursor} {ts : List Token}
  {kinds : List Kind}

/-- From `c'` to `d'` stand the tokens that are between `c` and `d`, or others for them.  What is
behind them is of the same kind or of one that decides nothing. -/
structure Echoes (f : Token → Token) (g : Nat → Nat) (c d c' d' : Cursor) : Prop where
  tokens : ∃ ts, c.Passes ts d ∧ c'.Passes (ts.map f) d' ∧ ∀ t ∈ ts, t.Kept f
  position : ∀ i, g (c.position + i) = c'.position + i
  behind : d'.kind = d.kind ∨ d'.kind ∉ steeringKinds

namespace Echoes

theorem position_eq (h : Echoes f g c d c' d') : g c.position = c'.position := h.position 0

theorem front (h : Echoes f g c d c' d') : c'.kind = c.kind ∨ c'.kind ∉ steeringKinds := by
  obtain ⟨ts, hp, hp', hk⟩ := h.tokens
  cases ts with
  | nil =>
    rw [← hp.eq_of_nil, ← hp'.eq_of_nil]
    exact h.behind
  | cons t ts =>
    rw [hp.uncons.1, hp'.uncons.1]
    exact .inl (hk t List.mem_cons_self).kind

theorem notMem (h : Echoes f g c d c' d') (hs : kinds ⊆ steeringKinds) (hc : c.kind ∉ kinds) :
    c'.kind ∉ kinds := by
  rcases h.front with hk | hk
  · rwa [hk]
  · intro hm
    exact hk (hs hm)

theorem kind_ne (h : Echoes f g c d c' d') {k : Kind} (hs : k ∈ steeringKinds) (hc : c.kind ≠ k) :
    c'.kind ≠ k := by
  have hm : c'.kind ∉ [k] := h.notMem (by simpa using hs) (by simpa using hc)
  simpa using hm

theorem passed (h : Echoes f g c d c' d') (hd : c ≠ d) : d'.passed = f d.passed := by
  obtain ⟨ts, hp, hp', -⟩ := h.tokens
  rw [hp.passed, hp'.passed, List.getLast?_map]
  cases hl : ts.getLast? with
  | none =>
    rw [List.getLast?_eq_none_iff] at hl
    subst hl
    exact absurd hp.eq_of_nil.symm hd
  | some t => rfl

theorem eq_of_self (h : Echoes f g c c c' d') : d' = c' := by
  obtain ⟨ts, hp, hp', -⟩ := h.tokens
  have hts : ts = [] := by rw [hp.eq_take, Nat.sub_self, List.take_zero]
  subst hts
  exact hp'.eq_of_nil

/-- A cut between two passages is a cut between their echoes. -/
theorem split (h : Echoes f g c e c' e') (hcd : ∃ ts, c.Passes ts d) (hde : ∃ ts, d.Passes ts e) :
    ∃ d', Echoes f g c d c' d' ∧ Echoes f g d e d' e' := by
  obtain ⟨ts, hp⟩ := hcd
  obtain ⟨us, hq⟩ := hde
  obtain ⟨vs, hv, hv', hk⟩ := h.tokens
  have hvs : vs = ts ++ us := by rw [hv.eq_take, ← (hp.trans hq).eq_take]
  subst hvs
  rw [List.map_append] at hv'
  obtain ⟨d', hp', hq'⟩ := hv'.unappend
  have second : Echoes f g d e d' e' := by
    refine ⟨⟨us, hq, hq', fun t ht => hk t (List.mem_append_right _ ht)⟩, ?_, h.behind⟩
    intro i
    rw [hp.position, hp'.position, List.length_map, Nat.add_assoc, Nat.add_assoc]
    exact h.position _
  refine ⟨d', ⟨⟨ts, hp, hp', fun t ht => hk t (List.mem_append_left _ ht)⟩, h.position, ?_⟩, second⟩
  exact second.front

theorem rear (h : Echoes f g c d c' d') : Echoes f g d d d' d' := by
  obtain ⟨ts, hp, -⟩ := h.tokens
  obtain ⟨m, -, hm⟩ := h.split ⟨ts, hp⟩ ⟨[], .refl d⟩
  rwa [← hm.eq_of_self] at hm

/-- The token in front has its echo in front. -/
theorem next (h : Echoes f g c d c' d') (hc : c.kind ≠ .eof) (hd : ∃ ts, c.next.Passes ts d) :
    c'.kind = c.kind ∧ c'.token = f c.token ∧ c.token.Kept f ∧ Echoes f g c.next d c'.next d' := by
  obtain ⟨m, first, second⟩ := h.split ⟨_, passes_next hc⟩ hd
  obtain ⟨ts, hp, hp', hk⟩ := first.tokens
  have hts : ts = [c.token] := by rw [hp.eq_take, ← (passes_next hc).eq_take]
  subst hts
  obtain ⟨hk', -, ht', hn⟩ := hp'.uncons
  have kept : c.token.Kept f := hk _ List.mem_cons_self
  rw [hn.eq_of_nil] at second
  exact ⟨by rw [hk', kept.kind, kind_token hc], ht', kept, second⟩

theorem skipColon (h : Echoes f g c d c' d') (hd : ∃ ts, c.skipColon.Passes ts d) :
    Echoes f g c.skipColon d c'.skipColon d' := by
  by_cases hc : c.kind = .colon
  · rw [skipColon_of_kind_eq hc] at hd ⊢
    obtain ⟨hk, -, -, hn⟩ := h.next (hc.trans_ne (by simp)) hd
    rwa [skipColon_of_kind_eq (hk.trans hc)]
  · rw [skipColon_of_kind_ne hc, skipColon_of_kind_ne (h.kind_ne (by decide) hc)]
    exact h

theorem passed_skipColon (h : Echoes f g c d c' d') (hd : c ≠ d) (h' : Echoes f g d e d' e')
    (he : ∃ ts, d.skipColon.Passes ts e) : d'.skipColon.passed = f d.skipColon.passed := by
  by_cases hc : d.kind = .colon
  · rw [skipColon_of_kind_eq hc] at he ⊢
    have hne : d.kind ≠ .eof := hc.trans_ne (by simp)
    obtain ⟨hk, ht, -, -⟩ := h'.next hne he
    rw [skipColon_of_kind_eq (hk.trans hc), passed_next (hk ▸ hne), passed_next hne, ht]
  · rw [skipColon_of_kind_ne hc, skipColon_of_kind_ne (h'.kind_ne (by decide) hc)]
    exact h.passed hd

end Echoes
end Cursor

namespace Goal

open Cursor

variable {f : Token → Token} {g : Nat → Nat} {goal goal' : Goal} {c d m c' d' m' : Cursor}
  {e : Expr} {xs : List Event} {due : List Token}

/-- **The same tokens are read to the same tree.** -/
theorem Reads.echoes (h : Reads goal c e d xs) (he : Echoes f g c d c' d') :
    Reads (goal.map f) c' (e.map f) d' (xs.map (Event.map f g)) := by
  induction h generalizing c' d' with
  | forgiven hf ho hr hc ihRight ihChain =>
    have hne := Kind.ne_eof_of_mem_operators ho
    obtain ⟨hk, ht, -, hn⟩ := he.next hne (exists_passes_trans hr.passes hc.passes)
    obtain ⟨m, hright, hchain⟩ := hn.split hr.passes hc.passes
    have chain := ihChain hchain
    simp only [Goal.map, Expr.map, ← ht] at chain
    simp only [List.map_cons, List.map_append, Event.map, he.position_eq, ← ht]
    exact .forgiven hf (hk ▸ ho) (ihRight hright) chain
  | operand ho hl hc ihLeft ihChain =>
    obtain ⟨m, hleft, hchain⟩ := he.split hl.passes hc.passes
    simp only [List.map_cons, List.map_append, Event.map, he.position_eq]
    refine .operand (fun hf => ?_) (ihLeft hleft) (ihChain hchain)
    exact he.notMem (Rung.operators_subset_steeringKinds _) (ho hf)
  | link ho hr hc ihRight ihChain =>
    have hne := Kind.ne_eof_of_mem_operators ho
    obtain ⟨hk, ht, -, hn⟩ := he.next hne (exists_passes_trans hr.passes hc.passes)
    obtain ⟨m, hright, hchain⟩ := hn.split hr.passes hc.passes
    have chain := ihChain hchain
    simp only [Goal.map, Expr.map, ← ht] at chain
    rw [List.map_append]
    exact .link (hk ▸ ho) (ihRight hright) chain
  | @stop rung left c ho =>
    rw [he.eq_of_self]
    exact .stop (he.notMem (Rung.operators_subset_steeringKinds _) ho)
  | @choice c condition d onTrue e onFalse i xs ys zs hc hq ht hf ihCondition ihTrue ihFalse =>
    have hne : d.kind ≠ .eof := hq.trans_ne (by simp)
    have hfp := exists_passes_trans (exists_passes_skipColon e) hf.passes
    have htp := exists_passes_trans ht.passes hfp
    obtain ⟨m, hcondition, hrest⟩ := he.split hc.passes (exists_passes_next hne htp)
    obtain ⟨hk, htoken, -, hn⟩ := hrest.next hne htp
    obtain ⟨n, hTrue, hFalse⟩ := hn.split ht.passes hfp
    have slot := hTrue.passed_skipColon ht.ne hFalse hf.passes
    rw [List.map_append, List.map_append, Expr.map, ← htoken, ← slot]
    exact .choice (ihCondition hcondition) (hk.trans hq) (ihTrue hTrue)
      (ihFalse (hFalse.skipColon hf.passes))
  | noChoice _ hq ih => exact .noChoice (ih he) (he.rear.kind_ne (by decide) hq)
  | prefixed ho hr ih =>
    obtain ⟨hk, ht, -, hn⟩ := he.next (Kind.ne_eof_of_mem_unaryOperators ho) hr.passes
    rw [Expr.map, ← ht]
    exact .prefixed (hk ▸ ho) (ih hn)
  | primary ho hr ih => exact .primary (he.notMem unaryOperators_subset_steeringKinds ho) (ih he)
  | leaf hc hl =>
    obtain ⟨hk, ht, kept, hn⟩ := he.next hc ⟨[], .refl _⟩
    rw [hn.eq_of_self]
    exact .leaf (hk ▸ hc) (by rw [ht, kept.leaf, hl])
  | @group c inner d xs ho hi hd ih =>
    have hne : c.kind ≠ .eof := ho.trans_ne (by simp)
    have hne' : d.kind ≠ .eof := hd.trans_ne (by simp)
    have closing : ∃ ts, d.Passes ts d.next := ⟨_, passes_next hne'⟩
    obtain ⟨hk, -, -, hn⟩ := he.next hne (exists_passes_trans hi.passes closing)
    obtain ⟨m, hinner, hclose⟩ := hn.split hi.passes closing
    obtain ⟨hk', -, -, hn'⟩ := hclose.next hne' ⟨[], .refl _⟩
    rw [hn'.eq_of_self]
    exact .group (hk.trans ho) (ih hinner) (hk'.trans hd)

theorem Awaits.echoes (h : Awaits goal c goal' d xs due) (hd : ∃ ts, d.Passes ts m)
    (he : Echoes f g c m c' m') :
    ∃ d', Awaits (goal.map f) c' (goal'.map f) d' (xs.map (Event.map f g)) due ∧
      Echoes f g d m d' m' := by
  cases h with
  | forgiven hf ho =>
    obtain ⟨hk, ht, -, hn⟩ := he.next (Kind.ne_eof_of_mem_operators ho) hd
    simp only [List.map_cons, List.map_nil, Event.map, he.position_eq, ← ht]
    exact ⟨_, .forgiven hf (hk ▸ ho), hn⟩
  | forgivenChain hf ho hr =>
    have hne := Kind.ne_eof_of_mem_operators ho
    obtain ⟨hk, ht, -, hn⟩ := he.next hne (exists_passes_trans hr.passes hd)
    obtain ⟨n, hright, hrest⟩ := hn.split hr.passes hd
    simp only [List.map_cons, Goal.map, Expr.map, Event.map, he.position_eq, ← ht]
    exact ⟨n, .forgivenChain hf (hk ▸ ho) (hr.echoes hright), hrest⟩
  | operand ho =>
    simp only [List.map_cons, List.map_nil, Event.map, he.position_eq]
    refine ⟨c', .operand fun hf => ?_, he⟩
    exact he.notMem (Rung.operators_subset_steeringKinds _) (ho hf)
  | operandChain ho hl =>
    obtain ⟨n, hleft, hrest⟩ := he.split hl.passes hd
    simp only [List.map_cons, Event.map, he.position_eq]
    refine ⟨n, .operandChain (fun hf => ?_) (hl.echoes hleft), hrest⟩
    exact he.notMem (Rung.operators_subset_steeringKinds _) (ho hf)
  | link ho =>
    obtain ⟨hk, -, -, hn⟩ := he.next (Kind.ne_eof_of_mem_operators ho) hd
    exact ⟨_, .link (hk ▸ ho), hn⟩
  | linkChain ho hr =>
    have hne := Kind.ne_eof_of_mem_operators ho
    obtain ⟨hk, ht, -, hn⟩ := he.next hne (exists_passes_trans hr.passes hd)
    obtain ⟨n, hright, hrest⟩ := hn.split hr.passes hd
    simp only [Goal.map, Expr.map, ← ht]
    exact ⟨n, .linkChain (hk ▸ ho) (hr.echoes hright), hrest⟩
  | condition => exact ⟨c', .condition, he⟩
  | onTrue hc hq =>
    have hne : _ ≠ Kind.eof := hq.trans_ne (by simp)
    obtain ⟨n, hcondition, hrest⟩ := he.split hc.passes (exists_passes_next hne hd)
    obtain ⟨hk, -, -, hn⟩ := hrest.next hne hd
    exact ⟨_, .onTrue (hc.echoes hcondition) (hk.trans hq), hn⟩
  | onFalse hc hq ht =>
    have hne : _ ≠ Kind.eof := hq.trans_ne (by simp)
    have hfp := exists_passes_trans (exists_passes_skipColon _) hd
    have htp := exists_passes_trans ht.passes hfp
    obtain ⟨n, hcondition, hrest⟩ := he.split hc.passes (exists_passes_next hne htp)
    obtain ⟨hk, -, -, hn⟩ := hrest.next hne htp
    obtain ⟨o, hTrue, hFalse⟩ := hn.split ht.passes hfp
    rw [List.map_append]
    exact ⟨_, .onFalse (hc.echoes hcondition) (hk.trans hq) (ht.echoes hTrue), hFalse.skipColon hd⟩
  | prefixed ho =>
    obtain ⟨hk, -, -, hn⟩ := he.next (Kind.ne_eof_of_mem_unaryOperators ho) hd
    exact ⟨_, .prefixed (hk ▸ ho), hn⟩
  | primary ho => exact ⟨c', .primary (he.notMem unaryOperators_subset_steeringKinds ho), he⟩
  | group ho =>
    obtain ⟨hk, -, -, hn⟩ := he.next (ho.trans_ne (by simp)) hd
    exact ⟨_, .group (hk.trans ho), hn⟩

/-- The tokens up to the fault and the faulty one itself make the same failure again, with the cursor
in front of the faulty token or behind it as before. -/
theorem FailsAt.echoes (h : FailsAt goal c m d xs) (he : Echoes f g c m c' m')
    (hk : m'.kind = m.kind) (ht : m'.token = f m.token) (kept : m.token.Kept f) :
    ∃ d', FailsAt (goal.map f) c' m' d' (xs.map (Event.map f g)) ∧
      (d = m ∧ d' = m' ∨ d = m.next ∧ d' = m'.next) := by
  induction h generalizing c' with
  | breaks h =>
    cases h with
    | worthless hw hne =>
      have hp := he.position 1
      have hc := he.eq_of_self
      subst hc
      have hne' := hk ▸ hne
      simp only [List.map_cons, List.map_nil, Event.map, position_next hne, hp, ← ht]
      rw [← position_next hne']
      exact ⟨_, .breaks (.worthless (ht ▸ kept.worthless hw) hne'), .inr ⟨trivial, rfl⟩⟩
    | unclosed ho hi hd =>
      obtain ⟨hk', -, -, hn⟩ := he.next (ho.trans_ne (by simp)) hi.passes
      simp only [List.map_append, List.map_cons, List.map_nil, Event.map, he.rear.position_eq, ← ht]
      exact ⟨m', .breaks (.unclosed (hk'.trans ho) (hi.echoes hn) (hk ▸ hd)), .inl ⟨trivial, rfl⟩⟩
    | stray ho =>
      have hp := he.position_eq
      have hc := he.eq_of_self
      subst hc
      simp only [List.map_cons, List.map_nil, Event.map, hp, ← ht]
      exact ⟨_, .breaks (.stray (hk ▸ ho)), .inl ⟨trivial, rfl⟩⟩
  | awaits h hf ih =>
    obtain ⟨n, hn, hrest⟩ := h.echoes hf.passes he
    obtain ⟨d', hd', hstop⟩ := ih hrest hk ht kept
    rw [List.map_append]
    exact ⟨d', .awaits hn hd', hstop⟩

end Goal
end LoxReader
