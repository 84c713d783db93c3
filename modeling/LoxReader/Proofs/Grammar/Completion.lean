import LoxReader.Proofs.Grammar.Echo
import LoxReader.Proofs.Grammar.Writing

/-!
# Completing what has failed

A reading fails at the first token behind which nothing could help.  All that stands in front of
that token can be completed: each goal that is still open is finished by tokens of its own, an
operand or the end of a group, and the completion is read without a report of its own.
-/

namespace LoxReader

/-- A token that is used to complete an expression. -/
def Token.Completes (t : Token) : Prop := t = .filler ∨ t = .closer

namespace Token.Completes

variable {t : Token}

theorem notMem_steeringKinds (h : t.Completes) : t.kind ∉ steeringKinds := by
  rcases h with rfl | rfl <;> decide

theorem running (h : t.Completes) : t.kind ≠ .eof := by
  rcases h with rfl | rfl <;> decide

end Token.Completes

namespace Goal

open Cursor

variable {goal goal' : Goal} {c m d c' d' : Cursor} {e : Expr} {xs ys : List Event}
  {cs due tokens : List Token} {rs : List Report}

/-! ### One goal that is open -/

theorem Awaits.completes (h : Awaits goal c goal' c' xs due) : ∀ t ∈ due, t.Completes := by
  cases h <;> simp [Token.Completes]

/-- In front of completing tokens and behind them reading goes on alike. -/
theorem notMem_steeringKinds_of_passes (hp : c.Passes cs d) (hc : ∀ t ∈ cs, t.Completes)
    (hd : d.kind ∉ steeringKinds) : c.kind ∉ steeringKinds := by
  cases cs with
  | nil => rwa [← hp.eq_of_nil]
  | cons t cs =>
    rw [hp.uncons.1]
    exact (hc t List.mem_cons_self).notMem_steeringKinds

theorem stop_of_notMem {rung : Rung} {left : Expr} (h : c.kind ∉ steeringKinds) :
    Reads (.chain rung left) c left c [] := by
  apply Reads.stop
  intro hk
  exact h (Rung.operators_subset_steeringKinds rung hk)

/-- When the goal that is awaited has come to a tree, the tokens due finish the goal itself. -/
theorem Awaits.resume (h : Awaits goal c goal' c' xs due) (hr : Reads goal' c' e d' ys)
    (hp : d'.Passes due d) (hd' : d'.kind ∉ steeringKinds) (hd : d.kind ∉ steeringKinds) :
    ∃ e' zs, Reads goal c e' d zs ∧ reports zs = reports xs ++ reports ys := by
  cases h with
  | forgiven hf ho =>
    rw [hp.eq_of_nil]
    exact ⟨_, _, .forgiven hf ho hr (stop_of_notMem hd'), by simp⟩
  | forgivenChain hf ho hright =>
    rw [hp.eq_of_nil]
    exact ⟨_, _, .forgiven hf ho hright hr, by simp⟩
  | operand ho =>
    rw [hp.eq_of_nil]
    exact ⟨_, _, .operand ho hr (stop_of_notMem hd'), by simp⟩
  | operandChain ho hleft =>
    rw [hp.eq_of_nil]
    exact ⟨_, _, .operand ho hleft hr, by simp⟩
  | link ho =>
    rw [hp.eq_of_nil]
    exact ⟨_, _, .link ho hr (stop_of_notMem hd'), by simp⟩
  | linkChain ho hright =>
    rw [hp.eq_of_nil]
    exact ⟨_, _, .link ho hright hr, by simp⟩
  | condition =>
    rw [hp.eq_of_nil]
    refine ⟨_, _, .noChoice hr ?_, by simp⟩
    intro hq
    exact hd' (hq ▸ by decide)
  | onTrue hc hq =>
    -- the token due is the other branch
    obtain ⟨hk, hne, ht, hn⟩ := hp.uncons
    have hs : d'.skipColon = d' := skipColon_of_kind_ne (hk.trans_ne (by decide))
    rw [hn.eq_of_nil] at hd ⊢
    have hcarriers : d'.next.kind ∉ Level.ternary.carriers := by
      intro hk
      exact hd (Level.carriers_subset_steeringKinds _ hk)
    have hleaf : d'.token.leaf? = some .nil := ht ▸ rfl
    obtain ⟨zs, hfiller, hz⟩ := Quiet.leaf_of_level hne hleaf hcarriers
    have other : Reads (.level .ternary) d'.skipColon (.literal .nil) d'.next zs := by rwa [hs]
    exact ⟨_, _, .choice hc hq hr other, by simp [hz]⟩
  | onFalse hc hq ht =>
    rw [hp.eq_of_nil]
    exact ⟨_, _, .choice hc hq ht hr, by simp⟩
  | prefixed ho =>
    rw [hp.eq_of_nil]
    exact ⟨_, _, .prefixed ho hr, by simp⟩
  | primary ho =>
    rw [hp.eq_of_nil]
    exact ⟨_, _, .primary ho hr, by simp⟩
  | group ho =>
    obtain ⟨hk, -, -, hn⟩ := hp.uncons
    rw [hn.eq_of_nil]
    exact ⟨_, _, .group ho hr hk, by simp⟩

/-! ### All goals that are open -/

/-- Behind the tokens from `c` to `m`, the tokens `cs` lead the goal to a tree.  The reports made
then are `rs`. -/
def CompletedBy (goal : Goal) (c m : Cursor) (cs : List Token) (rs : List Report) : Prop :=
  ∀ c' m' d', Echoes id id c m c' m' → m'.Passes cs d' → d'.kind ∉ steeringKinds →
    ∃ e ys, Reads goal c' e d' ys ∧ reports ys = rs

theorem Awaits.completedBy (h : Awaits goal c goal' c' xs due) (hm : ∃ ts, c'.Passes ts m)
    (hc : CompletedBy goal' c' m cs rs) : CompletedBy goal c m (cs ++ due) (reports xs ++ rs) := by
  intro c₁ m₁ d₁ he hp hd
  obtain ⟨n, hp, hdue⟩ := hp.unappend
  have hn := notMem_steeringKinds_of_passes hdue h.completes hd
  obtain ⟨c₂, hawaits, hrest⟩ := h.echoes hm he
  rw [Goal.map_id, Goal.map_id, Event.map_id, List.map_id] at hawaits
  obtain ⟨e, ys, hr, hy⟩ := hc c₂ m₁ n hrest hp hn
  obtain ⟨e', zs, hr', hz⟩ := hawaits.resume hr hdue hn hd
  exact ⟨e', zs, hr', by rw [hz, hy]⟩

/-- A missing operand is completed by an operand. -/
theorem completedBy_filler : CompletedBy (.level .primary) c c [.filler] [] := by
  intro c₁ m₁ d₁ he hp hd
  have hc := he.eq_of_self
  subst hc
  obtain ⟨-, hne, ht, hn⟩ := hp.uncons
  rw [hn.eq_of_nil]
  exact ⟨.literal .nil, _, .leaf hne (ht ▸ rfl), rfl⟩

/-- A group that is not closed is completed by its end. -/
theorem completedBy_closer (ho : c.kind = .openParen) (hi : Reads (.level .ternary) c.next e m xs) :
    CompletedBy (.level .primary) c m [.closer] (reports xs) := by
  intro c₁ m₁ d₁ he hp hd
  obtain ⟨hk, -, -, hinner⟩ := he.next (ho.trans_ne (by simp)) hi.passes
  obtain ⟨hk', -, -, hn⟩ := hp.uncons
  rw [hn.eq_of_nil]
  have inner := hi.echoes hinner
  rw [Event.map_id, List.map_id] at inner
  exact ⟨_, _, .group (hk.trans ho) inner hk', rfl⟩

/-- A failure is reported against the token it is met at.  What is in front of this token can be
completed, and all other reports are made again. -/
theorem FailsAt.completedBy (h : FailsAt goal c m d xs) (hm : m.In tokens) :
    ∃ rs x cs, reports xs = rs ++ [x] ∧ x.index = m.position ∧ x.token = m.token ∧
      (∀ t ∈ cs, t.Completes) ∧ CompletedBy goal c m cs rs := by
  induction h with
  | breaks h =>
    cases h with
    | worthless hw hne =>
      exact ⟨[], _, _, rfl, Report.index_passed hne hw, rfl, by simp [Token.Completes],
        completedBy_filler⟩
    | unclosed ho hi hd =>
      exact ⟨_, _, _, reports_append, Report.index_openGroup, rfl, by simp [Token.Completes],
        completedBy_closer ho hi⟩
    | stray ho =>
      exact ⟨[], _, _, rfl, Report.index_of_not_late (Report.not_late_of_stray hm ho), rfl,
        by simp [Token.Completes], completedBy_filler⟩
  | awaits h hf ih =>
    obtain ⟨rs, x, cs, hr, hi, ht, hcs, hc⟩ := ih hm
    refine ⟨_, x, _, ?_, hi, ht, ?_, h.completedBy hf.passes hc⟩
    · rw [reports_append, hr, List.append_assoc]
    · intro t ht
      exact (List.mem_append.1 ht).elim (hcs t) (h.completes t)

end Goal

/-! ### The token that a reading fails at -/

/-- The tokens in front of index `k` can be completed to a list that is read up to its end token,
with these reports. -/
def Completable (tokens : List Token) (k : Nat) (rs : List Report) : Prop :=
  ∃ cs : List Token, (∀ t ∈ cs, t.kind ≠ .eof) ∧ ∀ last : Token, last.kind = .eof →
    ∃ c e, Cursor.ofTokens? (tokens.take k ++ cs ++ [last]) = some c ∧
      c.readAll.tree? = some e ∧ c.readAll.cursor.rest = [last] ∧ reports c.readAll.events = rs

/-- No list with the same tokens up to index `k` is read to a tree, and the reports are always
these. -/
def Hopeless (tokens : List Token) (k : Nat) (rs : List Report) : Prop :=
  ∀ tokens' c, Cursor.ofTokens? tokens' = some c → tokens'.take (k + 1) = tokens.take (k + 1) →
    c.readAll.tree? = none ∧ reports c.readAll.events = rs

section Lists

open Cursor

variable {tokens ts cs : List Token} {c m d c' m' : Cursor} {xs : List Event} {rs : List Report}

theorem Cursor.Passes.eq_take_of_start (start : ofTokens? tokens = some c) (hp : c.Passes ts m) :
    ts = tokens.take m.position := by
  obtain ⟨hzero, hrest⟩ := start_of_ofTokens? start
  rw [← hrest, ← Nat.sub_zero m.position, ← hzero]
  exact hp.eq_take

/-- Two lists that begin with the same tokens. -/
theorem Cursor.echoes_of_start {tokens' : List Token} (start : ofTokens? tokens = some c)
    (start' : ofTokens? tokens' = some c') (hp : c.Passes ts m) (hp' : c'.Passes ts m')
    (hb : m'.kind = m.kind ∨ m'.kind ∉ steeringKinds) : Echoes id id c m c' m' := by
  refine ⟨⟨ts, hp, by rwa [List.map_id], fun t _ => t.kept_id⟩, fun i => ?_, hb⟩
  rw [(start_of_ofTokens? start).1, (start_of_ofTokens? start').1, id]

theorem Goal.CompletedBy.completable (h : CompletedBy (.level .comma) c m cs rs)
    (start : ofTokens? tokens = some c) (hp : c.Passes ts m) (hcs : ∀ t ∈ cs, t.Completes) :
    Completable tokens m.position rs := by
  refine ⟨cs, fun t ht => (hcs t ht).running, fun last hlast => ?_⟩
  rw [← hp.eq_take_of_start start, List.append_assoc]
  obtain ⟨c', start'⟩ : ∃ c', ofTokens? (ts ++ (cs ++ [last])) = some c' :=
    exists_ofTokens? (by simp) hlast
  obtain ⟨m', hp', hm'⟩ := passes_of_rest (start_of_ofTokens? start').2 hp.running
  obtain ⟨d', hq, hd'⟩ := passes_of_rest hm' fun t ht => (hcs t ht).running
  have hend : d'.kind ∉ steeringKinds := by
    rw [kind_of_rest hd', hlast]
    decide
  have hb := Goal.notMem_steeringKinds_of_passes hq hcs hend
  obtain ⟨e, ys, hr, hy⟩ := h c' m' d' (echoes_of_start start start' hp hp' (.inr hb)) hq hend
  refine ⟨c', e, start', ?_⟩
  rw [readAll_of_reads hr]
  exact ⟨rfl, hd', hy⟩

theorem Goal.FailsAt.hopeless (h : FailsAt (.level .comma) c m d xs)
    (start : ofTokens? tokens = some c) : Hopeless tokens m.position (reports xs) := by
  intro tokens' c' start' same
  obtain ⟨ts, hp⟩ := h.passes
  have hm := (in_of_ofTokens? start).passes hp
  have shared : tokens'.take (m.position + 1) = ts ++ [m.token] := by
    rw [same, List.take_add_one, hm.getElem?_position, ← hp.eq_take_of_start start]
    rfl
  have front : c'.rest = ts ++ m.token :: tokens'.drop (m.position + 1) := by
    rw [(start_of_ofTokens? start').2, List.append_cons, ← shared, List.take_append_drop]
  obtain ⟨m', hp', hm'⟩ := passes_of_rest front hp.running
  have hk : m'.kind = m.kind := by rw [kind_of_rest hm', hm.kind_token]
  have he := echoes_of_start start start' hp hp' (.inl hk)
  obtain ⟨d', hf, -⟩ := h.echoes he hk (token_of_rest hm') m.token.kept_id
  rw [Event.map_id, List.map_id] at hf
  rw [readAll_of_fails hf.fails]
  exact ⟨rfl, by simp⟩

end Lists

/-- **A reading fails at the first token that cannot be helped.** The last report is the fault.
What stands in front of its token can be completed, with the reports made so far; what begins with
the tokens up to this one fails in the same way, whatever comes behind. -/
theorem Cursor.readAll_correct_prefix {tokens : List Token} {c : Cursor}
    (start : ofTokens? tokens = some c) (failed : c.readAll.tree? = none) :
    ∃ rs x, reports c.readAll.events = rs ++ [x] ∧ (∀ y ∈ rs, y.fault = .missingOperand) ∧
      (x.fault = .noExpression ∨ x.fault = .openGroup) ∧ tokens[x.index]? = some x.token ∧
      Completable tokens x.index rs ∧ Hopeless tokens x.index (rs ++ [x]) := by
  rcases c.readAll_cases with ⟨e, d, xs, -, hr⟩ | ⟨d, xs, h, hr⟩
  · rw [hr] at failed
    cases failed
  · have hin := in_of_ofTokens? start
    obtain ⟨m, hm⟩ := h.exists_failsAt
    obtain ⟨ts, hp⟩ := hm.passes
    obtain ⟨rs, x, cs, hx, index, token, hcs, hc⟩ := hm.completedBy (hin.passes hp)
    obtain ⟨ss, y, hy, halted⟩ := h.halts hin
    rw [hx] at hy
    obtain ⟨rfl, hxy⟩ := List.append_inj' hy rfl
    cases hxy
    have events : reports (xs ++ [.abandoned d.position]) = rs ++ [x] := by simpa using hx
    rw [hr]
    refine ⟨rs, x, events, halted.forgiven, halted.fault, ?_⟩
    rw [index, token]
    refine ⟨(hin.passes hp).getElem?_position, ?_, ?_⟩
    · exact hc.completable start hp hcs
    · exact hx ▸ hm.hopeless start

section Sample

open Token

/-- `!= (nil ? > true ;`, where a choice and a group are still open at the semicolon. -/
theorem Cursor.readAll_correct_prefix_of_openChoice :
    let tokens := [loose .notEquals "!=", loose .openParen "(", loose .kwNil "nil",
      loose .question "?", loose .greater ">", loose .kwTrue "true", loose .semicolon ";",
      loose .eof ""]
    let forgiven : List Report := [⟨0, loose .notEquals "!=", .missingOperand⟩,
      ⟨4, loose .greater ">", .missingOperand⟩]
    Completable tokens 6 forgiven ∧
      Hopeless tokens 6 (forgiven ++ [⟨6, loose .semicolon ";", .noExpression⟩]) := by
  intro tokens forgiven
  let c : Cursor := ⟨0, loose .notEquals "!=", tokens⟩
  have start : ofTokens? tokens = some c := rfl
  have failed : c.readAll.tree? = none := by decide +kernel
  have events : reports c.readAll.events =
      forgiven ++ [⟨6, loose .semicolon ";", .noExpression⟩] := by decide +kernel
  obtain ⟨rs, x, hx, -, -, -, completable, hopeless⟩ := Cursor.readAll_correct_prefix start failed
  rw [events] at hx
  obtain ⟨rfl, hx⟩ := List.append_inj' hx rfl
  cases hx
  exact ⟨completable, hopeless⟩

end Sample

end LoxReader
