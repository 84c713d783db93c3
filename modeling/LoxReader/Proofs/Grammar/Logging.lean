import LoxReader.Proofs.Grammar.Pending

/-!
# The log and the reporters

While an expression is read a reporter hears of the diagnostics one by one, and may write to the log
that the reading writes to.  It is only told: whoever listens, the same tree is read and the same
events come in the same order.  So the log, the diagnostics that a caller collects and the ones that
are logged for it tell of the same reports.
-/

namespace LoxReader

variable {σ : Type}

/-! ### Reporters -/

/-- What hears of the diagnostics of a reading. -/
structure Reporter (σ : Type) where
  start : σ
  /-- What is kept once a diagnostic has been heard. -/
  keep : σ → Diagnostic → σ
  /-- What is written to the log when a diagnostic is heard. -/
  entries : Diagnostic → List Log.Entry

/-- What a reporter keeps, and the log. -/
structure Notes (σ : Type) where
  kept : σ
  log : List Log.Entry

namespace Reporter

/-- Keeps the diagnostics for the caller. -/
def collector : Reporter (List Diagnostic) := ⟨[], fun ds d => ds ++ [d], fun _ => []⟩

/-- Writes the diagnostics to the log, and counts them. -/
def logger : Reporter Nat := ⟨0, fun n _ => n + 1, fun d => [d.entry]⟩

/-- The event goes on the log, and then the reporter hears of its diagnostic. -/
def hear (R : Reporter σ) (notes : Notes σ) (x : Event) : Notes σ :=
  match x.diagnostic? with
  | none => ⟨notes.kept, notes.log ++ [x.entry]⟩
  | some d => ⟨R.keep notes.kept d, notes.log ++ x.entry :: R.entries d⟩

/-- What is noted of some events, one after the other. -/
def notes (R : Reporter σ) (xs : List Event) : Notes σ := xs.foldl R.hear ⟨R.start, []⟩

/-- The part of the log that belongs to an event. -/
def told (R : Reporter σ) (x : Event) : List Log.Entry := x.entry :: x.diagnostic?.elim [] R.entries

theorem foldl_hear (R : Reporter σ) (xs : List Event) (n : Notes σ) :
    xs.foldl R.hear n =
      ⟨(diagnostics xs).foldl R.keep n.kept, n.log ++ xs.flatMap R.told⟩ := by
  induction xs generalizing n with
  | nil => simp [diagnostics]
  | cons x xs ih =>
    rw [List.foldl_cons, ih]
    cases heard : x.diagnostic? <;> simp [hear, told, diagnostics, heard]

theorem notes_eq (R : Reporter σ) (xs : List Event) :
    R.notes xs = ⟨(diagnostics xs).foldl R.keep R.start, xs.flatMap R.told⟩ :=
  R.foldl_hear xs _

/-- What is collected are the diagnostics, and nothing is added to the log. -/
theorem collector_notes (xs : List Event) :
    collector.notes xs = ⟨diagnostics xs, Sink.kept.log xs⟩ := by
  have collected (ds es : List Diagnostic) : ds.foldl collector.keep es = es ++ ds := by
    induction ds generalizing es with
    | nil => exact (List.append_nil es).symm
    | cons d ds ih => rw [List.foldl_cons, ih, collector, List.append_assoc, List.singleton_append]
  have same : collector.told = Sink.kept.entries := by
    funext x
    cases x <;> rfl
  rw [notes_eq, collected, same]
  rfl

theorem logger_notes (xs : List Event) :
    logger.notes xs = ⟨(diagnostics xs).length, Sink.logged.log xs⟩ := by
  have counted (ds : List Diagnostic) (n : Nat) : ds.foldl logger.keep n = n + ds.length := by
    induction ds generalizing n with
    | nil => rfl
    | cons d ds ih =>
      rw [List.foldl_cons, ih, List.length_cons]
      exact Nat.succ_add_eq_add_succ n ds.length
  have same : logger.told = Sink.logged.entries := by
    funext x
    cases x <;> rfl
  rw [notes_eq, counted, same]
  exact congrArg (Notes.mk · _) (Nat.zero_add _)

end Reporter

/-! ### The log without its traces -/

/-- What a report puts on the log. -/
def Report.entry (x : Report) : Log.Entry :=
  ⟨.debug, s!"{x.fault.message} at token {x.position} ({x.token.kind.name})"⟩

/-- What a reading that comes to nothing puts on the log at last. -/
def abandonedEntry (position : Nat) : Log.Entry :=
  ⟨.debug, s!"expression abandoned at token {position}"⟩

/-- A log without the entries of the lowest severity. -/
def Log.untraced (log : List Log.Entry) : List Log.Entry := log.filter (·.severity ≠ .trace)

section Views

variable {xs : List Event}

@[simp] theorem Log.untraced_append (log log' : List Log.Entry) :
    untraced (log ++ log') = untraced log ++ untraced log' :=
  List.filter_append _ _

/-- The errors on the log are the diagnostics that are logged. -/
theorem Sink.errors_logged (xs : List Event) :
    (logged.log xs).filter (·.severity = .error) = (diagnostics xs).map Diagnostic.entry := by
  induction xs with
  | nil => rfl
  | cons x xs ih =>
    rw [log, List.flatMap_cons, List.filter_append, ← log, ih]
    cases x <;> rfl

/-- As long as nothing is abandoned, the log without its traces is that of the reports. -/
theorem Reporter.untraced_told (R : Reporter σ)
    (loud : ∀ d, ∀ entry ∈ R.entries d, entry.severity ≠ .trace) (going : ∀ i, .abandoned i ∉ xs) :
    Log.untraced (xs.flatMap R.told) =
      (reports xs).flatMap fun x => x.entry :: R.entries x.diagnostic := by
  have whole (d : Diagnostic) : Log.untraced (R.entries d) = R.entries d :=
    List.filter_eq_self.2 fun entry mem => decide_eq_true (loud d entry mem)
  induction xs with
  | nil => rfl
  | cons x xs ih =>
    have further := ih fun i mem => going i (List.mem_cons_of_mem _ mem)
    rw [List.flatMap_cons, Log.untraced_append, further]
    cases x with
    | entered rung i => rfl
    | reported i t fault =>
      rw [reports_reported_cons, List.flatMap_cons]
      refine congrArg (· ++ _) ?_
      exact congrArg (Report.entry ⟨i, t, fault⟩ :: ·) (whole ⟨t, fault.message⟩)
    | abandoned i => exact absurd List.mem_cons_self (going i)

end Views

namespace Goal

variable {goal : Goal} {c m d : Cursor} {e : Expr} {xs : List Event}

theorem Reads.abandoned_notMem (h : Reads goal c e d xs) (i : Nat) : .abandoned i ∉ xs :=
  fun mem => h.harmless _ mem

/-- No part of an expression is abandoned by itself. -/
theorem Fails.abandoned_notMem (h : Fails goal c d xs) (i : Nat) : .abandoned i ∉ xs := by
  obtain ⟨m, failsAt⟩ := h.exists_failsAt
  obtain ⟨ys, fault, rfl, harmless, -⟩ := failsAt.exists_last
  intro mem
  rcases List.mem_append.1 mem with mem | mem
  · exact harmless _ mem
  · cases List.mem_singleton.1 mem

end Goal

/-! ### A whole expression -/

/-- Where the cursor was when the fault was reported: at the token, or behind it if it has no
value. -/
theorem Disciplined.position_cases {tokens : List Token} {r : Reply} (h : Disciplined tokens r) :
    ∀ x ∈ reports r.events,
      x.position = x.index ∨ x.position = x.index + 1 ∧ x.token.Worthless := by
  have forgiven (x : Report) (fault : x.fault = .missingOperand) : x.position = x.index := by
    refine (Report.index_of_not_late fun late => ?_).symm
    cases fault.symm.trans late.1
  intro x mem
  cases tree : r.tree? with
  | some e => exact .inl (forgiven x ((h.tree e tree).1 x mem))
  | none =>
    obtain ⟨rs, y, split, before, -, position, index⟩ := h.noTree tree
    rw [split] at mem
    rcases List.mem_append.1 mem with mem | mem
    · exact .inl (forgiven x (before x mem))
    · obtain rfl := List.mem_singleton.1 mem
      by_cases late : x.Late
      · rw [if_pos late] at index
        exact .inr ⟨position.trans index.symm, late.2⟩
      · exact .inl (Report.index_of_not_late late).symm

/-- What is left of a reading that was told to a reporter. -/
structure Account (σ : Type) extends Notes σ where
  tree? : Option Expr
  cursor : Cursor

namespace Cursor

/-- Reads one whole expression, and tells a reporter. -/
def readAllTo (c : Cursor) (R : Reporter σ) : Account σ :=
  { R.notes c.readAll.events with tree? := c.readAll.tree?, cursor := c.readAll.cursor }

/-- With a collector the diagnostics are kept for the caller. -/
theorem readAllTo_collector (c : Cursor) :
    let r := c.readAll
    c.readAllTo .collector =
      ⟨⟨diagnostics r.events, Sink.kept.log r.events⟩, r.tree?, r.cursor⟩ := by
  intro r
  rw [readAllTo, Reporter.collector_notes]

/-- With a logger they are written to the log. -/
theorem readAllTo_logger (c : Cursor) :
    let r := c.readAll
    c.readAllTo .logger =
      ⟨⟨(diagnostics r.events).length, Sink.logged.log r.events⟩, r.tree?, r.cursor⟩ := by
  intro r
  rw [readAllTo, Reporter.logger_notes]

/-- What is written to the log once everything else has been. -/
def lastEntries (c : Cursor) : List Log.Entry :=
  if c.readAll.tree? = none then [abandonedEntry c.readAll.cursor.position] else []

theorem untraced_readAllTo (c : Cursor) (R : Reporter σ)
    (loud : ∀ d, ∀ entry ∈ R.entries d, entry.severity ≠ .trace) :
    Log.untraced (c.readAllTo R).log =
      ((reports c.readAll.events).flatMap fun x => x.entry :: R.entries x.diagnostic) ++
        c.lastEntries := by
  have log : (c.readAllTo R).log = c.readAll.events.flatMap R.told :=
    congrArg Notes.log (R.notes_eq c.readAll.events)
  rw [log, lastEntries]
  rcases c.readAll_cases with ⟨e, d, xs, h, hr⟩ | ⟨d, xs, h, hr⟩
  · rw [hr, R.untraced_told loud h.abandoned_notMem]
    exact (List.append_nil _).symm
  · rw [hr, List.flatMap_append, Log.untraced_append, R.untraced_told loud h.abandoned_notMem,
      reports_append]
    simp [Reporter.told, Event.diagnostic?, Log.untraced, Event.entry, abandonedEntry]

end Cursor

open Reporter

/-- The log and the reporters tell of the same reports: those of the whole expression that is read
from `c`, a place in a list of tokens. -/
structure SameStory (tokens : List Token) (c : Cursor) : Prop where
  /-- Without its traces the log has one entry for each report, in order, and then one more if and
  only if there is no tree. -/
  log : Log.untraced (c.readAllTo collector).log =
    (reports c.readAll.events).map Report.entry ++ c.lastEntries
  /-- A report is of the token of its index.  The cursor is in front of that token, or behind it if
  it is a number or a string without a value. -/
  located : ∀ x ∈ reports c.readAll.events, tokens[x.index]? = some x.token ∧
    (x.position = x.index ∨ x.position = x.index + 1 ∧ x.token.Worthless)
  /-- A reading is abandoned where the last report was made. -/
  last : (c.readAllTo collector).tree? = none → ∃ x,
    (reports c.readAll.events).getLast? = some x ∧
      x.position = (c.readAllTo collector).cursor.position
  /-- One diagnostic is collected for each report. -/
  collected : (c.readAllTo collector).kept = (reports c.readAll.events).map Report.diagnostic
  /-- The same is read for the other reporter. -/
  tree : (c.readAllTo logger).tree? = (c.readAllTo collector).tree? ∧
    (c.readAllTo logger).cursor = (c.readAllTo collector).cursor
  /-- Its log has the same entries, with the diagnostic right behind each report. -/
  logged : (c.readAllTo collector).log = c.readAll.events.map Event.entry ∧
    (c.readAllTo logger).log = c.readAll.events.flatMap fun x =>
      x.entry :: (x.diagnostic?.map Diagnostic.entry).toList
  loggedUntraced : Log.untraced (c.readAllTo logger).log =
    ((reports c.readAll.events).flatMap fun x => [x.entry, x.diagnostic.entry]) ++ c.lastEntries
  /-- The diagnostics that are logged are the ones that would have been collected. -/
  errors : (c.readAllTo logger).log.filter (·.severity = .error) =
    (c.readAllTo collector).kept.map Diagnostic.entry
  count : (c.readAllTo logger).kept = (c.readAllTo collector).kept.length

namespace Cursor

variable {tokens : List Token}

theorem In.sameStory {c : Cursor} (hc : c.In tokens) : SameStory tokens c := by
  have disciplined := readAll_disciplined hc
  have untraced := c.untraced_readAllTo collector (by simp [collector])
  have untraced' := c.untraced_readAllTo logger (by simp [logger, Diagnostic.entry])
  refine ⟨?_, fun x mem => ?_, fun failed => ?_, ?_, ⟨rfl, rfl⟩, ⟨?_, ?_⟩, untraced', ?_, ?_⟩
  · rw [untraced]
    exact congrArg (· ++ _) List.map_eq_flatMap.symm
  · exact ⟨(disciplined.located x mem).1, disciplined.position_cases x mem⟩
  · obtain ⟨rs, x, split, -, -, position, -⟩ := disciplined.noTree failed
    exact ⟨x, by rw [split, List.getLast?_concat], position⟩
  · rw [readAllTo_collector, diagnostics_eq_map_reports]
  · rw [readAllTo_collector]
    exact List.map_eq_flatMap.symm
  · rw [readAllTo_logger]
    rfl
  · rw [readAllTo_collector, readAllTo_logger, Sink.errors_logged]
  · rw [readAllTo_collector, readAllTo_logger]

/-- **The log and the reporters tell one story**, of every list of tokens that ends and from
wherever in it a whole expression is read. -/
theorem readAllTo_sameStory {t : Token} (last : tokens.getLast? = some t) (ends : t.kind = .eof) :
    ∃ start, ofTokens? tokens = some start ∧ start.In tokens ∧
      ∀ c : Cursor, c.In tokens → SameStory tokens c := by
  obtain ⟨start, hs⟩ := exists_ofTokens? last ends
  exact ⟨start, hs, in_of_ofTokens? hs, fun _ hc => hc.sameStory⟩

section Sample

open Token

/-- An operator without its left operand, and a string without its value. -/
theorem readAllTo_sameStory_of_openQuote :
    let tokens := [loose .openParen "(", loose .equals "==", loose .string "\"", loose .eof ""]
    let c : Cursor := ⟨0, loose .openParen "(", tokens⟩
    SameStory tokens c ∧ (c.readAllTo logger).tree? = none ∧ (c.readAllTo logger).kept = 2 ∧
      Log.untraced (c.readAllTo logger).log =
        [⟨.debug, "Missing left operand. at token 1 (Equals)"⟩,
         ⟨.error, "[line 1] Error at '==': Missing left operand."⟩,
         ⟨.debug, "Expect expression. at token 3 (String)"⟩,
         ⟨.error, "[line 1] Error at '\"': Expect expression."⟩,
         ⟨.debug, "expression abandoned at token 3"⟩] := by
  intro tokens c
  have last : tokens.getLast? = some (loose .eof "") := rfl
  obtain ⟨start, hs, inside, story⟩ := readAllTo_sameStory last rfl
  obtain rfl : c = start := Option.some.inj hs
  refine ⟨story c inside, ?_, ?_, ?_⟩
  · decide +kernel
  · rw [(story c inside).count, (story c inside).collected]
    decide +kernel
  · rw [(story c inside).loggedUntraced]
    decide +kernel

end Sample

end Cursor
end LoxReader
