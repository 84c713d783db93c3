import LoxReader.CommandLine.Run
import LoxReader.Proofs.Grammar.Reports
import LoxReader.Proofs.Lexing.Derivation

/-!
# What the exit status says

The exit status of a run is made from the diagnostics, and the output from the tree.  The two always
agree: a tree without a missing operand comes with no diagnostic, and everything else with one.  The
log is not part of what is said here of the errors.
-/

namespace LoxReader

/-! ### Diagnostics in the order of their tokens -/

/-- The diagnostics are against tokens of the list, each of them behind the one before. -/
def InTokenOrder (tokens : List Token) (ds : List Diagnostic) : Prop :=
  ∃ indices : List Nat, indices.Pairwise (· < ·) ∧
    indices.map (fun i => tokens[i]?) = ds.map fun d => some d.token

theorem Placed.inTokenOrder {tokens : List Token} {lo hi : Nat} {xs : List Event}
    (h : Placed tokens lo hi (reports xs)) : InTokenOrder tokens (diagnostics xs) := by
  refine ⟨(reports xs).map Report.index, List.pairwise_map.2 h.sorted, ?_⟩
  rw [diagnostics_eq_map_reports, List.map_map, List.map_map]
  exact List.map_congr_left h.token

section Reading

open Cursor

variable {c : Cursor} {tokens : List Token}

theorem Cursor.In.inTokenOrder_readAll (hc : c.In tokens) :
    InTokenOrder tokens (diagnostics c.readAll.events) := by
  rcases c.readAll_cases with ⟨e, d, xs, h, hr⟩ | ⟨d, xs, h, hr⟩
  · rw [hr]
    exact (h.placed hc).inTokenOrder
  · obtain ⟨rs, x, hx, halted⟩ := h.halts hc
    rw [hr]
    have same : reports (xs ++ [.abandoned d.position]) = rs ++ [x] := by simpa using hx
    exact (same ▸ halted.placed : Placed tokens _ _ (reports _)).inTokenOrder

/-- Nothing is wrong exactly if there is a whole tree. -/
theorem Cursor.In.diagnostics_readAll_eq_nil_iff (hc : c.In tokens) :
    diagnostics c.readAll.events = [] ↔ ∃ e, c.readAll.tree? = some e ∧ ¬ e.lacksOperand := by
  rw [diagnostics_eq_map_reports, List.map_eq_nil_iff]
  rcases c.readAll_cases with ⟨e, d, xs, h, hr⟩ | ⟨d, xs, h, hr⟩
  · have orphans : e.orphans = (reports xs).map Report.token := h.orphans_eq
    have complete : ¬ e.lacksOperand ↔ reports xs = [] := by
      rw [e.lacksOperand_iff, orphans, not_not, List.map_eq_nil_iff]
    rw [hr]
    constructor
    · intro quiet
      exact ⟨e, rfl, complete.2 quiet⟩
    · rintro ⟨_, ⟨⟩, whole⟩
      exact complete.1 whole
  · obtain ⟨rs, x, hx, -⟩ := h.halts hc
    rw [hr]
    simp [hx]

end Reading

namespace CommandLine

/-! ### Lines -/

section Lines

variable {lines : List String} {line : String}

theorem unlines_eq_empty_iff : unlines lines = "" ↔ lines = [] := by
  cases lines with
  | nil => simp [unlines]
  | cons line lines => simp [unlines, String.append_eq_empty_iff]

/-- One line more makes another text. -/
theorem unlines_append_singleton_ne : unlines (lines ++ [line]) ≠ unlines lines := by
  intro same
  have := congrArg String.length same
  simp [unlines, String.length_append] at this

end Lines

/-! ### The source of a run -/

/-- The source that the options name, if it can be read as text. -/
def Options.source (o : Options) (stdin : ByteArray) (files : FileTree) : Except ReadError String :=
  match o.origin with
  | .typed source => .ok source
  | .file path => (files.read path).bind decode
  | .stdin => decode stdin

variable {o : Options} {arguments : List String} {stdin : ByteArray} {files : FileTree}
  {source : String}

theorem run?_of_source (asked : request arguments = .ok (.run o))
    (read : o.source stdin files = .ok source) :
    run? arguments stdin files = evaluate? o o.origin.name source := by
  have prepared : prepare arguments = .inr o := by rw [prepare, asked]
  unfold Options.source at read
  rw [run?, prepared]
  dsimp only
  cases origin : o.origin with
  | typed text =>
    rw [origin] at read
    cases read
    rfl
  | file path =>
    rw [origin] at read
    dsimp only at read ⊢
    rw [ofInput?, read, origin]
  | stdin =>
    rw [origin] at read
    have decoded : (Except.ok stdin : Except ReadError ByteArray).bind decode = .ok source := read
    dsimp only
    rw [ofInput?, decoded, origin]

/-! ### What a source comes to -/

/-- The lines of the token list, if they are asked for. -/
def Options.tokenLines (o : Options) (tokens : List Token) : List String :=
  if o.tokens then tokens.map Token.text else []

/-- The exit status, the output and the errors agree with the reply `r` to some tokens. -/
structure Outcome.Truthful (o : Options) (tokens : List Token) (r : Reply) (outcome : Outcome) :
    Prop where
  stdout : outcome.stdout = unlines (o.tokenLines tokens ++ (r.tree?.map Expr.text).toList)
  stderr : outcome.stderr = unlines ((diagnostics r.events).map Diagnostic.text)
  ordered : InTokenOrder tokens (diagnostics r.events)
  /-- All is well exactly if there is a whole tree. -/
  success : outcome.exit = 0 ↔ ∃ e, r.tree? = some e ∧ ¬ e.lacksOperand
  silent : outcome.exit = 0 ↔ outcome.stderr = ""
  /-- A tree with a missing operand is printed all the same. -/
  repaired : (outcome.exit = faultStatus ∧
      ∃ e : Expr, outcome.stdout = unlines (o.tokenLines tokens ++ [e.text])) ↔
    ∃ e, r.tree? = some e ∧ e.lacksOperand
  abandoned : (outcome.exit = faultStatus ∧ outcome.stdout = unlines (o.tokenLines tokens)) ↔
    r.tree? = none

theorem exists_ofTokens?_of_lex {name : Option String} {tokens : List Token}
    (lexed : lex source name = .ok tokens) : ∃ c, Cursor.ofTokens? tokens = some c := by
  obtain ⟨t, last, ends⟩ := exists_getLast?_of_lex lexed
  exact Cursor.exists_ofTokens? last ends

/-- An outcome that is made from a reply like a run makes it. -/
theorem Outcome.truthful {c : Cursor} {tokens : List Token} {outcome : Outcome} (hc : c.In tokens)
    (exit : outcome.exit = if (diagnostics c.readAll.events).isEmpty then 0 else faultStatus)
    (stdout : outcome.stdout =
      unlines (o.tokenLines tokens ++ (c.readAll.tree?.map Expr.text).toList))
    (stderr : outcome.stderr = unlines ((diagnostics c.readAll.events).map Diagnostic.text)) :
    outcome.Truthful o tokens c.readAll := by
  have quiet : outcome.exit = 0 ↔ diagnostics c.readAll.events = [] := by
    rw [exit, ← List.isEmpty_iff]
    split <;> simp_all [faultStatus]
  have success := quiet.trans hc.diagnostics_readAll_eq_nil_iff
  have fault : outcome.exit = faultStatus ↔ ¬ outcome.exit = 0 := by
    rw [exit]
    split <;> simp [faultStatus]
  refine ⟨stdout, stderr, hc.inTokenOrder_readAll, success, ?_, ?_, ?_⟩
  · rw [quiet, stderr, unlines_eq_empty_iff, List.map_eq_nil_iff]
  · rw [fault, success]
    cases tree : c.readAll.tree? with
    | none =>
      rw [tree, Option.map_none, Option.toList_none, List.append_nil] at stdout
      refine iff_of_false ?_ (by simp)
      rintro ⟨-, e, shown⟩
      exact unlines_append_singleton_ne (shown.symm.trans stdout)
    | some e =>
      rw [tree] at stdout
      constructor
      · rintro ⟨wrong, -⟩
        exact ⟨e, rfl, by_contra fun whole => wrong ⟨e, rfl, whole⟩⟩
      · rintro ⟨_, ⟨⟩, lacks⟩
        refine ⟨?_, e, stdout⟩
        rintro ⟨_, ⟨⟩, whole⟩
        exact whole lacks
  · rw [fault, success]
    cases tree : c.readAll.tree? with
    | none =>
      rw [tree, Option.map_none, Option.toList_none, List.append_nil] at stdout
      exact iff_of_true ⟨by simp, stdout⟩ rfl
    | some e =>
      rw [tree] at stdout
      refine iff_of_false ?_ (by simp)
      rintro ⟨-, bare⟩
      exact unlines_append_singleton_ne (stdout.symm.trans bare)

theorem evaluate?_of_error {name : String} {e : SourceError}
    (failed : lex source (some name) = .error e) :
    evaluate? o name source =
      (e.snippet? source).map fun snippet => ⟨faultStatus, "", snippet ++ "\n", []⟩ := by
  rw [evaluate?, failed]

theorem evaluate?_of_ok {name : String} {tokens : List Token}
    (lexed : lex source (some name) = .ok tokens) :
    ∃ c outcome, Cursor.ofTokens? tokens = some c ∧ evaluate? o name source = some outcome ∧
      outcome.Truthful o tokens c.readAll := by
  obtain ⟨c, start⟩ := exists_ofTokens?_of_lex lexed
  rw [evaluate?, lexed]
  dsimp only
  rw [start]
  exact ⟨c, _, rfl, rfl, Outcome.truthful (Cursor.in_of_ofTokens? start) rfl rfl rfl⟩

/-- **The exit status tells the truth** about a source that can be read.  If the source has no
tokens, the error is shown as long as it can be laid out.  Otherwise status, output and errors agree
with what the tokens are parsed to.  Whatever the source, a run that ends well has printed a tree, and
one that does not has said something. -/
theorem run?_truthful (asked : request arguments = .ok (.run o))
    (read : o.source stdin files = .ok source) :
    (∀ e, lex source (some o.origin.name) = .error e →
      run? arguments stdin files =
        (e.snippet? source).map fun snippet => ⟨faultStatus, "", snippet ++ "\n", []⟩) ∧
    (∀ tokens, lex source (some o.origin.name) = .ok tokens →
      ∃ c outcome, Cursor.ofTokens? tokens = some c ∧ run? arguments stdin files = some outcome ∧
        outcome.Truthful o tokens c.readAll) ∧
    ∀ outcome, run? arguments stdin files = some outcome →
      (outcome.exit = 0 → ∃ (lines : List String) (e : Expr),
        outcome.stdout = unlines (lines ++ [e.text])) ∧
      (outcome.exit ≠ 0 → outcome.stderr ≠ "") := by
  rw [run?_of_source asked read]
  refine ⟨fun e => evaluate?_of_error, fun tokens => evaluate?_of_ok, fun outcome ran => ?_⟩
  cases h : lex source (some o.origin.name) with
  | error e =>
    rw [evaluate?_of_error h, Option.map_eq_some_iff] at ran
    obtain ⟨snippet, -, rfl⟩ := ran
    exact ⟨nofun, fun _ => by simp [String.append_eq_empty_iff]⟩
  | ok tokens =>
    obtain ⟨c, outcome', -, ran', truthful⟩ := evaluate?_of_ok (o := o) h
    rw [ran'] at ran
    cases ran
    refine ⟨fun zero => ?_, truthful.silent.not.1⟩
    obtain ⟨e, tree, -⟩ := truthful.success.1 zero
    exact ⟨_, e, by rw [truthful.stdout, tree]; rfl⟩

/-- An operator without its left operand, in an expression that is given with the arguments. -/
theorem run?_truthful_of_forgiven :
    let arguments := ["--tokens", "-ve", "* nil"]
    let o : Options := ⟨none, some "* nil", true, 1⟩
    request arguments = .ok (.run o) ∧ o.source .empty ⟨[]⟩ = .ok "* nil" ∧
    ∃ tokens c outcome, lex "* nil" (some "shell") = .ok tokens ∧
      Cursor.ofTokens? tokens = some c ∧ run? arguments .empty ⟨[]⟩ = some outcome ∧
      outcome.Truthful o tokens c.readAll ∧
      (outcome.exit, outcome.stdout, outcome.stderr) =
        (65, "Star *\nNil nil\nEOF \n(* <missing> nil)\n",
          "[line 1] Error at '*': Missing left operand.\n") := by
  intro arguments o
  have asked : request arguments = .ok (.run o) := rfl
  have read : o.source .empty ⟨[]⟩ = .ok "* nil" := rfl
  have lexed : (lex "* nil" (some "shell")).toOption.isSome := by decide +kernel
  have lexed := eq_ok_of_toOption (Option.some_get lexed).symm
  obtain ⟨-, truthful, -⟩ := run?_truthful asked read
  obtain ⟨c, outcome, start, ran, told⟩ := truthful _ lexed
  have shown : (run? arguments .empty ⟨[]⟩).map (fun w => (w.exit, w.stdout, w.stderr)) =
      some (65, "Star *\nNil nil\nEOF \n(* <missing> nil)\n",
        "[line 1] Error at '*': Missing left operand.\n") := by decide +kernel
  rw [ran] at shown
  exact ⟨asked, read, _, c, outcome, lexed, start, ran, told, Option.some.inj shown⟩

end CommandLine
end LoxReader
