import LoxReader.Log
import LoxReader.Source.Place
import LoxReader.Token.Rule

/-!
# From a source to its tokens

The rules cut the source from its start to its end.  The result ends with an end token, or the
first text that is no token is an error.
-/

namespace LoxReader

/-- The token behind the last one. -/
def Token.atEnd (file : String) (p : Place) : Token := ⟨.eof, "", none, p.line, p.span file 0⟩

/-- The tokens of what is still to be read at a place. -/
def lexFrom (file : String) (p : Place) : List Char → Except SourceError (List Token)
  | [] => .ok [Token.atEnd file p]
  | c :: rest =>
    match h : Rule.first? (c :: rest) with
    | none => .error ⟨.strayCharacter c, wrap32 p.offset, file⟩
    | some (rule, text) =>
      have shorter : ((c :: rest).drop text.length).length < (c :: rest).length := by
        have := List.length_pos_iff.2 (Rule.first?_ne_nil h)
        simp only [List.length_drop, List.length_cons]
        omega
      match rule.reading text with
      | .fault fault => .error ⟨fault, wrap32 p.offset, file⟩
      | .skipped => lexFrom file (p.after text) ((c :: rest).drop text.length)
      | .token kind literal =>
        let token : Token :=
          ⟨kind, String.ofList text, literal, p.line, p.span file (Text.byteLength text)⟩
        (lexFrom file (p.after text) ((c :: rest).drop text.length)).map (token :: ·)
termination_by cs => cs.length
decreasing_by all_goals exact shorter

/-- The tokens of a source. -/
def lex (source : String) (file : Option String) : Except SourceError (List Token) :=
  lexFrom (fileName file) .start source.toList

/-- What a source that has tokens puts on the log. -/
def lexedEntry (file : Option String) (tokens : List Token) : Log.Entry :=
  ⟨.trace, s!"tokenized {tokens.length} tokens from {fileName file}"⟩

end LoxReader
