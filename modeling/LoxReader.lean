import LoxReader.Token.Lexing
import LoxReader.Source.Snippet
import LoxReader.Expr.Outline
import LoxReader.Expr.Assembly
import LoxReader.Grammar.Session
import LoxReader.CommandLine.Run
import LoxReader.Main
import LoxReader.Proofs.Grammar.Follow
import LoxReader.Proofs.Grammar.Quiet
import LoxReader.Proofs.Grammar.Ladder
import LoxReader.Proofs.Grammar.Writing
import LoxReader.Proofs.Grammar.Repair
import LoxReader.Proofs.Grammar.Echo
import LoxReader.Proofs.Grammar.Completion
import LoxReader.Proofs.Grammar.Precedence
import LoxReader.Proofs.Lexing.Derivation
import LoxReader.Proofs.Lexing.Conservation
import LoxReader.Proofs.Lexing.Lines
import LoxReader.Proofs.Lexing.Priority
import LoxReader.Proofs.Lexing.Failures
import LoxReader.Proofs.Grammar.Locality
import LoxReader.Proofs.Grammar.Sessions
import LoxReader.Proofs.CommandLine.ExitStatus
import LoxReader.Proofs.Grammar.Renaming
import LoxReader.Proofs.Lexing.Layout
import LoxReader.Proofs.Expr.PrefixForm
import LoxReader.Proofs.Lexing.Munch
import LoxReader.Proofs.Source.Lookup
import LoxReader.Proofs.Source.Caret
import LoxReader.Proofs.Source.Snippet
import LoxReader.Proofs.Grammar.Minus
import LoxReader.Proofs.Grammar.Maximal
import LoxReader.Proofs.Grammar.Grouping
import LoxReader.Proofs.Grammar.Entrances
import LoxReader.Proofs.Grammar.Statements
import LoxReader.Proofs.Grammar.Worth
import LoxReader.Proofs.Grammar.Equality
import LoxReader.Proofs.Grammar.Logging
import LoxReader.Proofs.Lexing.Turns
