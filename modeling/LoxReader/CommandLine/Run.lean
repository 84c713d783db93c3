import LoxReader.CommandLine.Files
import LoxReader.CommandLine.Options
import LoxReader.Grammar.Reading
import LoxReader.Source.Snippet
import LoxReader.Token.Lexing

/-!
# Running the program

The source is read, cut into tokens and parsed; the tree goes to the output, what is wrong goes to
the errors, and the exit status says whether anything was.
-/

namespace LoxReader.CommandLine

/-- What a run leaves behind. -/
structure Outcome where
  exit : Nat
  stdout : String
  stderr : String
  /-- What was logged, down to the severity asked for. -/
  log : List Log.Entry

/-- The exit status if something is wrong with the expression. -/
def faultStatus : Nat := 65

/-- The exit status if the input cannot be read. -/
def unreadableStatus : Nat := 66

/-- The exit status if the arguments make no sense. -/
def usageStatus : Nat := 2

def helpText : String :=
"Parse a Lox expression and print its syntax tree

Usage: lox_expr [OPTIONS] [FILE]

Arguments:
  [FILE]  File containing the expression; reads stdin when neither this nor --expr is given

Options:
  -e, --expr <EXPR>  Expression source given on the command line
      --tokens       Print the token stream before parsing
  -v, --verbose...   Raise log verbosity (-v for debug, -vv for trace)
  -h, --help         Print help
  -V, --version      Print version
"

def versionText : String := "lox-expr 0.1.0\n"

/-- Lines, each with its newline. -/
def unlines (lines : List String) : String := String.join (lines.map (· ++ "\n"))

/-- Where a source comes from. -/
inductive Origin where
  | typed (source : String)
  | file (path : String)
  | stdin
deriving DecidableEq

def Origin.name : Origin → String
  | typed _ => "shell"
  | file path => baseName path
  | stdin => "stdin"

def Options.origin (o : Options) : Origin :=
  match o.expr, o.file with
  | some source, _ => .typed source
  | .none, some path => .file path
  | .none, .none => .stdin

/-- What is logged at a verbosity. -/
def visible (verbosity : Nat) (entry : Log.Entry) : Bool :=
  match entry.severity with
  | .error => true
  | .debug => 1 ≤ verbosity
  | .trace => 2 ≤ verbosity

/-- The outcome for a source.  There is none if an error has to be shown whose caret is out of
reach. -/
def evaluate? (o : Options) (name source : String) : Option Outcome :=
  match lex source (some name) with
  | .error e => (e.snippet? source).map fun snippet => ⟨faultStatus, "", snippet ++ "\n", []⟩
  | .ok tokens =>
    (Cursor.ofTokens? tokens).map fun c =>
      let r := c.readAll
      let ds := diagnostics r.events
      { exit := if ds.isEmpty then 0 else faultStatus
        stdout := unlines
          ((if o.tokens then tokens.map Token.text else []) ++ (r.tree?.map Expr.text).toList)
        stderr := unlines (ds.map Diagnostic.text)
        log := (lexedEntry (some name) tokens :: Sink.kept.log r.events).filter
          (visible o.verbosity) }

/-- The text of some bytes. -/
def decode (bytes : ByteArray) : Except ReadError String :=
  match String.fromUTF8? bytes with
  | some text => .ok text
  | none => .error .notText

/-- The outcome for an input that may be unreadable. -/
def ofInput? (o : Options) (input : Except ReadError ByteArray) : Option Outcome :=
  match input.bind decode with
  | .error e => some ⟨unreadableStatus, "", s!"Failed to read input: {e.message}\n", []⟩
  | .ok source => evaluate? o o.origin.name source

/-- The outcome of a request that needs no input, or the options and the origin of the input. -/
def prepare (arguments : List String) : Outcome ⊕ Options :=
  match request arguments with
  | .error e => .inl ⟨usageStatus, "", s!"error: {e.message}\n", []⟩
  | .ok .help => .inl ⟨0, helpText, "", []⟩
  | .ok .version => .inl ⟨0, versionText, "", []⟩
  | .ok (.run o) => .inr o

/-- A whole run, the bytes on standard input and the files being known. -/
def run? (arguments : List String) (stdin : ByteArray) (files : FileTree) : Option Outcome :=
  match prepare arguments with
  | .inl outcome => some outcome
  | .inr o =>
    match o.origin with
    | .typed source => evaluate? o o.origin.name source
    | .file path => ofInput? o (files.read path)
    | .stdin => ofInput? o (.ok stdin)

end LoxReader.CommandLine
