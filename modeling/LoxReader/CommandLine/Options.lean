/-!
# Options

The arguments of the command line.  They are read from left to right, and the first of them that
asks for the help or the version, or is wrong, decides; that an expression and a file exclude each
other is found out at the end.
-/

namespace LoxReader.CommandLine

structure Options where
  file : Option String
  expr : Option String
  tokens : Bool
  verbosity : Nat
deriving DecidableEq

def Options.none : Options := ⟨.none, .none, false, 0⟩

/-- What is wrong with the arguments. -/
inductive UsageError where
  | unknownOption (name : String)
  | unexpectedValue (option : String)
  | missingValue (option : String)
  | repeated (option : String)
  | unexpectedArgument (argument : String)
  | emptyFile
  | exprWithFile
deriving DecidableEq

def UsageError.message : UsageError → String
  | unknownOption name => s!"unexpected argument {name}"
  | unexpectedValue option => s!"{option} takes no value"
  | missingValue option => s!"{option} needs a value"
  | repeated option => s!"{option} cannot be used more than once"
  | unexpectedArgument argument => s!"unexpected argument {argument}"
  | emptyFile => "[FILE] needs a value"
  | exprWithFile => "--expr cannot be used with [FILE]"

/-- What the arguments ask for. -/
inductive Request where
  | help
  | version
  | run (options : Options)
deriving DecidableEq

/-- How far one argument leads. -/
inductive Step where
  /-- On to the next argument. -/
  | next (options : Options)
  /-- The next argument is the value of `--expr`. -/
  | exprNext (options : Options)
  | stop (request : Request)

namespace Options

def setFile (o : Options) (path : String) : Except UsageError Options :=
  if o.file.isSome then .error (.unexpectedArgument path)
  else if path.isEmpty then .error .emptyFile
  else .ok { o with file := path }

def setExpr (o : Options) (source : String) : Except UsageError Options :=
  if o.expr.isSome then .error (.repeated "--expr") else .ok { o with expr := source }

def setTokens (o : Options) : Except UsageError Options :=
  if o.tokens then .error (.repeated "--tokens") else .ok { o with tokens := true }

def raiseVerbosity (o : Options) : Options := { o with verbosity := o.verbosity + 1 }

/-- An option by its long name, with the value behind its equals sign. -/
def long (o : Options) (name : String) (value : Option String) : Except UsageError Step :=
  match name, value with
  | "expr", some value => (o.setExpr value).map .next
  | "expr", .none => .ok (.exprNext o)
  | "tokens", .none => o.setTokens.map .next
  | "verbose", .none => .ok (.next o.raiseVerbosity)
  | "help", .none => .ok (.stop .help)
  | "version", .none => .ok (.stop .version)
  | name, some _ =>
    if name ∈ ["tokens", "verbose", "help", "version"] then .error (.unexpectedValue ("--" ++ name))
    else .error (.unknownOption ("--" ++ name))
  | name, .none => .error (.unknownOption ("--" ++ name))

/-- Options by their letters.  What stands behind an `e` is its value, an equals sign left out. -/
def short (o : Options) : List Char → Except UsageError Step
  | [] => .ok (.next o)
  | 'v' :: rest => short o.raiseVerbosity rest
  | 'h' :: _ => .ok (.stop .help)
  | 'V' :: _ => .ok (.stop .version)
  | ['e'] => .ok (.exprNext o)
  | 'e' :: '=' :: value => (o.setExpr (String.ofList value)).map .next
  | 'e' :: value => (o.setExpr (String.ofList value)).map .next
  | c :: _ => .error (.unknownOption (String.ofList ['-', c]))

/-- An argument that is no value: a lone dash is a value. -/
def isOption (argument : String) : Bool :=
  match argument.toList with
  | '-' :: _ :: _ => true
  | _ => false

/-- One argument in front of any `--`. -/
def argument (o : Options) (text : String) : Except UsageError Step :=
  match text.toList with
  | '-' :: '-' :: rest =>
    match rest.dropWhile (· ≠ '=') with
    | [] => o.long (String.ofList rest) .none
    | _ :: value => o.long (String.ofList (rest.takeWhile (· ≠ '='))) (String.ofList value)
  | '-' :: c :: rest => o.short (c :: rest)
  | _ => (o.setFile text).map .next

/-- At the end of the arguments. -/
def finish (o : Options) : Except UsageError Request :=
  if o.expr.isSome && o.file.isSome then .error .exprWithFile else .ok (.run o)

/-- The arguments behind a `--`: all of them are files. -/
def operands (o : Options) : List String → Except UsageError Request
  | [] => o.finish
  | path :: rest => do operands (← o.setFile path) rest

/-- All arguments. -/
def read (o : Options) : List String → Except UsageError Request
  | [] => o.finish
  | "--" :: rest => o.operands rest
  | text :: rest =>
    match o.argument text with
    | .error e => .error e
    | .ok (.stop request) => .ok request
    | .ok (.next o) => read o rest
    | .ok (.exprNext o) =>
      match rest with
      | [] => .error (.missingValue "--expr")
      | value :: rest =>
        if isOption value then .error (.missingValue "--expr")
        else
          match o.setExpr value with
          | .error e => .error e
          | .ok o => read o rest

end Options

/-- What a list of arguments asks for. -/
def request (arguments : List String) : Except UsageError Request := Options.none.read arguments

end LoxReader.CommandLine
