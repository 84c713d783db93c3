import LoxReader.CommandLine.Run

/-!
# The command line program
-/

namespace LoxReader.CommandLine

/-- Reads a file as the library wants it. -/
def readInput (path : String) : IO (Except ReadError ByteArray) := do
  try
    return .ok (← IO.FS.readBinFile path)
  catch
    | .noFileOrDirectory .. => return .error .missing
    | .inappropriateType _ 21 _ => return .error .isDirectory
    | .invalidArgument .. => return .error .nameTooLong
    | _ => return .error .notDirectory

/-- All that is on standard input. -/
partial def readStdin : IO ByteArray := do
  let stdin ← IO.getStdin
  let rec loop (bytes : ByteArray) : IO ByteArray := do
    let more ← stdin.read 65536
    if more.isEmpty then return bytes else loop (bytes ++ more)
  loop .empty

/-- Writes an outcome down.  An error that cannot be shown ends the program with its own status. -/
def finish (outcome? : Option Outcome) : IO UInt32 := do
  match outcome? with
  | none => return 101
  | some outcome =>
    for entry in outcome.log do
      IO.eprintln s!"[{entry.severity.name}] {entry.message}"
    IO.print outcome.stdout
    IO.eprint outcome.stderr
    return outcome.exit.toUInt32

end LoxReader.CommandLine

open LoxReader.CommandLine in
def main (arguments : List String) : IO UInt32 := do
  match prepare arguments with
  | .inl outcome => finish (some outcome)
  | .inr options =>
    match options.origin with
    | .typed source => finish (evaluate? options options.origin.name source)
    | .file path => finish (ofInput? options (← readInput path))
    | .stdin => finish (ofInput? options (.ok (← readStdin)))
