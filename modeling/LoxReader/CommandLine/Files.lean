/-!
# Files

Looking up a path below a working directory of which all files are known.
-/

namespace LoxReader.CommandLine

/-- Why an input cannot be read. -/
inductive ReadError where
  | missing
  | isDirectory
  | notDirectory
  | nameTooLong
  | notText
deriving DecidableEq

def ReadError.message : ReadError → String
  | missing => "No such file or directory (os error 2)"
  | isDirectory => "Is a directory (os error 21)"
  | notDirectory => "Not a directory (os error 20)"
  | nameTooLong => "File name too long (os error 36)"
  | notText => "stream did not contain valid UTF-8"

/-- The parts of a path. -/
def components (path : String) : List String :=
  path.toList.splitOn '/' |>.map String.ofList

/-- The name that the last part of a path gives to a file; a path without one is its own name. -/
def baseName (path : String) : String :=
  match ((components path).filter fun part => part ≠ "" && part ≠ ".").getLast? with
  | none | some ".." => path
  | some name => name

/-- What stands at a place below a working directory. -/
inductive Entry where
  | directory
  | file (bytes : ByteArray)

/-- The files and directories below a working directory, by the parts of their paths. -/
structure FileTree where
  entries : List (List String × Entry)

/-- The most bytes in one part of a path. -/
def maxPartSize : Nat := 255

/-- The most bytes in a path. -/
def maxPathSize : Nat := 4095

namespace FileTree

/-- The directory that one part of a path leads to from another directory. -/
def enter (place : List String) (part : String) : List String :=
  if part = "" || part = "." then place
  else if part = ".." then place.dropLast
  else place ++ [part]

/-- The places on the way along a path, the last one first. -/
def trail (path : String) : List (List String) :=
  (components path).foldl (fun places part => enter (places.headD []) part :: places) []

/-- A file and the directories on the way to it. -/
def entriesOf (path : String) (bytes : ByteArray) : List (List String × Entry) :=
  match trail path with
  | [] => []
  | place :: places => (place, .file bytes) :: places.map fun place => (place, .directory)

/-- The tree that holds some files and nothing else; of two at one place, the later one. -/
def ofPaths (files : List (String × ByteArray)) : FileTree :=
  ⟨files.reverse.flatMap fun (path, bytes) => entriesOf path bytes⟩

/-- What a path has led to. -/
inductive Node where
  /-- A directory, by the parts of its path. -/
  | directory (path : List String)
  /-- A directory around the working directory. -/
  | outside
  | file (bytes : ByteArray)

/-- A child of a directory. -/
def child? (t : FileTree) (path : List String) : Option Node :=
  (t.entries.lookup path).map fun
    | .directory => .directory path
    | .file bytes => .file bytes

/-- Follows the parts of a path. -/
def walk (t : FileTree) : Node → List String → Except ReadError Node
  | node, [] => .ok node
  | .file _, _ :: _ => .error .notDirectory
  | .outside, part :: rest =>
    if part = "" || part = "." || part = ".." then walk t .outside rest
    else .error (if part.utf8ByteSize ≤ maxPartSize then .missing else .nameTooLong)
  | .directory path, part :: rest =>
    if part = "" || part = "." then walk t (.directory path) rest
    else if part = ".." then
      walk t (if path = [] then .outside else .directory path.dropLast) rest
    else if maxPartSize < part.utf8ByteSize then .error .nameTooLong
    else
      match t.child? (path ++ [part]) with
      | none => .error .missing
      | some node => walk t node rest

/-- The bytes of a file. -/
def read (t : FileTree) (path : String) : Except ReadError ByteArray := do
  if maxPathSize < path.utf8ByteSize then throw .nameTooLong
  let start := if path.toList.head? = some '/' then .outside else .directory []
  match ← t.walk start (components path) with
  | .file bytes => return bytes
  | .directory _ | .outside => throw .isDirectory

end FileTree
end LoxReader.CommandLine
