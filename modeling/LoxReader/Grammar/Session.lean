import LoxReader.Grammar.Reading

/-!
# Sessions

One cursor, and commands given to it one after the other.
-/

namespace LoxReader

inductive Command where
  /-- Read a whole expression. -/
  | readAll
  /-- Read an expression of a level. -/
  | read (level : Level)
  /-- Show the token in front of the cursor. -/
  | token
  /-- Show the token just passed. -/
  | passed
  | kind
  | atEnd
  | sees (kind : Kind)
  | seesAny (kinds : List Kind)
  /-- Pass one token. -/
  | next
  /-- Pass one token if it is of one of these kinds. -/
  | nextIf (kinds : List Kind)
  /-- Pass one token of this kind, or fail with the fault. -/
  | demand (kind : Kind) (fault : Fault)
  /-- Fail at the token in front of the cursor. -/
  | fail (fault : Fault)
  /-- Fail at a token, wherever it stands. -/
  | failAt (token : Token) (fault : Fault)
  /-- Report a fault of the token just passed. -/
  | report (fault : Fault)
  /-- Report a fault of a token, wherever it stands. -/
  | reportAt (token : Token) (fault : Fault)
  /-- Go on to where a statement may begin. -/
  | toStatement

/-- What a command answers. -/
inductive Answer where
  | nothing
  | failed
  | token (token : Token)
  | kind (kind : Kind)
  | truth (value : Bool)
  | tree (tree : Expr)
deriving DecidableEq

/-- The answer, where the cursor is then, and what happened. -/
structure Turn where
  answer : Answer
  cursor : Cursor
  events : List Event
deriving DecidableEq

/-- A reply as an answer. -/
def Reply.turn (r : Reply) : Turn := ⟨r.tree?.elim .failed .tree, r.cursor, r.events⟩

namespace Command

def run (command : Command) (c : Cursor) : Turn :=
  match command with
  | readAll => c.readAll.turn
  | read level => (c.read level).turn
  | token => ⟨.token c.token, c, []⟩
  | passed => ⟨.token c.passed, c, []⟩
  | kind => ⟨.kind c.kind, c, []⟩
  | atEnd => ⟨.truth c.atEnd, c, []⟩
  | sees k => ⟨.truth (c.sees k), c, []⟩
  | seesAny kinds => ⟨.truth (c.seesAny kinds), c, []⟩
  | next => ⟨.token c.next.passed, c.next, []⟩
  | nextIf kinds =>
    if c.seesAny kinds then ⟨.truth true, c.next, []⟩ else ⟨.truth false, c, []⟩
  | demand k fault =>
    if c.sees k then ⟨.token c.next.passed, c.next, []⟩
    else ⟨.failed, c, [.reported c.position c.token fault]⟩
  | fail fault => ⟨.failed, c, [.reported c.position c.token fault]⟩
  | failAt t fault => ⟨.failed, c, [.reported c.position t fault]⟩
  | report fault => ⟨.nothing, c, [.reported c.position c.passed fault]⟩
  | reportAt t fault => ⟨.nothing, c, [.reported c.position t fault]⟩
  | toStatement => ⟨.nothing, c.toStatement, []⟩

/-- The turns of a session. -/
def runAll : List Command → Cursor → List Turn
  | [], _ => []
  | command :: commands, c =>
    let turn := command.run c
    turn :: runAll commands turn.cursor

end Command
end LoxReader
