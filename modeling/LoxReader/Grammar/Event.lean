import LoxReader.Diagnostic
import LoxReader.Fault
import LoxReader.Grammar.Level

/-!
# Events

What happens while an expression is read.  The log and the diagnostics are two views of one list
of events.
-/

namespace LoxReader

inductive Event where
  /-- A rung of the ladder was entered at a token. -/
  | entered (rung : Rung) (position : Nat)
  /-- A fault was found in a token, with the cursor at `position`. -/
  | reported (position : Nat) (token : Token) (fault : Fault)
  /-- Reading came to nothing. -/
  | abandoned (position : Nat)
deriving DecidableEq

namespace Event

/-- The diagnostic that an event makes. -/
def diagnostic? : Event → Option Diagnostic
  | reported _ token fault => some ⟨token, fault.message⟩
  | _ => none

/-- The event itself on the log. -/
def entry : Event → Log.Entry
  | entered rung position => ⟨.trace, s!"{(Level.rung rung).name} at token {position}"⟩
  | reported position token fault =>
    ⟨.debug, s!"{fault.message} at token {position} ({token.kind.name})"⟩
  | abandoned position => ⟨.debug, s!"expression abandoned at token {position}"⟩

end Event

/-- The diagnostics of a list of events, in order. -/
def diagnostics (events : List Event) : List Diagnostic := events.filterMap Event.diagnostic?

/-- Where diagnostics go. -/
inductive Sink where
  /-- They are kept for the caller. -/
  | kept
  /-- They are written to the log. -/
  | logged
deriving DecidableEq

/-- What an event puts on the log.  A diagnostic that is logged stands right behind the entry of
its report. -/
def Sink.entries (sink : Sink) (event : Event) : List Log.Entry :=
  match sink with
  | kept => [event.entry]
  | logged => event.entry :: (event.diagnostic?.map Diagnostic.entry).toList

/-- The log of a list of events. -/
def Sink.log (sink : Sink) (events : List Event) : List Log.Entry := events.flatMap sink.entries

end LoxReader
