import LoxReader.Expr.Basic
import LoxReader.Grammar.Cursor
import LoxReader.Grammar.Event

/-!
# Replies

What reading a part of an expression leaves behind, and how replies follow each other.  A reply
that `Follows` a cursor has not moved back from it; this is what makes reading come to an end.
-/

namespace LoxReader

/-- What reading leaves behind: a tree if it came to one, where it stopped, what happened. -/
structure Reply where
  tree? : Option Expr
  cursor : Cursor
  events : List Event
deriving DecidableEq

namespace Reply

/-- A finished tree. -/
def done (tree : Expr) (c : Cursor) : Reply := ⟨some tree, c, []⟩

/-- A fault that ends the reading. -/
def fail (c : Cursor) (token : Token) (fault : Fault) : Reply :=
  ⟨none, c, [.reported c.position token fault]⟩

/-- The same, with some events in front. -/
def after (r : Reply) (events : List Event) : Reply := { r with events := events ++ r.events }

/-- Goes on with the tree from where it ends, if there is one. -/
def andThen (r : Reply) (next : Expr → Cursor → Reply) : Reply :=
  match r.tree? with
  | none => r
  | some tree => (next tree r.cursor).after r.events

/-- The reply to a call at `c` does not move back, and a `strict` one that has a tree has moved
forward. -/
def Follows (r : Reply) (strict : Bool) (c : Cursor) : Prop :=
  r.cursor.remaining ≤ c.remaining ∧
    (strict → r.tree?.isSome → r.cursor.remaining < c.remaining)

theorem Follows.of_lt {r : Reply} {strict : Bool} {c d : Cursor} (h : r.Follows strict d)
    (hd : d.remaining < c.remaining) {strict' : Bool} : r.Follows strict' c :=
  ⟨by have := h.1; omega, fun _ _ => by have := h.1; omega⟩

theorem done_follows {tree : Expr} {strict : Bool} {c d : Cursor} (h : d.remaining < c.remaining) :
    (done tree d).Follows strict c :=
  ⟨Nat.le_of_lt h, fun _ _ => h⟩

theorem fail_follows {strict : Bool} {c d : Cursor} {token : Token} {fault : Fault}
    (h : d.remaining ≤ c.remaining) : (fail d token fault).Follows strict c :=
  ⟨h, fun _ h => by simp [fail] at h⟩

/-- Goes on like `andThen`, with replies that are known to follow a cursor. -/
def bind {c : Cursor} (r : { r : Reply // r.Follows true c })
    (next : Expr → (d : Cursor) → d.remaining < c.remaining → { r : Reply // r.Follows false d }) :
    { r : Reply // r.Follows true c } :=
  match r with
  | ⟨⟨none, d, events⟩, h⟩ => ⟨⟨none, d, events⟩, h⟩
  | ⟨⟨some tree, d, events⟩, h⟩ =>
    have hd : d.remaining < c.remaining := h.2 rfl rfl
    let s := next tree d hd
    ⟨s.1.after events, s.2.of_lt hd⟩

theorem bind_val {c : Cursor} {r : { r : Reply // r.Follows true c }}
    {next : Expr → (d : Cursor) → d.remaining < c.remaining → { r : Reply // r.Follows false d }}
    {next' : Expr → Cursor → Reply} (h : ∀ tree d hd, (next tree d hd).1 = next' tree d) :
    (bind r next).1 = r.1.andThen next' := by
  obtain ⟨⟨tree?, d, events⟩, hr⟩ := r
  cases tree? with
  | none => rfl
  | some tree => simp [bind, andThen, h]

end Reply

end LoxReader
