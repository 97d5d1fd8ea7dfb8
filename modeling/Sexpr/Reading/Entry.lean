/-
Entries: reading line by line.

Lines are gathered until they hold complete forms; a text that merely ends too
early waits for more. Each entry has a label of its own, a base and a running
number, so that places from different entries stay apart.
-/

import Sexpr.Reading.Basic

namespace Sexpr

/-- The lines of the entry that is being typed, and its number. -/
structure Entry where
  base : String
  number : Nat := 1
  lines : String := ""

/-- What became of a line. -/
inductive Fed where
  /-- The entry ends inside a form. -/
  | incomplete
  /-- The entry is complete; it is over. -/
  | complete (label text : String) (forms : List Node)
  /-- The entry cannot be completed; it is over. -/
  | failed (error : ReadError)

namespace Entry

/-- The label of the current entry. -/
def label (e : Entry) : String :=
  s!"{e.base}:{e.number}"

/-- Part of a form has been typed. -/
def isPending (e : Entry) : Bool :=
  !e.lines.isEmpty

/-- The text of the entry with one more line. -/
def withLine (e : Entry) (line : String) : String :=
  if e.isPending then e.lines ++ "\n" ++ line else line

/-- The next entry, with nothing typed. -/
def next (e : Entry) : Entry :=
  { e with number := e.number + 1, lines := "" }

/-- Drops what has been typed; the entry keeps its number. -/
def reset (e : Entry) : Entry :=
  { e with lines := "" }

/-- Adds a line and reads everything typed so far. -/
def feed (settings : ReadSettings) (e : Entry) (line : String) : Fed × Entry :=
  let text := e.withLine line
  match (read settings e.label text).all with
  | .ok forms => (.complete e.label text forms, e.next)
  | .error error =>
    if error.needsMore then (.incomplete, { e with lines := text }) else (.failed error, e.next)

end Entry

end Sexpr
