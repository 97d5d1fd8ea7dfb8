/-
Sessions: programs and interactive entries on one root frame.

A session evaluates top-level forms one after the other. Each form starts with a
fresh step count, and a signal that escapes it is a fault. The first failure ends
the program or entry; what earlier forms did stays done. Sources are kept by
label, so that failures can be reported against their texts.
-/

import Sexpr.Reading.Entry
import Sexpr.Report.Basic
import Sexpr.Run.Eval

namespace Sexpr

structure Session where
  reading : ReadSettings := {}
  interpreter : Interpreter := {}
  world : World
  sources : Sources := {}
  entry : Entry
  /-- How far one form may be evaluated. -/
  fuel : Nat

/-- What became of a line of interactive input. -/
inductive Answer where
  /-- The entry needs more lines. -/
  | incomplete
  /-- One value for each form of the entry. -/
  | values (nodes : List Node)
  | stopped (stop : Stop)

namespace Session

/-- Fuel that no program comes to the end of in practice. -/
def ampleFuel : Nat := 1000000000000000000

/-- A session in which nothing has happened. Callables that it makes are numbered
from `serial` on. -/
def start (reading : ReadSettings) (limits : Limits) (serial : Nat) : Session where
  reading := reading
  interpreter := { limits }
  world := { store := .global serial }
  entry := { base := "repl" }
  fuel := ampleFuel

def isPending (s : Session) : Bool :=
  s.entry.isPending

/-- Drops an unfinished entry. -/
def resetInput (s : Session) : Session :=
  { s with entry := s.entry.reset }

def report (s : Session) (signal : Signal) : String :=
  s.sources.report signal

/-- Changes the store. -/
def modifyStore (s : Session) (f : Store → Store) : Session :=
  { s with world := { s.world with store := f s.world.store } }

/-- Makes a function of the embedding program callable by name. -/
def register (s : Session) (name : String) (arity : Arity) (host : Host) : Session :=
  let index := s.interpreter.hosts.size
  let s := s.modifyStore (·.register Store.root name arity (.host index))
  { s with interpreter := { s.interpreter with hosts := s.interpreter.hosts.push host } }

/-- The output so far, which is taken out of the session. -/
def takeOutput (s : Session) : String × Session :=
  (s.world.output, { s with world := { s.world with output := "" } })

/-- The stop of a top-level form, which nothing is left to catch. -/
def escape : Stop → Stop
  | .raised signal => .raised signal.escaped
  | other => other

/-- Evaluates one top-level form. -/
def evaluate (s : Session) (node : Node) : Except Stop Node × Session :=
  let world := { s.world with steps := 0 }
  match s.interpreter.eval s.fuel Store.root node world with
  | .ok value world => (.ok value, { s with world })
  | .error stop world => (.error (escape stop), { s with world })

/-- Evaluates forms in order, up to the first that stops; `values` are those that
came before, the latest first. -/
def evaluateAll (s : Session) (values : List Node) :
    List Node → Except Stop (List Node) × Session
  | [] => (.ok values.reverse, s)
  | form :: forms =>
    match s.evaluate form with
    | (.ok value, s) => s.evaluateAll (value :: values) forms
    | (.error stop, s) => (.error stop, s)

/-- The signal of a text that cannot be read. -/
def readSignal (e : ReadError) : Signal :=
  .ofFault (.unreadable e) e.place

/-- Runs a labelled program. Its value is that of its last form, or the empty
value. Forms before a flaw in the text are evaluated. -/
def run (s : Session) (label text : String) : Except Stop Node × Session :=
  let s := { s with sources := s.sources.put label text }.modifyStore
    (·.setProgram Store.root label)
  let reading := read s.reading label text
  match s.evaluateAll [] reading.forms with
  | (.error stop, s) => (.error stop, s)
  | (.ok values, s) =>
    match reading.error with
    | some e => (.error (.raised (readSignal e)), s)
    | none => (.ok (values.getLastD (.nil .computed)), s)

/-- Takes one line of interactive input. Forms are evaluated once the entry is
complete. -/
def feed (s : Session) (line : String) : Answer × Session :=
  let label := s.entry.label
  let sources := s.sources.put label (s.entry.withLine line)
  let (fed, entry) := s.entry.feed s.reading line
  let s := { s with sources, entry }
  match fed with
  | .incomplete => (.incomplete, s)
  | .failed e => (.stopped (.raised (readSignal e)), s)
  | .complete label _ forms =>
    match (s.modifyStore (·.setProgram Store.root label)).evaluateAll [] forms with
    | (.ok values, s) => (.values values, s)
    | (.error stop, s) => (.stopped stop, s)

end Session

end Sexpr
