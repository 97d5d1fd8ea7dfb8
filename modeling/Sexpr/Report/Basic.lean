/-
Reports: failures as people read them.

A report names the fault and the place, quotes the line if its source is known,
and lists the calls that the signal passed through.
-/

import Sexpr.Report.Sources
import Sexpr.Signal

namespace Sexpr

structure Report where
  code : String
  message : String
  place : Place
  notes : List String
  help : Option String

namespace Report

/-- The lines of a report. -/
def lines (r : Report) (sources : Sources) : List String :=
  let quoted := match r.place.span, sources.get? r.place.source with
    | some span, some text => snippet text span
    | _, _ => []
  s!"error[{r.code}]: {r.message}" :: s!"  --> {sources.describe r.place}" :: quoted
    ++ r.notes.map (fun note => "  = note: " ++ note)
    ++ r.help.toList.map (fun help => "  = help: " ++ help)

def render (r : Report) (sources : Sources) : String :=
  String.join ((r.lines sources).map (· ++ "\n"))

/-- The report of a reader error. The surroundings are quoted only if the source
is not known. -/
def ofReadError (sources : Sources) (e : ReadError) : Report where
  code := e.kind.code
  message := e.detail
  place := e.place
  notes :=
    match sources.get? e.place.source, e.context with
    | none, some context => ["near: " ++ context]
    | _, _ => []
  help := if e.needsMore then some "the input ended before this form was closed" else none

/-- The report of a signal that nothing has caught. -/
def ofSignal (sources : Sources) (s : Signal) : Report :=
  match s.fault with
  | .unreadable e => ofReadError sources e
  | fault =>
    { code := fault.code
      message := fault.message
      place := s.origin
      notes := s.trace.map fun p => "propagated through " ++ sources.describe p
      help := none }

end Report

/-- The text of the report of a reader error. -/
def Sources.reportReadError (sources : Sources) (e : ReadError) : String :=
  (Report.ofReadError sources e).render sources

/-- The text of the report of a signal. -/
def Sources.report (sources : Sources) (s : Signal) : String :=
  (Report.ofSignal sources s).render sources

end Sexpr
