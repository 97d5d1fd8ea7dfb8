/-
Signals: evaluation that ends without a value.

A signal leaves a loop, leaves a call, or reports a fault. It remembers where it
was raised and the calls that it passed through on its way out, the innermost
first.
-/

import Sexpr.Fault
import Sexpr.Node.Basic

namespace Sexpr

inductive Control where
  /-- Leave the nearest loop, perhaps with a value. -/
  | leaveLoop (payload : Option Node)
  /-- Leave the nearest call with a value. -/
  | leaveCall (payload : Node)
  | fail (fault : Fault)

structure Signal where
  control : Control
  /-- Where the signal was raised. -/
  origin : Place
  /-- The calls that it passed through. -/
  trace : List Place := []

namespace Signal

/-- A fault raised at a place. -/
def ofFault (fault : Fault) (origin : Place) : Signal where
  control := .fail fault
  origin := origin

/-- Records the call at `p`, unless it was computed, raised the signal itself or
is the latest entry already. -/
def through (s : Signal) (p : Place) : Signal :=
  if p.isComputed ∨ p = s.origin ∨ s.trace.getLast? = some p then s
  else { s with trace := s.trace ++ [p] }

@[simp] theorem control_through (s : Signal) (p : Place) : (s.through p).control = s.control := by
  unfold through
  split <;> rfl

@[simp] theorem origin_through (s : Signal) (p : Place) : (s.through p).origin = s.origin := by
  unfold through
  split <;> rfl

theorem length_trace_through_le (s : Signal) (p : Place) :
    (s.through p).trace.length ≤ s.trace.length + 1 := by
  unfold through
  split <;> simp

def isBreak (s : Signal) : Bool :=
  match s.control with
  | .leaveLoop _ => true
  | _ => false

def isReturn (s : Signal) : Bool :=
  match s.control with
  | .leaveCall _ => true
  | _ => false

def fault? (s : Signal) : Option Fault :=
  match s.control with
  | .fail fault => some fault
  | _ => none

/-- The value that the signal carries; the empty value if there is none. -/
def payload (s : Signal) : Node :=
  match s.control with
  | .leaveLoop (some node) | .leaveCall node => node
  | .leaveLoop none | .fail _ => .nil s.origin

/-- The fault that a signal is once nothing is left to catch it. -/
def fault (s : Signal) : Fault :=
  match s.control with
  | .leaveLoop _ => .strayBreak
  | .leaveCall _ => .strayReturn
  | .fail fault => fault

/-- The signal once nothing is left to catch it. -/
def escaped (s : Signal) : Signal :=
  { s with control := .fail s.fault }

@[simp] theorem fault_escaped (s : Signal) : s.escaped.fault = s.fault := rfl

@[simp] theorem escaped_escaped (s : Signal) : s.escaped.escaped = s.escaped := rfl

def describe (s : Signal) : String :=
  match s.control with
  | .leaveLoop _ => s!"break signal at {s.origin.describe}"
  | .leaveCall _ => s!"return signal at {s.origin.describe}"
  | .fail fault => s!"{fault.code}: {fault.message}"

end Signal

end Sexpr
