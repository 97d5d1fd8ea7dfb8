/-
Runs: computations on the store that may stop early.

A run works on a `World`: the store, the steps counted so far, and the output.
It ends with a result or with a `Stop`, and in either case with a world: what
was done before a stop stays done. Running out of fuel is a stop of its own, so
that it cannot be taken for a failure of the program.
-/

import Sexpr.Signal
import Sexpr.Store.Basic

namespace Sexpr

/-- Bounds on evaluation. -/
structure Limits where
  /-- How deep evaluation may nest. -/
  depth : Nat := 256
  /-- How many steps may be taken; without a budget there is no bound. -/
  budget : Option Nat := none
deriving Repr, DecidableEq

/-- What a run changes. -/
structure World where
  store : Store
  /-- The steps taken since the last reset. -/
  steps : Nat := 0
  output : String := ""

/-- Why a run ends without a result. -/
inductive Stop where
  | raised (signal : Signal)
  /-- The embedding program is asked to end, with a status. -/
  | exited (status : Int)
  | outOfFuel

abbrev Run := EStateM Stop World

/-- What a function of the embedding program answers. -/
inductive Reply where
  | value (node : Node)
  | fault (fault : Fault)
  | exit (status : Int)

/-- A function of the embedding program. -/
abbrev Host := List Node → Reply

namespace Run

variable {α : Type}

def raise (signal : Signal) : Run α :=
  throw (.raised signal)

/-- Raises a fault at a place. -/
def fail (fault : Fault) (origin : Place) : Run α :=
  raise (.ofFault fault origin)

/-- Raises the fault of a computation that has one, at a place. -/
def ofExcept (origin : Place) : Except Fault α → Run α
  | .ok a => pure a
  | .error fault => fail fault origin

/-- Changes the store. -/
def modifyStore (f : Store → Store) : Run Unit :=
  modify fun w => { w with store := f w.store }

/-- Changes the store and takes something out of the change. -/
def updateStore (f : Store → α × Store) : Run α :=
  modifyGet fun w =>
    let (a, store) := f w.store
    (a, { w with store })

def write (s : String) : Run Unit :=
  modify fun w => { w with output := w.output ++ s }

/-- Counts a step at a place; one step beyond the budget is a fault. -/
def tick (limits : Limits) (p : Place) : Run Unit := do
  modify fun w => { w with steps := w.steps + 1 }
  match limits.budget with
  | none => return ()
  | some budget => if budget < (← get).steps then fail (.budgetExhausted budget) p

/-- Records in every signal that leaves `x` that it passed through the call at `p`. -/
def traced (p : Place) (x : Run α) : Run α := fun w =>
  match x w with
  | .error (.raised signal) w => .error (.raised (signal.through p)) w
  | result => result

/-- Catches the signals that `caught` accepts and gives their payload. -/
def catching (caught : Signal → Bool) (x : Run α) : Run (Node ⊕ α) := fun w =>
  match x w with
  | .ok a w => .ok (.inr a) w
  | .error (.raised signal) w =>
    if caught signal then .ok (.inl signal.payload) w else .error (.raised signal) w
  | .error stop w => .error stop w

end Run

end Sexpr
