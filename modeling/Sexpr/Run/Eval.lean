/-
Evaluation.

Symbols are looked up, vectors are evaluated item by item, calls evaluate their
head and apply it, and all other nodes are values already. An expander receives
its operands quoted, and what it returns is evaluated where the call stands.

`Interpreter.eval` is fuelled: `step` says what evaluating one node means, given
an evaluator for the nodes below it, and the fuel bounds how often steps nest and
forms repeat. More fuel never changes an answer.
-/

import Sexpr.Run.Form

namespace Sexpr

/-- All that evaluation depends on besides the world. -/
structure Interpreter where
  limits : Limits := {}
  /-- The functions of the embedding program, by number. -/
  hosts : Array Host := #[]

namespace Interpreter

/-- Applies what a primitive computes with, at a place. -/
def perform (i : Interpreter) (p : Primitive) (args : List Node) (place : Place) : Run Node :=
  match p.routine with
  | .operation op => do
    let node ← Run.ofExcept place (op.value args)
    Run.write (op.echo args)
    return node
  | .host index =>
    match i.hosts[index]? with
    | none => Run.fail (.notCallable p.name) place
    | some host =>
      match host args with
      | .value node => return node
      | .fault fault => Run.fail fault place
      | .exit status => throw (.exited status)

/-- Evaluates nodes from left to right. -/
def evalAll (eval : Evaluator) (frame : FrameId) (depth : Nat) (nodes : List Node) :
    Run (List Node) :=
  nodes.mapM fun node => eval node frame depth

/-- Calls a closure: evaluates its body in a new frame, if the arity accepts the
arguments. A signal to leave the call ends here. -/
def enter (eval : Evaluator) (l : Lambda) (body : Node) (args : List Node) (place : Place)
    (depth : Nat) : Run Node := do
  Run.ofExcept place (l.params.arity.check l.name args.length)
  let frame ← Run.updateStore (·.enter l place args)
  match ← Run.catching Signal.isReturn (eval body frame (depth + 1)) with
  | .inl payload => return payload
  | .inr value => return value

/-- Applies a head that has been evaluated. -/
def apply (i : Interpreter) (fuel : Nat) (eval : Evaluator) (place : Place) (frame : FrameId)
    (depth : Nat) (head : Node) (callee : Node) (args : List Node) : Run Node :=
  match callee with
  | .form _ f => do
    Run.ofExcept place (f.arity.check f.name args.length)
    f.run ⟨place, frame, depth, i.limits, fuel, eval⟩ args
  | .closure _ l body => do
    match l.kind with
    | .function => enter eval l body (← evalAll eval frame (depth + 1) args) place depth
    | .expander =>
      let expansion ← enter eval l body (args.map .quote) place depth
      eval expansion frame (depth + 1)
  | .primitive _ p => do
    let values ← evalAll eval frame (depth + 1) args
    Run.ofExcept place (p.arity.check p.name values.length)
    return (← i.perform p values place).moveTo place
  | _ => Run.fail (.notCallable head.print) head.place

/-- Evaluates one node, given an evaluator for the nodes below it. -/
def step (i : Interpreter) (fuel : Nat) (eval : Evaluator) : Evaluator :=
  fun node frame depth => do
    if i.limits.depth ≤ depth then Run.fail (.depthExceeded i.limits.depth) node.place
    else
      Run.tick i.limits node.place
      match node with
      | .symbol place name => Run.ofExcept place ((← get).store.lookup frame name)
      | .vector place nodes => return .vector place (← evalAll eval frame (depth + 1) nodes)
      | .call place [] => Run.fail (.mismatch .emptyCall) place
      | .call place (head :: args) => Run.traced place do
        let callee ← eval head frame (depth + 1)
        i.apply fuel eval place frame depth head callee args
      | value => return value

/-- Evaluates a node in a frame, at a depth. -/
def evalAt (i : Interpreter) : (fuel : Nat) → Evaluator
  | 0 => fun _ _ _ => throw .outOfFuel
  | fuel + 1 => i.step fuel (i.evalAt fuel)

/-- Evaluates a node in a frame. -/
def eval (i : Interpreter) (fuel : Nat) (frame : FrameId) (node : Node) : Run Node :=
  i.evalAt fuel node frame 0

/-- The expander that a call is made to by name, if it is one. -/
def expander? (store : Store) (frame : FrameId) : Node → Option (Lambda × Node)
  | .symbol _ name =>
    match store.find? frame name with
    | some (.closure _ l body) => if l.kind = .expander then some (l, body) else none
    | _ => none
  | _ => none

/-- Expands the call of an expander once and does not evaluate the expansion. Any
other node stays as it is. -/
def expand (i : Interpreter) (fuel : Nat) (frame : FrameId) (node : Node) : Run Node := do
  match node with
  | .call place (head :: args) =>
    match expander? (← get).store frame head with
    | some (l, body) => Run.traced place (enter (i.evalAt fuel) l body (args.map .quote) place 0)
    | none => return node
  | _ => return node

/-- Carries out a special form directly, at a depth, without checking the number
of its operands first. -/
def runForm (i : Interpreter) (fuel : Nat) (frame : FrameId) (depth : Nat) (f : Form)
    (place : Place) (operands : List Node) : Run Node :=
  f.run ⟨place, frame, depth, i.limits, fuel, i.evalAt fuel⟩ operands

end Interpreter

end Sexpr
