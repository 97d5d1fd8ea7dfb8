/-
What special forms do.

A form receives its operands unevaluated, together with the `Call` that it is
part of: where the call stands and how to evaluate. Operands in a number that
fits no case are refused by arity. Forms that repeat themselves do so as often
as the fuel of the call allows.
-/

import Sexpr.Run.Basic
import Sexpr.Run.Params

namespace Sexpr

/-- Evaluation of a node in a frame, at a depth. -/
abbrev Evaluator := Node → FrameId → (depth : Nat) → Run Node

/-- The call of a special form. -/
structure Call where
  place : Place
  frame : FrameId
  depth : Nat
  limits : Limits
  /-- How often the form may repeat itself. -/
  fuel : Nat
  eval : Evaluator

namespace Call

/-- Evaluates a node in a frame, one level below the call. -/
def runIn (c : Call) (frame : FrameId) (node : Node) : Run Node :=
  c.eval node frame (c.depth + 1)

/-- Evaluates an operand. -/
def run (c : Call) (node : Node) : Run Node :=
  c.runIn c.frame node

/-- Evaluates operands in order and drops their values. -/
def runAll (c : Call) : List Node → Run Unit
  | [] => return ()
  | node :: nodes => do
    let _ ← c.run node
    c.runAll nodes

def fail {α : Type} (c : Call) (fault : Fault) : Run α :=
  Run.fail fault c.place

/-- Binds a name in the frame of the call; the value is the result. -/
def define (c : Call) (name : String) (value : Node) : Run Node := do
  Run.modifyStore (·.define c.frame name value)
  return value

/-- An operand that must be a symbol. -/
def name (c : Call) (f : Form) : Node → Run String
  | .symbol _ name => return name
  | other => c.fail (.mismatch (.operand f.name .name other.mention))

/-- A new closure in the frame of the call. -/
def closure (c : Call) (f : Form) (kind : ClosureKind) (name : String) (params body : Node) :
    Run Node := do
  let params ← Run.ofExcept c.place (Params.ofNode f.name params)
  let serial ← Run.updateStore fun s => (s.serial, { s with serial := s.serial + 1 })
  return .closure c.place ⟨serial, kind, name, params, c.frame⟩ body

/-- Binds the pairs of a binding vector in `frame`; each value sees the names
before it. -/
def bindPairs (c : Call) (frame : FrameId) : (index : Nat) → List Node → Run Unit
  | _, [] => return ()
  | index, .vector _ [.symbol _ name, value] :: pairs => do
    let value ← c.runIn frame value
    Run.modifyStore (·.define frame name value)
    c.bindPairs frame (index + 1) pairs
  | index, .vector _ [other, _] :: _ => c.fail (.mismatch (.binder other.print index))
  | index, other :: _ => c.fail (.mismatch (.pair other.print index))

/-- Evaluates what is quoted, as long as that gives something quoted and new. -/
def unwrap (c : Call) : (fuel : Nat) → Node → Run Node
  | 0, _ => throw .outOfFuel
  | fuel + 1, .quoted p inner => do
    let next ← c.run inner
    if next.same (.quoted p inner) then return next else c.unwrap fuel next
  | _ + 1, other => return other

/-- Evaluates the body over and over until it is left. -/
def iterate (c : Call) (body : List Node) : (fuel : Nat) → Run Node
  | 0 => throw .outOfFuel
  | fuel + 1 => do
    Run.tick c.limits c.place
    match ← Run.catching Signal.isBreak (c.runAll body) with
    | .inl payload => return payload
    | .inr () => c.iterate body fuel

/-- The value of the last node, or the given one if there is none. -/
def runLast (c : Call) (last : Node) : List Node → Run Node
  | [] => return last
  | node :: nodes => do
    let value ← c.run node
    c.runLast value nodes

/-- The expression of the first clause whose predicate is true. -/
def runCases (c : Call) : List Node → Run Node
  | [] => return .nil c.place
  | .vector _ [predicate, expression] :: clauses => do
    if (← c.run predicate).isTruthy then c.run expression else c.runCases clauses
  | other :: _ => c.fail (.mismatch (.clause other.print))

/-- Whether some operand is as true as `wanted`; stops at the first one. -/
def runUntil (c : Call) (wanted : Bool) : List Node → Run Node
  | [] => return .ofBool c.place !wanted
  | node :: nodes => do
    if (← c.run node).isTruthy = wanted then return .ofBool c.place wanted
    else c.runUntil wanted nodes

end Call

/-- The name of closures that are made without one. -/
def anonymous : String := "~lambda~"

/-- Carries out a special form. -/
def Form.run (f : Form) (c : Call) (operands : List Node) : Run Node :=
  match f, operands with
  | .quote, [node] => return .quoted c.place node
  | .bind, [target, value] => do
    let name ← c.name f target
    c.define name (← c.run value)
  | .bindTo, [target, value] => do
    match ← c.run target with
    | .symbol _ name | .quoted _ (.symbol _ name) => c.define name (← c.run value)
    | other => c.fail (.mismatch (.target other.mention))
  | .unquote, [node] => do
    match ← c.run node with
    | .quoted _ inner => c.run inner
    | other => c.fail (.mismatch (.operand f.name .quoted other.mention))
  | .evaluate, [node] => do c.unwrap c.fuel (← c.run node)
  | .lambda, [params, body] => c.closure f .function anonymous params body
  | .function, [target, params, body] => do
    let name ← c.name f target
    c.define name (← c.closure f .function name params body)
  | .expander, [target, params, body] => do
    let name ← c.name f target
    c.define name (← c.closure f .expander name params body)
  | .letIn, [.vector _ pairs, body] => do
    let frame ← Run.updateStore (·.push c.frame "let")
    c.bindPairs frame 0 pairs
    c.runIn frame body
  | .letIn, [other, _] => c.fail (.mismatch (.operand f.name .bindings other.mention))
  | .sequence, nodes => c.runLast (.nil c.place) nodes
  | .loop, body => c.iterate body c.fuel
  | .leaveLoop, [] => Run.raise { control := .leaveLoop none, origin := c.place }
  | .leaveLoop, node :: _ => do
    let value ← c.run node
    Run.raise { control := .leaveLoop (some value), origin := c.place }
  | .leaveCall, [] => Run.raise { control := .leaveCall (.nil c.place), origin := c.place }
  | .leaveCall, node :: _ => do
    let value ← c.run node
    Run.raise { control := .leaveCall value, origin := c.place }
  | .branch, [condition, yes] => do
    if (← c.run condition).isTruthy then c.run yes else return .nil c.place
  | .branch, [condition, yes, no] => do
    if (← c.run condition).isTruthy then c.run yes else c.run no
  | .guarded, [condition, body] => do
    if (← c.run condition).isTruthy then c.run body else return .nil c.place
  | .cases, clauses => c.runCases clauses
  | .conjunction, nodes => c.runUntil false nodes
  | .disjunction, nodes => c.runUntil true nodes
  | f, operands => c.fail (.arity f.name f.arity operands.length)

end Sexpr
