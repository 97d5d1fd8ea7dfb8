/-
Nodes: programs and values, which are the same thing.

A node carries the place that it comes from. Numbers, texts, atoms, quoted
nodes and callables are values; symbols stand for bindings, calls are evaluated
by applying their head, and vectors element by element. A closure refers to the
frame that it was made in by number, and callables that were made separately are
told apart by a serial number.
-/

import Sexpr.Place
import Sexpr.Params
import Sexpr.Number.Basic
import Sexpr.Operation.Basic
import Sexpr.Form.Basic

namespace Sexpr

/-- The number of a frame in a store. -/
abbrev FrameId := Nat

/-- How a closure receives its operands. -/
inductive ClosureKind where
  /-- Operands are evaluated before the call. -/
  | function
  /-- Operands are passed quoted, and the result is evaluated where the call stands. -/
  | expander
deriving Repr, DecidableEq

/-- All of a closure but its body. -/
structure Lambda where
  serial : Nat
  kind : ClosureKind
  name : String
  params : Params
  /-- The frame that the closure was made in. -/
  frame : FrameId
deriving Repr, DecidableEq

/-- What a primitive computes with: an operation of the language, or a function
of the embedding program, by number. -/
inductive Routine where
  | operation (op : Operation)
  | host (index : Nat)
deriving Repr, DecidableEq

/-- A callable without a body, bound under a name. -/
structure Primitive where
  serial : Nat
  name : String
  arity : Arity
  routine : Routine
deriving Repr, DecidableEq

inductive Node where
  | number (place : Place) (value : Number)
  | symbol (place : Place) (name : String)
  | text (place : Place) (value : String)
  /-- A constant that is named by itself; truth values and the empty value are atoms. -/
  | atom (place : Place) (name : String)
  /-- The first item is applied to the others. -/
  | call (place : Place) (items : List Node)
  | vector (place : Place) (items : List Node)
  | quoted (place : Place) (inner : Node)
  | closure (place : Place) (lambda : Lambda) (body : Node)
  | primitive (place : Place) (value : Primitive)
  | form (place : Place) (value : Form)

namespace Node

def place : Node → Place
  | .number p _ | .symbol p _ | .text p _ | .atom p _ | .call p _ | .vector p _ | .quoted p _
  | .closure p _ _ | .primitive p _ | .form p _ => p

/-- The same node at another place; what it contains stays where it is. -/
def moveTo (p : Place) : Node → Node
  | .number _ n => .number p n
  | .symbol _ s => .symbol p s
  | .text _ s => .text p s
  | .atom _ s => .atom p s
  | .call _ items => .call p items
  | .vector _ items => .vector p items
  | .quoted _ inner => .quoted p inner
  | .closure _ l body => .closure p l body
  | .primitive _ v => .primitive p v
  | .form _ f => .form p f

@[simp] theorem place_moveTo (p : Place) (n : Node) : (n.moveTo p).place = p := by
  cases n <;> rfl

/-- The empty value. -/
def nil (p : Place) : Node :=
  .atom p "NIL"

instance : Inhabited Node := ⟨nil .computed⟩

/-- A truth value. -/
def ofBool (p : Place) (b : Bool) : Node :=
  .atom p (if b then "TRUE" else "FALSE")

/-- Wraps a node in one more quote, at the same place. -/
def quote (n : Node) : Node :=
  .quoted n.place n

/-- The empty text, zero, the empty vector, `:FALSE` and `:NIL` count as false. -/
def isTruthy : Node → Bool
  | .text _ s => !s.isEmpty
  | .number _ n => !n.isZero
  | .vector _ items => !items.isEmpty
  | .atom _ name => name != "FALSE" && name != "NIL"
  | _ => true

@[simp] theorem isTruthy_ofBool (p : Place) (b : Bool) : (ofBool p b).isTruthy = b := by
  cases b <;> rfl

def symbol? : Node → Option String
  | .symbol _ name => some name
  | _ => none

/-- The kind of a node, as messages name it. -/
def kind : Node → String
  | .number _ _ => "numeric"
  | .symbol _ _ => "symbol"
  | .text _ _ => "string"
  | .atom _ _ => "atom"
  | .call _ _ => "s-expression"
  | .vector _ _ => "vector"
  | .quoted _ _ => "quoted"
  | .closure _ l _ =>
    match l.kind with
    | .function => "function"
    | .expander => "macro"
  | .primitive _ _ => "primordial"
  | .form _ _ => "special form"

/-- The node is a primitive or a special form. -/
def isBuiltin : Node → Bool
  | .primitive _ _ | .form _ _ => true
  | _ => false

mutual

/-- Equality of nodes, whatever their places. Closures and primitives are equal
when they were made at once, special forms when they are the same form. -/
def same : Node → Node → Bool
  | .number _ a, .number _ b => a == b
  | .symbol _ a, .symbol _ b => a == b
  | .text _ a, .text _ b => a == b
  | .atom _ a, .atom _ b => a == b
  | .call _ as, .call _ bs => sameAll as bs
  | .vector _ as, .vector _ bs => sameAll as bs
  | .quoted _ a, .quoted _ b => same a b
  | .closure _ a _, .closure _ b _ => a.serial == b.serial
  | .primitive _ a, .primitive _ b => a.name == b.name && a.serial == b.serial
  | .form _ a, .form _ b => a == b
  | _, _ => false

/-- Equality of nodes one by one. -/
def sameAll : List Node → List Node → Bool
  | [], [] => true
  | a :: as, b :: bs => same a b && sameAll as bs
  | _, _ => false

end

instance : BEq Node := ⟨same⟩

end Node

end Sexpr
