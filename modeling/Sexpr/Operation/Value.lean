/-
What operations compute.

`Operation.value` maps arguments to a node or a fault. An argument that is missing
is refused by arity once it is needed, and those beyond the ones that an operation
works on are not looked at: calls check the arity beforehand. The node is computed,
so it has no place of its own, whatever it contains. `Operation.echo` is what a
successful call writes to the output.
-/

import Sexpr.Node.Mapping
import Sexpr.Node.Print
import Sexpr.Operation.Basic

namespace Sexpr

def Node.mention (n : Node) : Mention :=
  ⟨n.kind, n.print⟩

namespace Operation

/-- The fault of an operand of the wrong kind. -/
def refuse {α : Type} (op : Operation) (required : Requirement) (given : Node) : Except Fault α :=
  .error (.mismatch (.operand op.name required given.mention))

def fail {α : Type} (cause : Failure) : Except Fault α :=
  .error (.failure cause)

/-! ### Operands -/

/-- The argument with a given index, counted from zero. -/
def argument (op : Operation) (args : List Node) (index : Nat) : Except Fault Node :=
  match args[index]? with
  | some node => .ok node
  | none => .error (.arity op.name op.arity args.length)

theorem argument_of_lt {op : Operation} {args : List Node} {index : Nat}
    (h : index < args.length) : op.argument args index = .ok args[index] := by
  simp [argument, h]

def number (op : Operation) : Node → Except Fault Number
  | .number _ n => .ok n
  | other => op.refuse .number other

def integer (op : Operation) : Node → Except Fault Int
  | .number _ (.int n) => .ok n.toInt
  | .number p (.float x) => op.refuse .integer (.number p (.float x))
  | other => op.refuse .number other

def text (op : Operation) : Node → Except Fault String
  | .text _ s => .ok s
  | other => op.refuse .text other

def atom (op : Operation) : Node → Except Fault String
  | .atom _ name => .ok name
  | other => op.refuse .atom other

def vector (op : Operation) : Node → Except Fault (List Node)
  | .vector _ items => .ok items
  | other => op.refuse .vector other

/-- The pairs of an operand that must be a mapping. -/
def mapping (op : Operation) (n : Node) : Except Fault (Table Node) := do
  match ← Node.pairs? (← op.vector n) with
  | some pairs => return pairs
  | none => fail (.notMapping op.name)

/-- The position that an index names in a vector of length `len`; a negative
index counts from the end. -/
def position (op : Operation) (len : Nat) (n : Node) : Except Fault Nat := do
  let index ← op.integer n
  let resolved := if index < 0 then index + len else index
  if 0 ≤ resolved ∧ resolved < len then return resolved.toNat
  else fail (.outOfRange op.name index)

/-- A bound of a slice, moved into the vector; a negative one counts from the end. -/
def clamp (len : Nat) (bound : Int) : Nat :=
  (min (len : Int) (if bound < 0 then bound + len else bound)).toNat

/-! ### Results -/

def arithmetic (r : Except ArithmeticFault Number) : Except Fault Number :=
  r.mapError fun fault => .failure (.arithmetic fault)

/-- Combines the arguments from left to right, starting from a neutral number. -/
def accumulate (op : Operation) (combine : Number → Number → Except ArithmeticFault Number)
    (neutral : Number) (args : List Node) : Except Fault Number :=
  args.foldlM (fun acc arg => do arithmetic (combine acc (← op.number arg))) neutral

def sum (op : Operation) : List Node → Except Fault Number :=
  op.accumulate Number.add (.int 0)

def product (op : Operation) : List Node → Except Fault Number :=
  op.accumulate Number.mul (.int 1)

/-- The order of two numbers or of two texts; texts are ordered by code points. -/
def order (op : Operation) : Node → Node → Except Fault Ordering
  | .number _ x, .number _ y =>
    match x.compare? y with
    | some ordering => .ok ordering
    | none => fail (.incomparable op.name)
  | .text _ x, .text _ y => .ok (compare x y)
  | .number _ _, other => op.refuse .comparable other
  | .text _ _, other => op.refuse .comparable other
  | other, _ => op.refuse .comparable other

/-- Every `step`-th item, after the first `skip` items. -/
def stride {α : Type} (step : Nat) : (skip : Nat) → List α → List α
  | _, [] => []
  | 0, x :: xs => x :: stride step (step - 1) xs
  | skip + 1, _ :: xs => stride step skip xs

/-- The items from `start` up to `stop`, every `step`-th of them. -/
def cut {α : Type} (start stop step : Nat) (items : List α) : List α :=
  stride step 0 ((items.drop start).take (stop - start))

def positiveStep (step : Int) : Except Fault Nat :=
  if 0 < step then .ok step.toNat else fail .step

/-- Puts a value under a key: in place of the old one, or at the end. -/
def put (key : String) (keyNode value : Node) (pairs : Table Node) : List Node :=
  let kept := pairs.flatMap fun (name, node) =>
    [.atom .computed name, if name = key then value else node]
  if pairs.any (·.1 = key) then kept else kept ++ [keyNode, value]

def numeric (n : Number) : Node :=
  .number .computed n

def truthValue (b : Bool) : Node :=
  .ofBool .computed b

def row (ns : List Node) : Node :=
  .vector .computed ns

/-- The order of the first two arguments passes a test. -/
def ordered (op : Operation) (test : Ordering → Bool) (args : List Node) : Except Fault Node := do
  return truthValue (test (← op.order (← op.argument args 0) (← op.argument args 1)))

/-- The result of an operation. -/
def value (op : Operation) (args : List Node) : Except Fault Node := do
  match op with
  | .add => return numeric (← op.sum args)
  | .sub =>
    let first ← op.argument args 0
    let subtrahend ← op.sum (args.drop 1)
    return numeric (← arithmetic ((← op.number first).sub subtrahend))
  | .mul => return numeric (← op.product args)
  | .div =>
    let first ← op.argument args 0
    let divisor ← op.product (args.drop 1)
    return numeric (← arithmetic ((← op.number first).div divisor))
  | .equal => return truthValue ((← op.argument args 0).same (← op.argument args 1))
  | .unequal => return truthValue !((← op.argument args 0).same (← op.argument args 1))
  | .greater => op.ordered (· == .gt) args
  | .less => op.ordered (· == .lt) args
  | .greaterEqual => op.ordered (· != .lt) args
  | .lessEqual => op.ordered (· != .gt) args
  | .truth => return truthValue (← op.argument args 0).isTruthy
  | .negation => return truthValue !(← op.argument args 0).isTruthy
  | .concat => return .text .computed (String.join (← args.mapM op.text))
  | .print => return (← op.argument args 0).moveTo .computed
  | .putLine => return .text .computed (← op.text (← op.argument args 0))
  | .merge => return row (← args.mapM op.vector).flatten
  | .slice =>
    let ns ← op.vector (← op.argument args 0)
    let start := clamp ns.length (← op.integer (← op.argument args 1))
    let stop := clamp ns.length (← op.integer (← op.argument args 2))
    match args[3]? with
    | none => return row (cut start stop 1 ns)
    | some step => return row (cut start stop (← positiveStep (← op.integer step)) ns)
  | .index =>
    let ns ← op.vector (← op.argument args 1)
    let i ← op.position ns.length (← op.argument args 0)
    return (ns.getD i (.nil .computed)).moveTo .computed
  | .remove =>
    let ns ← op.vector (← op.argument args 1)
    return row (ns.eraseIdx (← op.position ns.length (← op.argument args 0)))
  | .length =>
    match ← op.argument args 0 with
    | .vector _ ns => return numeric (.int (Int64.ofNat ns.length))
    | .text _ s => return numeric (.int (Int64.ofNat s.length))
    | other => op.refuse .vectorOrText other
  | .cons =>
    let ns ← op.vector (← op.argument args 1)
    return row ((← op.argument args 0) :: ns)
  | .snoc =>
    let ns ← op.vector (← op.argument args 0)
    return row (ns ++ [← op.argument args 1])
  | .isMap => return truthValue (← Node.pairs? (← op.vector (← op.argument args 0))).isSome
  | .mapHas =>
    let pairs ← op.mapping (← op.argument args 0)
    let key ← op.atom (← op.argument args 1)
    return truthValue (pairs.any (·.1 = key))
  | .mapGet =>
    let pairs ← op.mapping (← op.argument args 0)
    let key ← op.atom (← op.argument args 1)
    match pairs.lookup key with
    | some node => return node.moveTo .computed
    | none => fail (.missingKey key)
  | .mapPut =>
    let pairs ← op.mapping (← op.argument args 0)
    let keyNode ← op.argument args 1
    let key ← op.atom keyNode
    return row (put key keyNode (← op.argument args 2) pairs)

/-- What a successful call writes. -/
def echo : Operation → List Node → String
  | .print, a :: _ => a.print ++ "\n"
  | .putLine, .text _ s :: _ => s ++ "\n"
  | _, _ => ""

end Operation

end Sexpr
