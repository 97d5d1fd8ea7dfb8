/-
Parameter vectors and their arguments.

A parameter vector lists different symbols; the marker `&` may stand before the
last one, which then takes all further arguments. `Store.enter` makes the frame
of a call, in which every parameter is bound.
-/

import Sexpr.Operation.Value
import Sexpr.Store.Basic

namespace Sexpr

namespace Params

/-- A parameter that does not occur among `names` yet. -/
def fresh (names : List String) (name : String) : Except Fault String :=
  if name ∈ names then .error (.failure (.duplicateParameter name)) else .ok name

/-- The parameter behind the marker, which must be the last one. -/
def readRest (names : List String) : List Node → Except Fault Params
  | [.symbol _ name] =>
    if name = restMarker then .error (.failure .restParameter)
    else do return ⟨names, some (← fresh names name)⟩
  | _ => .error (.failure .restParameter)

/-- Reads parameters; `names` are those that came before. -/
def readFrom (names : List String) : List Node → Except Fault Params
  | [] => .ok ⟨names, none⟩
  | .symbol _ name :: items =>
    if name = restMarker then readRest names items
    else do readFrom (names ++ [← fresh names name]) items
  | other :: _ => .error (.mismatch (.parameter other.mention))

/-- Reads the parameter vector of the form `callee`. -/
def ofNode (callee : String) : Node → Except Fault Params
  | .vector _ items => readFrom [] items
  | other => .error (.mismatch (.operand callee .params other.mention))

/-- Every parameter with its argument; further arguments form a vector at `p`. -/
def bindings (params : Params) (p : Place) (args : List Node) : Bindings :=
  let positional := params.names.zip args
  match params.rest with
  | some rest => positional ++ [(rest, .vector p (args.drop params.names.length))]
  | none => positional

end Params

/-- Binds several names in a frame, one after the other. -/
def Store.defineAll (s : Store) (id : FrameId) (bindings : Bindings) : Store :=
  bindings.foldl (fun s (name, node) => s.define id name node) s

/-- Makes the frame of a call at `p`, below the frame of the closure. -/
def Store.enter (s : Store) (l : Lambda) (p : Place) (args : List Node) : FrameId × Store :=
  let (id, s) := s.push l.frame l.name
  (id, s.defineAll id (l.params.bindings p args))

end Sexpr
