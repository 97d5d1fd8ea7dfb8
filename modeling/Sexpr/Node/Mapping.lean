/-
Mappings: vectors whose items pair up as atom keys and values.

The pairs are read in order. An odd number of items, or a key that is no atom,
makes the vector no mapping; a repeated key is a fault, unless one of these came
first.
-/

import Sexpr.Fault
import Sexpr.Node.Basic
import Sexpr.Table

namespace Sexpr.Node

/-- Reads pairs of keys and values; `seen` lists the keys that came before. -/
def pairsFrom (seen : List String) : List Node → Except Fault (Option (Table Node))
  | [] => .ok (some [])
  | .atom _ key :: value :: rest =>
    if key ∈ seen then .error (.duplicateKey key)
    else
      match pairsFrom (key :: seen) rest with
      | .error fault => .error fault
      | .ok none => .ok none
      | .ok (some pairs) => .ok (some ((key, value) :: pairs))
  | _ => .ok none

/-- A pair whose key is new is read in front of those behind it. -/
theorem pairsFrom_cons (seen : List String) (p : Place) (key : String) (value : Node)
    (rest : List Node) :
    pairsFrom seen (.atom p key :: value :: rest) =
      if key ∈ seen then .error (.duplicateKey key)
      else Option.map ((key, value) :: ·) <$> pairsFrom (key :: seen) rest := by
  rw [pairsFrom]
  split
  · rfl
  · rcases pairsFrom (key :: seen) rest with fault | _ | pairs <;> rfl

/-- The keys and values of a mapping, or `none` if the items are no mapping. -/
def pairs? (items : List Node) : Except Fault (Option (Table Node)) :=
  if items.length % 2 = 1 then .ok none else pairsFrom [] items

end Sexpr.Node
