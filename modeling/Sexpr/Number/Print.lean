/-
Printed numbers.

Integers are printed in decimal digits. A finite double is printed with the
fewest digits that are read back as the same double, and so that it cannot be
taken for an integer: with a point, or with an exponent.
-/

import Sexpr.Number.Basic
import Sexpr.Decimal.Layout
import Sexpr.Decimal.Shortest

namespace Sexpr.Number

/-- Doubles from `1e-4` up to `1e16` are printed positionally. -/
def layout : Decimal.Layout where
  least := -4
  most := 15

/-- The sign bit of a double, and its other bits. -/
def signAndBits (x : Float) : Bool × Nat :=
  (Decimal.signBit ≤ x.toBits.toNat, x.toBits.toNat % Decimal.signBit)

def printFloat (x : Float) : List Char :=
  let (negative, bits) := signAndBits x
  if Decimal.infinityBits < bits then "NaN".toList
  else
    let magnitude :=
      if bits = Decimal.infinityBits then "inf".toList
      else (Decimal.shortest bits).write layout
    if negative then '-' :: magnitude else magnitude

def print : Number → String
  | .int n => String.ofList (Decimal.signed n.toInt)
  | .float x => String.ofList (printFloat x)

end Sexpr.Number
