/-
Decimal numbers and the doubles nearest to them.

A `Decimal` is `digits * 10 ^ exponent`. `Decimal.bits` rounds it to a double;
powers of ten that are far outside the range of doubles are never built.
-/

import Sexpr.Decimal.Binary

namespace Sexpr

/-- The number `digits * 10 ^ exponent`. -/
structure Decimal where
  digits : Nat
  exponent : Int
deriving Repr, DecidableEq

namespace Decimal

/-- A number from `10 ^ 310` on is infinite as a double. -/
def mostExponent : Int := 310

/-- A number below `10 ^ (-330)` is zero as a double; `2 ^ (log2 n + 1)` bounds
the digits `n` from above. -/
def vanishes (d : Decimal) : Bool :=
  d.exponent < -330 - (d.digits.log2 + 1 : Nat)

/-- The bits of the double nearest to a decimal. -/
def bits (d : Decimal) : Nat :=
  if d.digits = 0 ∨ d.vanishes then 0
  else if mostExponent < d.exponent then infinityBits
  else nearestBits (d.digits * power 10 d.exponent) (power 10 (-d.exponent))

/-- The sign bit of a double. -/
def signBit : Nat := 0x8000000000000000

/-- The double nearest to a decimal, with a sign. -/
def toFloat (negative : Bool) (d : Decimal) : Float :=
  Float.ofBits (d.bits + if negative then signBit else 0).toUInt64

end Decimal

end Sexpr
