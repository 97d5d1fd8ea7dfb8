/-
Magnitudes of binary floating-point numbers.

A finite double of 64 bits has a magnitude `mantissa * 2 ^ exponent`, which
`Dyadic.ofBits` reads off its bits. `nearestBits` goes the other way: it gives
the bits of the double nearest to a fraction, where a tie goes to the even
mantissa and everything too large becomes infinity. All arithmetic is exact, on
natural numbers, and the sign bit is left to the caller.
-/

namespace Sexpr.Decimal

/-- The magnitude `mantissa * 2 ^ exponent`. -/
structure Dyadic where
  mantissa : Nat
  exponent : Int
deriving Repr, DecidableEq

/-- The bits of positive infinity, just above those of the largest finite double. -/
def infinityBits : Nat := 0x7ff0000000000000

/-- The implicit leading bit of a mantissa; also the distance of the bits of two
doubles that lie a factor of two apart. -/
def leadingBit : Nat := 0x10000000000000

/-- `base ^ e`, or one if `e` is negative. Multiplying the numerator of a fraction
by `power base e` and its denominator by `power base (-e)` scales it by `base ^ e`. -/
def power (base : Nat) (e : Int) : Nat :=
  Nat.pow base e.toNat

/-- The exponent of the finest grid: the distance of neighbouring small doubles. -/
def leastExponent : Int := -1074

/-- The magnitude that the bits of a finite double stand for, with the sign bit
cleared. The smallest magnitudes have no implicit leading bit. -/
def Dyadic.ofBits (bits : Nat) : Dyadic :=
  if bits < leadingBit then ⟨bits, leastExponent⟩
  else ⟨leadingBit + bits % leadingBit, leastExponent + (bits / leadingBit - 1 : Nat)⟩

/-- A magnitude as a fraction of natural numbers. -/
def Dyadic.fraction (x : Dyadic) : Nat × Nat :=
  (x.mantissa * power 2 x.exponent, power 2 (-x.exponent))

/-- The quotient rounded to the nearest whole number, a tie to the even one. -/
def roundDiv (n d : Nat) : Nat :=
  let q := n / d
  let r := n % d
  if 2 * r < d then q
  else if d < 2 * r then q + 1
  else q + q % 2

/-- The whole multiples of `2 ^ exponent` in a fraction, rounded. -/
def roundAt (num den : Nat) (exponent : Int) : Nat :=
  roundDiv (num * power 2 (-exponent)) (den * power 2 exponent)

/-- The grid on which a fraction has a mantissa of 53 bits, or the finest one. -/
def gridExponent (num den : Nat) : Int :=
  let e := max leastExponent ((num.log2 : Int) - den.log2 - 53)
  if num * power 2 (-e) < den * power 2 e * (2 * leadingBit) then e else e + 1

/-- The bits of the double nearest to `num / den`. On the grid with index `k` a
mantissa `m` has the bits `k * leadingBit + m`, and a mantissa that rounds up to
the next power of two carries into the index. -/
def nearestBits (num den : Nat) : Nat :=
  if num = 0 then 0
  else
    let e := gridExponent num den
    min infinityBits ((e - leastExponent).toNat * leadingBit + roundAt num den e)

end Sexpr.Decimal
