/-
The shortest decimal of a double.

Among all decimals that are read as a given double, `shortest` picks one on the
coarsest grid of powers of ten; of two neighbours on that grid the nearer one,
and the upper one when both are equally near. Every candidate is tested by
reading it back. The finest grid contains every double exactly, so the search
ends there at the latest.
-/

import Sexpr.Decimal.Basic

namespace Sexpr.Decimal

/-- The magnitude of `bits`, as a fraction in units of `10 ^ step`. -/
def unitsOf (bits : Nat) (step : Int) : Nat × Nat :=
  let (num, den) := (Dyadic.ofBits bits).fraction
  (num * power 10 (-step), den * power 10 step)

/-- The neighbour on the grid `10 ^ step` that is read as `bits`, if there is one. -/
def onGrid? (bits : Nat) (step : Int) : Option Decimal :=
  let (n, d) := unitsOf bits step
  let below : Decimal := ⟨n / d, step⟩
  let above : Decimal := ⟨n / d + 1, step⟩
  if below.bits = bits then
    if above.bits = bits ∧ d ≤ 2 * (n % d) then some above else some below
  else if above.bits = bits then some above
  else none

theorem bits_of_onGrid? {bits : Nat} {step : Int} {d : Decimal} (h : onGrid? bits step = some d) :
    d.bits = bits := by
  unfold onGrid? at h
  grind

/-- The grid of the power of ten with the index `k`, counted from the finest. -/
def gridStep (k : Nat) : Int :=
  leastExponent + k

/-- Searches the grids from index `k` down to the finest. -/
def searchFrom (bits : Nat) : Nat → Decimal
  | 0 =>
    let (n, d) := unitsOf bits (gridStep 0)
    ⟨n / d, gridStep 0⟩
  | k + 1 => (onGrid? bits (gridStep (k + 1))).getD (searchFrom bits k)

/-- The index of a grid whose step exceeds the magnitude of `bits`: a magnitude
below `2 ^ b` is below `10 ^ (b * 0.30103 + 1)`. -/
def coarsest (bits : Nat) : Nat :=
  let x := Dyadic.ofBits bits
  let b := x.mantissa.log2 + 1 + x.exponent
  (b * 30103 / 100000 + 1 - leastExponent).toNat

/-- The shortest decimal that is read as the double with these bits. -/
def shortest (bits : Nat) : Decimal :=
  if bits = 0 then ⟨0, 0⟩ else searchFrom bits (coarsest bits)

end Sexpr.Decimal
