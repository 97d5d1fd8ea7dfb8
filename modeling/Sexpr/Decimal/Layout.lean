/-
Written decimals.

A decimal is written positionally while its leading digit stands near the
point, and with an exponent otherwise. A `Layout` says how near.
-/

import Sexpr.Decimal.Basic

namespace Sexpr.Decimal

/-- The exponents of the leading digit for which a decimal is written
positionally. -/
structure Layout where
  least : Int
  most : Int

/-- The exponent of the leading digit. -/
def leading (d : Decimal) : Int :=
  d.exponent + ((Nat.toDigits 10 d.digits).length - 1 : Nat)

/-- A decimal with a point and at least one digit on either side of it. -/
def positional (d : Decimal) : List Char :=
  let ds := Nat.toDigits 10 d.digits
  if 0 ≤ d.exponent then ds ++ List.replicate d.exponent.toNat '0' ++ ['.', '0']
  else
    let places := (-d.exponent).toNat
    if places < ds.length then ds.take (ds.length - places) ++ '.' :: ds.drop (ds.length - places)
    else '0' :: '.' :: List.replicate (places - ds.length) '0' ++ ds

/-- A whole number in decimal digits, with a minus sign if it is negative. -/
def signed (n : Int) : List Char :=
  if n < 0 then '-' :: Nat.toDigits 10 n.natAbs else Nat.toDigits 10 n.natAbs

/-- A decimal with one digit before the point, and with no point if there are
no other digits. -/
def scientific (d : Decimal) : List Char :=
  match Nat.toDigits 10 d.digits with
  | [] => []
  | first :: [] => first :: 'e' :: signed d.leading
  | first :: rest => first :: '.' :: rest ++ 'e' :: signed d.leading

/-- The written form of a decimal. -/
def write (layout : Layout) (d : Decimal) : List Char :=
  if layout.least ≤ d.leading ∧ d.leading ≤ layout.most then d.positional else d.scientific

end Sexpr.Decimal
