/-
Numeric literals.

A literal is an optional minus sign, digits, an optional point with digits and
an optional exponent. `Literal.read?` takes such a text apart and accepts
nothing else; `Literal.number?` gives its number, an integer when there is
neither point nor exponent. Integers beyond 64 bits and infinite doubles have no
number.
-/

import Sexpr.Number.Basic
import Sexpr.Decimal.Basic

namespace Sexpr

/-- The parts of a numeric literal. -/
structure Literal where
  negative : Bool
  whole : List Char
  /-- The digits behind the point. -/
  fraction : Option (List Char)
  /-- Whether the exponent is negative, and its digits. -/
  exponent : Option (Bool × List Char)
deriving Repr, DecidableEq

namespace Literal

/-- A minus sign, if there is one, and what follows. -/
def readSign : List Char → Bool × List Char
  | '-' :: cs => (true, cs)
  | cs => (false, cs)

/-- One or more decimal digits, and what follows. -/
def readDigits? (cs : List Char) : Option (List Char × List Char) :=
  if cs.takeWhile Char.isDigit = [] then none
  else some (cs.takeWhile Char.isDigit, cs.dropWhile Char.isDigit)

/-- The digits behind a point, if there is one, and what follows. -/
def readFraction? : List Char → Option (Option (List Char) × List Char)
  | '.' :: cs => (readDigits? cs).map fun (ds, rest) => (some ds, rest)
  | cs => some (none, cs)

/-- A sign of either kind, if there is one, and what follows. -/
def readEitherSign : List Char → Bool × List Char
  | '-' :: cs => (true, cs)
  | '+' :: cs => (false, cs)
  | cs => (false, cs)

/-- An exponent up to the end of the text, if there is one. -/
def readExponent? : List Char → Option (Option (Bool × List Char))
  | [] => some none
  | mark :: cs =>
    if mark = 'e' ∨ mark = 'E' then
      let (negative, cs) := readEitherSign cs
      match readDigits? cs with
      | some (ds, []) => some (some (negative, ds))
      | _ => none
    else none

/-- Takes apart a text that is a literal as a whole. -/
def read? (cs : List Char) : Option Literal := do
  let (negative, cs) := readSign cs
  let (whole, cs) ← readDigits? cs
  let (fraction, cs) ← readFraction? cs
  let exponent ← readExponent? cs
  return { negative, whole, fraction, exponent }

/-- The number that a row of decimal digits stands for. -/
def natOf (ds : List Char) : Nat :=
  Nat.ofDigitChars 10 ds 0

def withSign (negative : Bool) (n : Nat) : Int :=
  if negative then -n else n

/-- The magnitude of a literal. -/
def magnitude (l : Literal) : Decimal :=
  let places := l.fraction.getD []
  let shift : Int := match l.exponent with
    | some (negative, ds) => withSign negative (natOf ds)
    | none => 0
  ⟨natOf (l.whole ++ places), shift - places.length⟩

/-- The double nearest to a literal. -/
def toFloat (l : Literal) : Float :=
  l.magnitude.toFloat l.negative

def isWhole (l : Literal) : Bool :=
  l.fraction.isNone && l.exponent.isNone

/-- The number of a literal, if it is in range. -/
def number? (l : Literal) : Option Number :=
  if l.isWhole then (word? (withSign l.negative (natOf l.whole))).map .int
  else if l.toFloat.isFinite then some (.float l.toFloat)
  else none

end Literal

end Sexpr
