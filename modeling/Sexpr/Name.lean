/-
Names: the spelling of symbols and atoms.

A symbol consists of symbol characters and does not begin like a number, that
is, neither with an ASCII digit nor with a minus sign before one. The name of an
atom is any nonempty row of symbol characters.
-/

import Sexpr.Text.Letter

namespace Sexpr

/-- The characters besides letters and digits that names may hold. -/
def nameMarks : List Char :=
  "+-*/\\&<=>?!_$%~".toList

def isNameChar (c : Char) : Bool :=
  Text.isAlphanumeric c || nameMarks.contains c

/-- The text begins as a number does. -/
def startsLikeNumber : List Char → Bool
  | '-' :: c :: _ => c.isDigit
  | c :: _ => c.isDigit
  | [] => false

/-- The text is a row of one or more symbol characters. -/
def isAtomName (cs : List Char) : Bool :=
  !cs.isEmpty && cs.all isNameChar

/-- The text is the name of a symbol. -/
def isSymbolName (cs : List Char) : Bool :=
  isAtomName cs && !startsLikeNumber cs

end Sexpr
