/-
Spellings of numbers outside programs.

Embedding programs may spell numbers more freely than literals: with a plus sign,
with a point that has digits on one side only, and with words for infinity and for
what is not a number, in capital or small letters. `Literal.ofSpelling?_of_read?`
says that every literal is such a spelling, of the same number.
-/

import Sexpr.Number.Literal

namespace Sexpr

namespace Literal

/-- A point, if there is one, with the digits behind it, and what follows. -/
def readPoint : List Char → Option (List Char) × List Char
  | '.' :: cs => (some (cs.takeWhile Char.isDigit), cs.dropWhile Char.isDigit)
  | cs => (none, cs)

/-- Takes apart a text that spells a decimal number as a whole. There is a digit
before the point or behind it. -/
def ofSpelling? (cs : List Char) : Option Literal := do
  let (negative, cs) := readEitherSign cs
  let whole := cs.takeWhile Char.isDigit
  let (fraction, cs) := readPoint (cs.dropWhile Char.isDigit)
  let exponent ← readExponent? cs
  if whole.isEmpty && (fraction.getD []).isEmpty then none
  else return { negative, whole, fraction, exponent }

/-- A sign that is followed by digits is read in the same way by both rules. -/
theorem readEitherSign_eq_readSign {cs : List Char} {digits : List Char × List Char}
    (h : readDigits? (readSign cs).2 = some digits) : readEitherSign cs = readSign cs := by
  unfold readEitherSign
  split
  · rfl
  · rename_i rest
    have plus : ('+').isDigit = false := by decide
    simp [readSign, readDigits?, plus] at h
  · rename_i notMinus _
    unfold readSign
    split
    · exact absurd rfl (notMinus _)
    · rfl

/-- Digits behind a point are read in the same way by both rules. -/
theorem readPoint_eq {cs rest : List Char} {fraction : Option (List Char)}
    (h : readFraction? cs = some (fraction, rest)) : readPoint cs = (fraction, rest) := by
  unfold readFraction? at h
  split at h
  · obtain ⟨digits, read, same⟩ := Option.map_eq_some_iff.mp h
    unfold readDigits? at read
    split at read
    · cases read
    · cases read
      exact same
  · rename_i notPoint
    cases h
    unfold readPoint
    split
    · exact absurd rfl (notPoint _)
    · rfl

/-- Every literal is a spelling, of the same number. -/
theorem ofSpelling?_of_read? {cs : List Char} {l : Literal} (h : read? cs = some l) :
    ofSpelling? cs = some l := by
  simp only [read?, Option.bind_eq_bind, Option.bind_eq_some_iff] at h
  obtain ⟨⟨whole, afterWhole⟩, readWhole, ⟨fraction, afterPoint⟩, readFraction, exponent,
    readExponent, same⟩ := h
  have sign := readEitherSign_eq_readSign readWhole
  unfold readDigits? at readWhole
  split at readWhole
  · cases readWhole
  · rename_i nonempty
    cases readWhole
    simp [ofSpelling?, sign, readPoint_eq readFraction, readExponent, nonempty]
    exact Option.some.inj same

end Literal

namespace Number

/-- Infinity with a sign. -/
def infinity (negative : Bool) : Float :=
  Float.ofBits (if negative then 0xfff0000000000000 else 0x7ff0000000000000)

/-- The double that a text spells. -/
def floatOfText? (s : String) : Option Float :=
  let (negative, word) := Literal.readEitherSign s.toList
  match String.ofList (word.map Char.toLower) with
  | "inf" | "infinity" => some (infinity negative)
  | "nan" => some (Float.ofBits 0x7ff8000000000000)
  | _ => (Literal.ofSpelling? s.toList).map Literal.toFloat

/-- The integer that a text spells. -/
def intOfText? (s : String) : Option Int :=
  let (negative, ds) := Literal.readEitherSign s.toList
  if !ds.isEmpty && ds.all Char.isDigit then some (Literal.withSign negative (Literal.natOf ds))
  else none

end Number

end Sexpr
