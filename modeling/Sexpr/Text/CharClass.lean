/-
Character classes given by ranges of code points.

Every class of the language (blanks, letters, hidden characters) is a table of
inclusive ranges; membership is one scan of the table.
-/

namespace Sexpr.Text

/-- A set of characters, listed as inclusive ranges of code points. -/
structure CharClass where
  ranges : List (Nat × Nat)

/-- Some range of the class holds the code point of `c`. -/
def CharClass.has (k : CharClass) (c : Char) : Bool :=
  k.ranges.any fun r => r.1 ≤ c.toNat && c.toNat ≤ r.2

theorem CharClass.has_iff {k : CharClass} {c : Char} :
    k.has c = true ↔ ∃ r ∈ k.ranges, r.1 ≤ c.toNat ∧ c.toNat ≤ r.2 := by
  simp [CharClass.has]

end Sexpr.Text
