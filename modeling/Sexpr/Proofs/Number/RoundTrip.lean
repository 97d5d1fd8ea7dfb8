/-
Printed numbers are literals of themselves.

Every way of writing a decimal gives a literal whose magnitude is read like the
decimal (`Decimal.spells_write`). With the shortest decimal of a double this makes
`Number.spells_print`: an integer, or a finite double, is printed as a literal with
that very number. `Number.isFinite_of_number?` is the converse for doubles, no
literal stands for one that is not finite.
-/

import Sexpr.Number.Print
import Sexpr.Proofs.Decimal.Shortest
import Sexpr.Proofs.Node.Data
import Sexpr.Proofs.Number.Bits
import Sexpr.Proofs.Number.Literal

namespace Sexpr

/-! ### Rows of digits -/

namespace Literal

theorem isDigits_toDigits (n : Nat) : IsDigits (Nat.toDigits 10 n) :=
  ⟨Nat.toDigits_ne_nil, fun _ mem => Nat.isDigit_of_mem_toDigits (by decide) (by decide) mem⟩

theorem isDigit_of_mem_zeros {k : Nat} {c : Char} (h : c ∈ List.replicate k '0') :
    c.isDigit = true := by
  rw [List.eq_of_mem_replicate h]
  decide

theorem isDigits_append {ds es : List Char} (nonempty : ds ≠ [] ∨ es ≠ [])
    (hd : ∀ c ∈ ds, c.isDigit = true) (he : ∀ c ∈ es, c.isDigit = true) : IsDigits (ds ++ es) := by
  constructor
  · intro empty
    obtain ⟨noDs, noEs⟩ := List.append_eq_nil_iff.mp empty
    exact nonempty.elim (· noDs) (· noEs)
  · intro c mem
    exact (List.mem_append.mp mem).elim (hd c) (he c)

theorem isDigits_of_subset {ds es : List Char} (h : IsDigits ds) (nonempty : es ≠ [])
    (sub : es ⊆ ds) : IsDigits es :=
  ⟨nonempty, fun c mem => h.2 c (sub mem)⟩

theorem natOf_toDigits (n : Nat) : natOf (Nat.toDigits 10 n) = n :=
  Nat.ofDigitChars_ten_toDigits

theorem natOf_append_zeros (ds : List Char) (k : Nat) :
    natOf (ds ++ List.replicate k '0') = natOf ds * 10 ^ k := by
  rw [natOf, Nat.ofDigitChars_append, Nat.ofDigitChars_replicate_zero, Nat.mul_comm]
  rfl

theorem natOf_zeros_append (ds : List Char) (k : Nat) :
    natOf (List.replicate k '0' ++ ds) = natOf ds := by
  rw [natOf, Nat.ofDigitChars_append, Nat.ofDigitChars_replicate_zero, Nat.mul_zero]
  rfl

/-- A whole number is written as a sign and digits. -/
theorem signed_eq (n : Int) :
    Decimal.signed n = minus (decide (n < 0)) ++ Nat.toDigits 10 n.natAbs := by
  unfold Decimal.signed
  split <;> rename_i negative <;> simp [minus, negative]

theorem withSign_natAbs (n : Int) : withSign (decide (n < 0)) n.natAbs = n := by
  unfold withSign
  split <;> rename_i negative <;> simp at negative <;> omega

/-- A written whole number is the exponent behind a mark. -/
theorem spellsExponent_signed (n : Int) :
    SpellsExponent ('e' :: Decimal.signed n) (some (decide (n < 0), Nat.toDigits 10 n.natAbs)) := by
  rw [signed_eq]
  refine .present (.inl rfl) ?_ (isDigits_toDigits _)
  cases decide (n < 0) with
  | true => exact .minus
  | false => exact .absent

end Literal

/-! ### Written decimals -/

namespace Decimal

open Literal

/-- A text is that of a literal with a point or an exponent, of either sign, that
is read like the decimal. -/
def Writes (text : List Char) (d : Decimal) : Prop :=
  ∀ negative, ∃ l, Spells (minus negative ++ text) l ∧ l.negative = negative ∧
    l.isWhole = false ∧ l.magnitude.bits = d.bits

/-- The digits of a decimal may be split by a point anywhere. -/
theorem writes_point {whole places : List Char} {d : Decimal} (before : IsDigits whole)
    (behind : IsDigits places) (digits : natOf (whole ++ places) = d.digits)
    (exponent : d.exponent = -places.length) : Writes (whole ++ '.' :: places) d := by
  intro negative
  refine ⟨⟨negative, whole, some places, none⟩, ?_, rfl, rfl, ?_⟩
  · have spelled := @Spells.parts negative _ _ _ _ _ before (.present behind) .absent
    rwa [List.append_nil] at spelled
  · congr 1
    cases d
    simp_all [magnitude]

/-- A decimal with one digit before the point, and the rest moved by an exponent. -/
theorem writes_exponent {first : Char} {point : List Char} {places : Option (List Char)}
    {d : Decimal} {e : Int} (before : IsDigits [first]) (behind : SpellsFraction point places)
    (digits : natOf (first :: places.getD []) = d.digits)
    (exponent : d.exponent = e - (places.getD []).length) :
    Writes (first :: (point ++ 'e' :: signed e)) d := by
  intro negative
  have spelled := @Spells.parts negative _ _ _ _ _ before behind (spellsExponent_signed e)
  refine ⟨_, spelled, rfl, by simp [isWhole], ?_⟩
  congr 1
  cases d
  simp_all [magnitude, natOf_toDigits, withSign_natAbs]

theorem Writes.of_bits {text : List Char} {d d' : Decimal} (h : Writes text d)
    (same : d.bits = d'.bits) : Writes text d' := by
  intro negative
  obtain ⟨l, spelled, sign, point, read⟩ := h negative
  exact ⟨l, spelled, sign, point, read.trans same⟩

theorem writes_positional {d : Decimal} (high : d.exponent ≤ mostExponent) :
    Writes d.positional d := by
  have digits := isDigits_toDigits d.digits
  unfold positional
  dsimp only
  split
  · rename_i natural
    -- The zero behind the point is a digit that the decimal itself does not have.
    obtain ⟨e, he⟩ := Int.eq_ofNat_of_zero_le natural
    have moved : bits ⟨d.digits * 10 ^ (e + 1), -1⟩ = d.bits := by
      rw [bits_mul_pow _ _ (by decide) (by omega)]
      congr 1
      cases d
      simp_all
    rw [he]
    have whole : IsDigits (Nat.toDigits 10 d.digits ++ List.replicate e '0') :=
      isDigits_append (.inl digits.1) digits.2 fun _ => isDigit_of_mem_zeros
    refine (writes_point whole (isDigits_toDigits 0) ?_ rfl).of_bits moved
    rw [Nat.toDigits_zero, List.append_assoc, ← List.replicate_succ',
      natOf_append_zeros, natOf_toDigits]
  · rename_i negative
    split
    · rename_i inside
      have cut := List.take_append_drop ((Nat.toDigits 10 d.digits).length - (-d.exponent).toNat)
        (Nat.toDigits 10 d.digits)
      apply writes_point
      · refine isDigits_of_subset digits ?_ (List.take_subset _ _)
        simp [Nat.toDigits_ne_nil]
        omega
      · refine isDigits_of_subset digits ?_ (List.drop_subset _ _)
        simp
        omega
      · rw [cut, natOf_toDigits]
      · rw [List.length_drop]
        omega
    · apply writes_point (isDigits_toDigits 0)
        (isDigits_append (.inr digits.1) (fun _ => isDigit_of_mem_zeros) digits.2)
      · rw [Nat.toDigits_zero, List.singleton_append, ← List.cons_append, ← List.replicate_succ,
          natOf_zeros_append, natOf_toDigits]
      · simp
        omega

theorem writes_scientific (d : Decimal) : Writes d.scientific d := by
  have digits := isDigits_toDigits d.digits
  have value := natOf_toDigits d.digits
  unfold scientific leading
  cases row : Nat.toDigits 10 d.digits with
  | nil => exact absurd row Nat.toDigits_ne_nil
  | cons first rest =>
    rw [row] at digits value
    have before : IsDigits [first] := isDigits_of_subset digits (by simp) (by simp)
    cases rest with
    | nil => exact writes_exponent before .absent value (by simp)
    | cons second rest =>
      have behind : IsDigits (second :: rest) := isDigits_of_subset digits (by simp) (by simp)
      exact writes_exponent before (.present behind) value (by simp)

/-- Every written decimal is a literal that is read like the decimal. -/
theorem writes_write {layout : Layout} (most : layout.most ≤ mostExponent) (d : Decimal) :
    Writes (d.write layout) d := by
  unfold write
  split
  · rename_i near
    apply writes_positional
    unfold leading at near
    omega
  · exact writes_scientific d

end Decimal

/-! ### Printed numbers -/

namespace Number

open Literal

theorem printFloat_eq {x : Float} (finite : x.isFinite = true) :
    printFloat x =
      minus (signAndBits x).1 ++ (Decimal.shortest (signAndBits x).2).write layout := by
  have bound := (isFinite_iff x).mp finite
  simp only [printFloat]
  rw [if_neg (Nat.not_lt.mpr (Nat.le_of_lt bound)), if_neg (Nat.ne_of_lt bound)]
  cases (signAndBits x).1 <;> rfl

/-- A printed number is a literal of that number. -/
theorem spells_print {n : Number} (h : n.isFinite = true) :
    ∃ l, Spells n.print.toList l ∧ l.number? = some n := by
  cases n with
  | int n =>
    refine ⟨⟨decide (n.toInt < 0), Nat.toDigits 10 n.toInt.natAbs, none, none⟩, ?_, ?_⟩
    · have spelled := @Spells.parts (decide (n.toInt < 0)) _ _ _ _ _
        (isDigits_toDigits n.toInt.natAbs) .absent .absent
      simpa [print, signed_eq] using spelled
    · simp [number?, isWhole, natOf_toDigits, withSign_natAbs, word?_eq_some_iff]
  | float x =>
    obtain ⟨l, spelled, sign, point, read⟩ :=
      Decimal.writes_write (show layout.most ≤ Decimal.mostExponent by decide)
        (Decimal.shortest (signAndBits x).2) (signAndBits x).1
    have same : l.toFloat = x := by
      rw [Decimal.bits_shortest ((isFinite_iff x).mp h)] at read
      rw [Literal.toFloat, sign, toFloat_of_bits h read]
    refine ⟨l, ?_, ?_⟩
    · rwa [print, String.toList_ofList, printFloat_eq h]
    · have finite : x.isFinite = true := h
      simp [number?, point, same, finite]

/-- The number of a literal has a literal. -/
theorem isFinite_of_number? {l : Literal} {n : Number} (h : l.number? = some n) :
    n.isFinite = true := by
  unfold number? at h
  split at h
  · obtain ⟨w, _, rfl⟩ := Option.map_eq_some_iff.mp h
    rfl
  · split at h
    · rename_i finite
      cases h
      exact finite
    · cases h

end Number

end Sexpr
