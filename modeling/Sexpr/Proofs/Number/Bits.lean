/-
The bits of a double.

A double is taken apart into sign, exponent and mantissa, and put together again.
`isFinite_iff` says in terms of the printed bits which doubles are finite, and
`toFloat_of_bits` that a decimal with the bits of a finite double is read as that
double, sign included.
-/

import Mathlib
import Sexpr.Number.Print

namespace Sexpr.Number

open Float.Model Float.Model.UnpackedFloat

/-! ### The parts of a double -/

theorem exponentBias_binary64 : Format.binary64.exponentBias = 1023 := by
  decide

theorem mantissaBits_binary64 : Format.binary64.mantissaBits = 53 := by
  decide

section
variable (b : BitVec Format.binary64.numBits)

theorem toNat_unpackExponent : (unpackExponent b).toNat = b.toNat / 2 ^ 52 % 2 ^ 11 := by
  simp [unpackExponent, BitVec.extractLsb, BitVec.extractLsb'_toNat, Nat.shiftRight_eq_div_pow]

theorem toNat_unpackMantissa : (unpackMantissa b).toNat = b.toNat % 2 ^ 52 := by
  simp [unpackMantissa, BitVec.extractLsb, BitVec.extractLsb'_toNat]

theorem toNat_unpackSign : (unpackSign b).toNat = b.toNat / 2 ^ 63 := by
  have bound : b.toNat < 2 ^ 64 := b.isLt
  simp only [unpackSign, BitVec.extractLsb, BitVec.toNat_cast, BitVec.extractLsb'_toNat,
    Nat.shiftRight_eq_div_pow]
  omega

theorem toNat_packComponents (s : Sign) (e : BitVec 11) (m : BitVec 52) :
    (packComponents .binary64 s e m).toNat =
      s.toBitVec.toNat * 2 ^ 63 + e.toNat * 2 ^ 52 + m.toNat := by
  rw [packComponents, BitVec.toNat_append, BitVec.toNat_append,
    ← Nat.shiftLeft_add_eq_or_of_lt e.isLt, ← Nat.shiftLeft_add_eq_or_of_lt m.isLt,
    Nat.shiftLeft_eq, Nat.shiftLeft_eq]
  omega

/-- A double is put together from its own parts. -/
theorem packComponents_parts {e : BitVec 11} {m : BitVec 52} (exponent : unpackExponent b = e)
    (mantissa : unpackMantissa b = m) :
    packComponents .binary64 (Sign.ofBitVec (unpackSign b)) e m = b := by
  have sign : ∀ v : BitVec 1, (Sign.ofBitVec v).toBitVec = v := by decide
  apply BitVec.eq_of_toNat_eq
  rw [toNat_packComponents, sign, ← exponent, ← mantissa, toNat_unpackSign, toNat_unpackExponent,
    toNat_unpackMantissa]
  omega

end

/-- A mantissa without its leading bit is packed with the exponent zero. -/
theorem pack_small (s : Sign) (m : BitVec 52) {n : Nat} {e : Int} (hn : 0 < n)
    (exponent : e = -1074) (mantissa : n = m.toNat) :
    UnpackedFloat.pack .binary64 (.finite s n e hn) = packComponents .binary64 s 0#_ m := by
  have log : n.log2 < 52 := (Nat.log2_lt (Nat.ne_of_gt hn)).mpr (mantissa ▸ m.isLt)
  simp only [UnpackedFloat.pack, exponentBias_binary64, mantissaBits_binary64, exponent]
  rw [if_neg (by decide), if_neg (by omega), mantissa, BitVec.ofNat_toNat, BitVec.setWidth_eq]

/-- A mantissa with its leading bit is packed with its own exponent, and the
leading bit is dropped. -/
theorem pack_full (s : Sign) (m : BitVec 52) (k : BitVec 11) {n : Nat} {e : Int} (hn : 0 < n)
    (exponent : e = k.toNat - 1075) (high : k.toNat < 2047) (mantissa : n = 2 ^ 52 + m.toNat) :
    UnpackedFloat.pack .binary64 (.finite s n e hn) = packComponents .binary64 s k m := by
  have bound : m.toNat < 2 ^ 52 := m.isLt
  have log : n.log2 = 52 := (Nat.log2_eq_iff (Nat.ne_of_gt hn)).mpr (by omega)
  have biased : (e + (1023 : Nat) + (52 : Nat)).toNat = k.toNat := by omega
  have dropped : BitVec.ofNat 52 n = m := by
    apply BitVec.eq_of_toNat_eq
    rw [BitVec.toNat_ofNat]
    omega
  simp only [UnpackedFloat.pack, exponentBias_binary64, mantissaBits_binary64, biased, log]
  rw [if_neg (by omega), if_pos trivial, BitVec.ofNat_toNat, BitVec.setWidth_eq, dropped]

section
variable (b : BitVec Format.binary64.numBits)

/-- A finite double survives being taken apart. -/
theorem pack_unpack (finite : unpackExponent b ≠ -1#_) :
    UnpackedFloat.pack .binary64 (UnpackedFloat.unpack .binary64 b) = b := by
  unfold UnpackedFloat.unpack
  rw [if_neg finite, exponentBias_binary64]
  split
  · rename_i noExponent
    split
    · rename_i noMantissa
      exact packComponents_parts b noExponent noMantissa
    · rw [pack_small _ (unpackMantissa b) _ (by rw [noExponent]; rfl) rfl]
      exact packComponents_parts b noExponent rfl
  · have high : (unpackExponent b).toNat < 2047 := by
      have bound : (unpackExponent b).toNat < 2 ^ 11 := (unpackExponent b).isLt
      have notOnes : (unpackExponent b).toNat ≠ 2047 := fun h => finite (BitVec.eq_of_toNat_eq h)
      omega
    have exponent : ((unpackExponent b).toNat : Int) - ((1023 : Nat) + (52 : Nat)) =
        (unpackExponent b).toNat - 1075 := by omega
    rw [pack_full _ (unpackMantissa b) (unpackExponent b) _ exponent high]
    · exact packComponents_parts b rfl rfl
    · rw [BitVec.toNat_append, ← Nat.shiftLeft_add_eq_or_of_lt (unpackMantissa b).isLt]
      rfl

theorem isFinite_unpack :
    (UnpackedFloat.unpack .binary64 b).isFinite = true ↔ unpackExponent b ≠ -1#_ := by
  unfold UnpackedFloat.unpack
  dsimp only
  split
  · rename_i ones
    split <;> exact iff_of_false Bool.false_ne_true (fun finite => finite ones)
  · rename_i finite
    split
    · split <;> exact iff_of_true rfl finite
    · exact iff_of_true rfl finite

end

/-! ### Doubles from their bits -/

theorem ofBits_toBits {x : Float} (finite : x.isFinite = true) : Float.ofBits x.toBits = x := by
  obtain ⟨bits, valid⟩ := x
  have same := pack_unpack bits.toBitVec ((isFinite_unpack bits.toBitVec).mp finite)
  simp only [Float.ofBits, Float.toBits, Float.Model.ofBits, Float.Model.pack, same,
    UInt64.ofBitVec_toBitVec]

/-- The finite doubles are those with bits below the bits of infinity. -/
theorem isFinite_iff (x : Float) :
    x.isFinite = true ↔ (signAndBits x).2 < Decimal.infinityBits := by
  refine (isFinite_unpack x.toBits.toBitVec).trans ?_
  have ones : @unpackExponent .binary64 x.toBits.toBitVec ≠ -1#_ ↔
      x.toBits.toNat / 2 ^ 52 % 2 ^ 11 ≠ 2047 := by
    rw [ne_eq, ← BitVec.toNat_inj, toNat_unpackExponent]
    rfl
  rw [ones]
  simp only [signAndBits, Decimal.infinityBits, Decimal.signBit]
  omega

/-- A decimal with the bits of a finite double is read as that double. -/
theorem toFloat_of_bits {x : Float} {d : Decimal} (finite : x.isFinite = true)
    (bits : d.bits = (signAndBits x).2) : d.toFloat (signAndBits x).1 = x := by
  have whole : d.bits + (if (signAndBits x).1 then Decimal.signBit else 0) = x.toBits.toNat := by
    have bound := x.toBits.toNat_lt
    rw [bits]
    by_cases negative : Decimal.signBit ≤ x.toBits.toNat
    · simp only [signAndBits, negative, decide_true, if_true]
      unfold Decimal.signBit at negative ⊢
      omega
    · simp only [signAndBits, negative, decide_false, Bool.false_eq_true, if_false]
      exact Nat.mod_eq_of_lt (Nat.lt_of_not_le negative)
  rw [Decimal.toFloat, whole, Nat.toUInt64_eq, UInt64.ofNat_toNat, ofBits_toBits finite]

end Sexpr.Number
