/-
The double nearest to a fraction, as a function of the fraction's value.

`nearestBits` works on a numerator and a denominator. `nearestBits_congr` says
that only their quotient matters: the grid is found from the binary logarithm of
the quotient (`gridExponent_eq`), and rounding does not see common factors.
`nearestBits_fraction` says that the magnitude of every finite double is nearest
to itself.
-/

import Mathlib.Algebra.Order.Field.Power
import Mathlib.Data.Int.Log
import Mathlib.Data.Rat.Floor
import Mathlib.Tactic.Positivity
import Mathlib.Tactic.Ring
import Sexpr.Decimal.Basic

namespace Sexpr.Decimal

/-! ### Powers -/

theorem power_eq (base : Nat) (e : Int) : power base e = base ^ e.toNat := rfl

theorem power_mul (a b : Nat) (e : Int) : power (a * b) e = power a e * power b e :=
  Nat.mul_pow a b _

theorem power_pos {base : Nat} (h : 0 < base) (e : Int) : 0 < power base e :=
  Nat.pow_pos h

/-- The two powers of a scaled fraction together make the power of the scale. -/
theorem two_zpow_eq (e : Int) : (2 : ℚ) ^ e = (power 2 e : ℚ) / (power 2 (-e) : ℚ) := by
  rw [power_eq, power_eq, Nat.cast_pow, Nat.cast_pow]
  rcases Int.le_total 0 e with positive | negative
  · obtain ⟨n, rfl⟩ := Int.eq_ofNat_of_zero_le positive
    simp
  · obtain ⟨n, hn⟩ := Int.eq_ofNat_of_zero_le (Int.neg_nonneg_of_nonpos negative)
    obtain rfl : e = -(n : Int) := by omega
    simp

/-! ### Rounding -/

/-- Rounding does not see a common factor. -/
theorem roundDiv_mul {k : Nat} (h : 0 < k) (n d : Nat) :
    roundDiv (k * n) (k * d) = roundDiv n d := by
  simp only [roundDiv, Nat.mul_div_mul_left _ _ h, Nat.mul_mod_mul_left, Nat.mul_left_comm 2 k,
    Nat.mul_lt_mul_left h]

theorem roundDiv_congr {n d n' d' : Nat} (hd : 0 < d) (hd' : 0 < d') (h : n * d' = n' * d) :
    roundDiv n d = roundDiv n' d' := by
  calc roundDiv n d = roundDiv (d' * n) (d' * d) := (roundDiv_mul hd' n d).symm
    _ = roundDiv (d * n') (d * d') := by
      rw [Nat.mul_comm d' n, h, Nat.mul_comm n' d, Nat.mul_comm d' d]
    _ = roundDiv n' d' := roundDiv_mul hd n' d'

theorem roundDiv_mul_self {d : Nat} (h : 0 < d) (n : Nat) : roundDiv (n * d) d = n := by
  simp [roundDiv, h]

theorem roundAt_congr {num den num' den' : Nat} (hd : 0 < den) (hd' : 0 < den')
    (h : num * den' = num' * den) (e : Int) : roundAt num den e = roundAt num' den' e := by
  have scale := power_pos Nat.two_pos e
  apply roundDiv_congr (Nat.mul_pos hd scale) (Nat.mul_pos hd' scale)
  calc num * power 2 (-e) * (den' * power 2 e)
      = num * den' * (power 2 (-e) * power 2 e) := by ring
    _ = num' * power 2 (-e) * (den * power 2 e) := by rw [h]; ring

/-! ### The grid -/

theorem zpow_le_iff {q : ℚ} (h : 0 < q) (e : Int) : (2 : ℚ) ^ e ≤ q ↔ e ≤ Int.log 2 q := by
  exact_mod_cast Int.zpow_le_iff_le_log Nat.one_lt_two h

theorem lt_zpow_iff {q : ℚ} (h : 0 < q) (e : Int) : q < (2 : ℚ) ^ e ↔ Int.log 2 q < e := by
  exact_mod_cast Int.lt_zpow_iff_log_lt Nat.one_lt_two h

theorem zpow_log2_le {n : Nat} (h : 0 < n) : (2 : ℚ) ^ (n.log2 : Int) ≤ n := by
  exact_mod_cast Nat.log2_self_le h.ne'

theorem lt_zpow_log2 (n : Nat) : (n : ℚ) < 2 ^ (n.log2 + 1 : Int) := by
  exact_mod_cast Nat.lt_log2_self

theorem two_zpow_add (a b : Int) : (2 : ℚ) ^ (a + b) = 2 ^ a * 2 ^ b :=
  zpow_add₀ two_ne_zero a b

/-- Whether a fraction lies below a multiple of a power of two, in whole numbers. -/
theorem lt_grid_iff {num den : Nat} (hd : 0 < den) (e : Int) (m : Nat) :
    num * power 2 (-e) < den * power 2 e * m ↔ (num / den : ℚ) < 2 ^ e * m := by
  have hden : (0 : ℚ) < den := by exact_mod_cast hd
  have down : (0 : ℚ) < power 2 (-e) := by exact_mod_cast power_pos Nat.two_pos (-e)
  rw [two_zpow_eq, div_lt_iff₀ hden, div_mul_eq_mul_div, div_mul_eq_mul_div, lt_div_iff₀ down,
    ← @Nat.cast_lt ℚ]
  push_cast
  rw [show (power 2 e : ℚ) * m * den = den * power 2 e * m by ring]

/-- A quotient lies within a factor of two of the quotient of the leading bits. -/
theorem log_div_bounds {num den : Nat} (hn : 0 < num) (hd : 0 < den) :
    (num.log2 : Int) - den.log2 - 1 ≤ Int.log 2 (num / den : ℚ) ∧
      Int.log 2 (num / den : ℚ) ≤ (num.log2 : Int) - den.log2 := by
  have hden : (0 : ℚ) < den := by exact_mod_cast hd
  have positive : (0 : ℚ) < num / den := by positivity
  constructor
  · rw [← zpow_le_iff positive, le_div_iff₀ hden]
    calc (2 : ℚ) ^ ((num.log2 : Int) - den.log2 - 1) * den
        ≤ 2 ^ ((num.log2 : Int) - den.log2 - 1) * 2 ^ (den.log2 + 1 : Int) := by
          gcongr
          exact (lt_zpow_log2 den).le
      _ = 2 ^ (num.log2 : Int) := by
          rw [← two_zpow_add]
          congr 1
          ring
      _ ≤ num := zpow_log2_le hn
  · rw [← Int.lt_add_one_iff, ← lt_zpow_iff positive, div_lt_iff₀ hden]
    calc (num : ℚ) < 2 ^ (num.log2 + 1 : Int) := lt_zpow_log2 num
      _ = 2 ^ ((num.log2 : Int) - den.log2 + 1) * 2 ^ (den.log2 : Int) := by
          rw [← two_zpow_add]
          congr 1
          ring
      _ ≤ 2 ^ ((num.log2 : Int) - den.log2 + 1) * den := by
          gcongr
          exact zpow_log2_le hd

/-- A whole multiple of a power of two has the leading bit of the multiple. -/
theorem log_mul_zpow {m : Nat} (h : 0 < m) (e : Int) :
    Int.log 2 (m * 2 ^ e : ℚ) = m.log2 + e := by
  have positive : (0 : ℚ) < m * 2 ^ e := by positivity
  apply le_antisymm
  · rw [← Int.lt_add_one_iff, ← lt_zpow_iff positive, add_right_comm, two_zpow_add]
    gcongr
    exact lt_zpow_log2 m
  · rw [← zpow_le_iff positive, two_zpow_add]
    gcongr
    exact zpow_log2_le h

/-- The grid of a fraction is that of its binary logarithm, or the finest one. -/
theorem gridExponent_eq {num den : Nat} (hn : 0 < num) (hd : 0 < den) :
    gridExponent num den = max leastExponent (Int.log 2 (num / den : ℚ) - 52) := by
  have bounds := log_div_bounds hn hd
  have below (e : Int) : num * power 2 (-e) < den * power 2 e * (2 * leadingBit) ↔
      Int.log 2 (num / den : ℚ) < e + 53 := by
    have mantissa : (2 : ℚ) ^ e * ((2 * leadingBit : Nat) : ℚ) = 2 ^ (e + 53) := by
      rw [two_zpow_add]
      norm_num [leadingBit]
    have positive : (0 : ℚ) < num / den := by positivity
    rw [lt_grid_iff hd, mantissa, lt_zpow_iff positive]
  unfold gridExponent
  simp only [below]
  split <;> omega

/-! ### Nearest doubles -/

/-- The double nearest to a fraction depends on the quotient only. -/
theorem nearestBits_congr {num den num' den' : Nat} (hd : 0 < den) (hd' : 0 < den')
    (h : num * den' = num' * den) : nearestBits num den = nearestBits num' den' := by
  unfold nearestBits
  rcases Nat.eq_zero_or_pos num with rfl | hn
  · have zero : num' = 0 := by
      rw [Nat.zero_mul] at h
      exact (Nat.mul_eq_zero.mp h.symm).resolve_right hd.ne'
    simp [zero]
  · have hn' : 0 < num' := Nat.pos_of_mul_pos_right (h ▸ Nat.mul_pos hn hd')
    have quotient : (num / den : ℚ) = num' / den' := by
      have hden : (den : ℚ) ≠ 0 := by exact_mod_cast hd.ne'
      have hden' : (den' : ℚ) ≠ 0 := by exact_mod_cast hd'.ne'
      rw [div_eq_div_iff hden hden']
      exact_mod_cast h
    have grid : gridExponent num den = gridExponent num' den' := by
      rw [gridExponent_eq hn hd, gridExponent_eq hn' hd', quotient]
    simp only [hn.ne', hn'.ne', if_false, grid, roundAt_congr hd hd' h]

/-- The exponent of a magnitude is that of the grid its fraction is rounded on. -/
theorem gridExponent_fraction {m : Nat} {e : Int} (low : leastExponent ≤ e) (positive : 0 < m)
    (high : m.log2 ≤ 52) (full : m.log2 = 52 ∨ e = leastExponent) :
    gridExponent (m * power 2 e) (power 2 (-e)) = e := by
  have value : ((m * power 2 e : Nat) : ℚ) / (power 2 (-e) : Nat) = m * 2 ^ e := by
    rw [two_zpow_eq, mul_div_assoc', Nat.cast_mul]
  rw [gridExponent_eq (Nat.mul_pos positive (power_pos Nat.two_pos e)) (power_pos Nat.two_pos (-e)),
    value, log_mul_zpow positive]
  omega

/-- A magnitude is a whole multiple of its own grid. -/
theorem roundAt_fraction (m : Nat) (e : Int) :
    roundAt (m * power 2 e) (power 2 (-e)) e = m := by
  unfold roundAt
  rw [Nat.mul_assoc, Nat.mul_comm (power 2 e)]
  exact roundDiv_mul_self (Nat.mul_pos (power_pos Nat.two_pos _) (power_pos Nat.two_pos _)) m

theorem nearestBits_dyadic {m : Nat} {e : Int} (low : leastExponent ≤ e) (positive : 0 < m)
    (high : m.log2 ≤ 52) (full : m.log2 = 52 ∨ e = leastExponent) :
    nearestBits (m * power 2 e) (power 2 (-e)) =
      min infinityBits ((e - leastExponent).toNat * leadingBit + m) := by
  have nonzero : m * power 2 e ≠ 0 := (Nat.mul_pos positive (power_pos Nat.two_pos e)).ne'
  simp only [nearestBits, if_neg nonzero, gridExponent_fraction low positive high full,
    roundAt_fraction]

/-- The magnitude of a finite double is nearest to that double. -/
theorem nearestBits_fraction {bits : Nat} (finite : bits < infinityBits) :
    nearestBits (Dyadic.ofBits bits).fraction.1 (Dyadic.ofBits bits).fraction.2 = bits := by
  unfold Dyadic.ofBits
  split <;> simp only [Dyadic.fraction]
  · rename_i small
    rcases Nat.eq_zero_or_pos bits with rfl | positive
    · simp [nearestBits]
    · have log : bits.log2 < 52 := (Nat.log2_lt positive.ne').mpr small
      rw [nearestBits_dyadic (Int.le_refl _) positive log.le (.inr rfl), Int.sub_self,
        Int.toNat_zero, Nat.zero_mul, Nat.zero_add, Nat.min_eq_right finite.le]
  · rename_i normal
    have whole := Nat.div_add_mod bits leadingBit
    have part := Nat.mod_lt bits (show 0 < leadingBit by decide)
    have log : (leadingBit + bits % leadingBit).log2 = 52 := by
      apply (Nat.log2_eq_iff (by unfold leadingBit; omega)).mpr
      unfold leadingBit at part ⊢
      omega
    rw [nearestBits_dyadic (by omega) (by unfold leadingBit; omega) log.le (.inl log)]
    unfold leadingBit infinityBits at *
    omega

end Sexpr.Decimal
