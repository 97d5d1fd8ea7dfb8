/-
Shortest decimals are read back.

`bits_shortest` says that the shortest decimal of a finite double is read as that
double. Every candidate of the search is tested except the last one, on the finest
grid: there every double is a whole number of steps (`bits_finest`).
`bits_mul_pow` says that trailing zeros do not change what a decimal is read as.
-/

import Sexpr.Decimal.Shortest
import Sexpr.Proofs.Decimal.Nearest

namespace Sexpr.Decimal

/-- Between the bounds on its exponent a decimal is rounded as a fraction. -/
theorem bits_eq_nearestBits {d : Decimal} (seen : d.vanishes = false)
    (high : d.exponent ≤ mostExponent) :
    d.bits = nearestBits (d.digits * power 10 d.exponent) (power 10 (-d.exponent)) := by
  unfold bits
  rw [if_neg (c := mostExponent < d.exponent) (by omega)]
  split
  · rename_i zero
    obtain empty : d.digits = 0 := zero.resolve_right (by simp [seen])
    simp [empty, nearestBits]
  · rfl

theorem vanishes_eq_false {d : Decimal} (h : -330 - (d.digits.log2 + 1 : Nat) ≤ d.exponent) :
    d.vanishes = false := by
  simpa [vanishes] using h

/-- A decimal with `k` zeros behind its digits is read in the same way. -/
theorem bits_mul_pow (n k : Nat) {e : Int} (low : -330 ≤ e) (high : e + k ≤ mostExponent) :
    bits ⟨n * 10 ^ k, e⟩ = bits ⟨n, e + k⟩ := by
  rw [bits_eq_nearestBits (vanishes_eq_false (by dsimp only; omega)) (by dsimp only; omega),
    bits_eq_nearestBits (vanishes_eq_false (by dsimp only; omega)) (by dsimp only; omega)]
  apply nearestBits_congr (power_pos (by decide) _) (power_pos (by decide) _)
  have shift : 10 ^ k * (power 10 e * power 10 (-(e + k))) = power 10 (e + k) * power 10 (-e) := by
    simp only [power, Nat.pow_eq, ← Nat.pow_add]
    congr 1
    omega
  calc n * 10 ^ k * power 10 e * power 10 (-(e + k))
      = n * (10 ^ k * (power 10 e * power 10 (-(e + k)))) := by ring
    _ = n * power 10 (e + k) * power 10 (-e) := by rw [shift, Nat.mul_assoc]

/-! ### The finest grid -/

theorem ofBits_exponent_ge (bits : Nat) : leastExponent ≤ (Dyadic.ofBits bits).exponent := by
  unfold Dyadic.ofBits
  split
  · exact Int.le_refl _
  · dsimp only
    omega

theorem ofBits_mantissa_pos {bits : Nat} (h : 0 < bits) : 0 < (Dyadic.ofBits bits).mantissa := by
  unfold Dyadic.ofBits
  split
  · exact h
  · exact Nat.add_pos_left (by decide) _

/-- A magnitude on a grid of powers of two is a whole number of steps on the same
grid of powers of ten, and many of them. -/
theorem whole_units {x : Dyadic} {step : Int} (grid : step ≤ x.exponent)
    (positive : 0 < x.mantissa) :
    ∃ n, x.fraction.1 * power 10 (-step) = n * x.fraction.2 ∧ 2 ^ (-step).toNat ≤ n := by
  obtain ⟨k, places⟩ : ∃ k, (-step).toNat = (-x.exponent).toNat + k :=
    Nat.exists_eq_add_of_le (by omega)
  have ten : power 10 (-step) = power 5 (-step) * (2 ^ k * power 2 (-x.exponent)) := by
    calc power 10 (-step) = power 5 (-step) * power 2 (-step) := power_mul 5 2 (-step)
      _ = power 5 (-step) * (2 ^ k * power 2 (-x.exponent)) := by
        rw [power_eq 2 (-step), places, Nat.pow_add, Nat.mul_comm (2 ^ k), power_eq 2]
  refine ⟨x.mantissa * power 2 x.exponent * (power 5 (-step) * 2 ^ k), ?_, ?_⟩
  · simp only [Dyadic.fraction, ten]
    ring
  · calc 2 ^ (-step).toNat ≤ power 5 (-step) := Nat.pow_le_pow_left (by decide) _
      _ ≤ power 5 (-step) * 2 ^ k := Nat.le_mul_of_pos_right _ (Nat.two_pow_pos k)
      _ ≤ x.mantissa * power 2 x.exponent * (power 5 (-step) * 2 ^ k) :=
        Nat.le_mul_of_pos_left _ (Nat.mul_pos positive (power_pos Nat.two_pos _))

/-- A double is read back from its whole number of steps on the finest grid. -/
theorem bits_finest {bits : Nat} (positive : 0 < bits) (finite : bits < infinityBits) :
    (searchFrom bits 0).bits = bits := by
  obtain ⟨n, whole, many⟩ := whole_units (ofBits_exponent_ge bits) (ofBits_mantissa_pos positive)
  have den : 0 < (Dyadic.ofBits bits).fraction.2 := power_pos Nat.two_pos _
  have unit : power 10 leastExponent = 1 := rfl
  have steps : searchFrom bits 0 = ⟨n, leastExponent⟩ := by
    simp only [searchFrom, unitsOf, gridStep, Int.natCast_zero, Int.add_zero]
    rw [whole, unit, Nat.mul_one, Nat.mul_div_cancel _ den]
  have seen : vanishes ⟨n, leastExponent⟩ = false := by
    have log : (-leastExponent).toNat ≤ n.log2 :=
      (Nat.le_log2 (Nat.lt_of_lt_of_le (Nat.two_pow_pos _) many).ne').mpr many
    apply vanishes_eq_false
    dsimp only
    omega
  rw [steps, bits_eq_nearestBits seen (show leastExponent ≤ mostExponent by decide)]
  calc nearestBits (n * power 10 leastExponent) (power 10 (-leastExponent))
      = nearestBits (Dyadic.ofBits bits).fraction.1 (Dyadic.ofBits bits).fraction.2 := by
        apply nearestBits_congr (power_pos (by decide) _) den
        rw [unit, Nat.mul_one, whole]
    _ = bits := nearestBits_fraction finite

/-! ### The search -/

theorem bits_searchFrom {bits : Nat} (positive : 0 < bits) (finite : bits < infinityBits)
    (k : Nat) : (searchFrom bits k).bits = bits := by
  induction k with
  | zero => exact bits_finest positive finite
  | succ k ih =>
    unfold searchFrom
    cases candidate : onGrid? bits (gridStep (k + 1)) with
    | none => exact ih
    | some d => exact bits_of_onGrid? candidate

/-- The shortest decimal of a finite double is read as that double. -/
theorem bits_shortest {bits : Nat} (finite : bits < infinityBits) :
    (shortest bits).bits = bits := by
  unfold shortest
  split
  · rename_i zero
    rw [zero]
    rfl
  · rename_i nonzero
    exact bits_searchFrom (Nat.pos_of_ne_zero nonzero) finite _

end Sexpr.Decimal
