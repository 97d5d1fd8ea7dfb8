/-
Division of integers.

A quotient of integers is an integer where it is exact and has 64 bits, and a double otherwise
(`Number.div_divides`). The one exact quotient that does not have 64 bits is that of the least
integer by minus one (`isWord_iff_of_mul_eq`): it is rounded too, and no overflow is reported. A
call multiplies its divisors first. Main statement: `Operation.quotient_exact_or_rounded`.
-/

import Sexpr.Proofs.Operation.Overflow

namespace Sexpr

/-- An exact quotient of integers of 64 bits has 64 bits itself, but for that of the least one
by minus one. -/
theorem isWord_iff_of_mul_eq {q a b : Int} (word : IsWord a) (nonzero : b ≠ 0)
    (exact : q * b = a) : IsWord q ↔ ¬ (a = -wordBound ∧ b = -1) := by
  have bound : wordBound = 9223372036854775808 := rfl
  constructor
  · rintro ⟨_, above⟩ ⟨least, rfl⟩
    omega
  · intro other
    obtain ⟨below, above⟩ := word
    have smaller : q.natAbs ≤ a.natAbs := by
      rw [← exact, Int.natAbs_mul]
      exact Nat.le_mul_of_pos_right _ (Int.natAbs_pos.mpr nonzero)
    -- only the least integer is larger than any other in magnitude
    have inside : q ≠ wordBound := by
      rintro rfl
      rw [bound] at exact
      exact other ⟨by omega, by omega⟩
    exact ⟨by omega, by omega⟩

namespace Number

/-- The quotient of two integers as a double. -/
def roundedQuotient (a b : Int) : Number :=
  .float (Float.ofInt a / Float.ofInt b)

/-- What two integers give when the first is divided by the second. -/
inductive Divides (a b : Int64) : Except ArithmeticFault Number → Prop where
  | byZero : b.toInt = 0 → Divides a b (.error .divisionByZero)
  | exact {q : Int64} : b.toInt ≠ 0 → q.toInt * b.toInt = a.toInt → Divides a b (.ok (.int q))
  /-- The exact quotient does not have 64 bits. -/
  | least : a.toInt = -wordBound → b.toInt = -1 →
      Divides a b (.ok (roundedQuotient a.toInt b.toInt))
  | inexact : b.toInt ≠ 0 → ¬ b.toInt ∣ a.toInt →
      Divides a b (.ok (roundedQuotient a.toInt b.toInt))

theorem isZero_int (n : Int64) : (Number.int n).isZero = true ↔ n.toInt = 0 := by
  rw [isZero, beq_iff_eq, ← Int64.toInt_inj, Int64.toInt_zero]

theorem exactQuotient?_of_dvd {a b : Int64} {q : Int} (nonzero : b.toInt ≠ 0)
    (exact : q * b.toInt = a.toInt) : exactQuotient? a b = word? q := by
  rw [exactQuotient?, ← exact, Int.mul_tmod_left, if_pos rfl, Int.mul_tdiv_cancel q nonzero]

theorem exactQuotient?_of_not_dvd {a b : Int64} (h : ¬ b.toInt ∣ a.toInt) :
    exactQuotient? a b = none :=
  if_neg fun exact => h (Int.dvd_of_tmod_eq_zero exact)

/-- Division by an integer other than zero. -/
theorem div_int_of_ne_zero {a b : Int64} (nonzero : b.toInt ≠ 0) :
    div (.int a) (.int b) =
      .ok (((exactQuotient? a b).map .int).getD (roundedQuotient a.toInt b.toInt)) := by
  rw [div, if_neg fun zero => nonzero ((isZero_int b).mp zero)]
  cases exactQuotient? a b <;> rfl

theorem div_divides (a b : Int64) : Divides a b (div (.int a) (.int b)) := by
  by_cases zero : b.toInt = 0
  · rw [div, if_pos ((isZero_int b).mpr zero)]
    exact .byZero zero
  · rw [div_int_of_ne_zero zero]
    by_cases divides : b.toInt ∣ a.toInt
    · obtain ⟨q, exact⟩ := divides
      rw [Int.mul_comm] at exact
      rw [exactQuotient?_of_dvd zero exact.symm]
      by_cases word : IsWord q
      · obtain ⟨w, isWord, rfl⟩ := exists_word?_of_isWord word
        rw [isWord]
        exact .exact zero exact.symm
      · have onlyLeast := isWord_iff_of_mul_eq (isWord_toInt a) zero exact.symm
        rw [onlyLeast, not_not] at word
        rw [word?_of_not_isWord (mt onlyLeast.mp (not_not.mpr word))]
        exact .least word.1 word.2
    · rw [exactQuotient?_of_not_dvd divides]
      exact .inexact zero divides

end Number

namespace Operation

open Number (roundedQuotient)

/-- The divisors are multiplied before the first argument is looked at. -/
theorem value_div_cons (head : Node) (tail : List Node) :
    div.value (head :: tail) = (do
      let divisor ← product .div tail
      return numeric (← arithmetic ((← number .div head).div divisor))) :=
  rfl

/-- A call with integers divides the first by the product of the others. -/
theorem value_div_numbers (p : Place) (x : Int64) {ns : List (Place × Int64)}
    (fits : ProductsFit (values ns)) :
    ∃ d : Int64, d.toInt = (values ns).prod ∧
      div.value (.number p (.int x) :: numbers ns) =
        numeric <$> arithmetic (Number.div (.int x) (.int d)) := by
  obtain ⟨d, isProduct, multiplied⟩ := (product_numbers .div ns []).1 fits
  rw [List.append_nil] at multiplied
  refine ⟨d, isProduct, ?_⟩
  rw [value_div_cons, multiplied]
  rfl

/-- Division of integers is exact, refused or rounded. If the partial products of the divisors
have 64 bits, a call refuses to divide by zero, gives the exact quotient if there is one and it
has 64 bits, and gives the rounded one if there is none. The exact quotient of the least integer
by minus one does not have 64 bits, and it is rounded too; nowhere else is an exact quotient a
double. -/
theorem quotient_exact_or_rounded (p : Place) (x : Int64) {ns : List (Place × Int64)}
    (fits : ProductsFit (values ns)) :
    let d := (values ns).prod
    let call := div.value (.number p (.int x) :: numbers ns)
    ((d = 0 → call = .error (.failure (.arithmetic .divisionByZero))) ∧
      (d ≠ 0 → d ∣ x.toInt → IsWord (x.toInt / d) →
        ∃ q : Int64, q.toInt = x.toInt / d ∧ call = .ok (numeric (.int q))) ∧
      (d ∣ x.toInt → ¬ IsWord (x.toInt / d) →
        x.toInt = -wordBound ∧ d = -1 ∧ call = .ok (numeric (roundedQuotient x.toInt d))) ∧
      (¬ d ∣ x.toInt → d ≠ 0 → call = .ok (numeric (roundedQuotient x.toInt d)))) ∧
    ∀ (a b : Int64) (f : Float), Number.div (.int a) (.int b) = .ok (.float f) →
      ¬ b.toInt ∣ a.toInt ∨ a.toInt = -wordBound ∧ b.toInt = -1 := by
  constructor
  · obtain ⟨d, isProduct, called⟩ := value_div_numbers p x fits
    rw [← isProduct, called]
    have divides := Number.div_divides x d
    generalize Number.div (.int x) (.int d) = r at divides
    cases divides with
    | byZero zero =>
      have quotient : x.toInt / d.toInt = 0 := by rw [zero, Int.ediv_zero]
      refine ⟨fun _ => rfl, fun nonzero => absurd zero nonzero, fun _ noWord => ?_,
        fun _ nonzero => absurd zero nonzero⟩
      exact absurd (quotient ▸ isWord_toInt 0) noWord
    | @exact q nonzero exact =>
      have quotient : x.toInt / d.toInt = q.toInt := Int.ediv_eq_of_eq_mul_left nonzero exact.symm
      refine ⟨fun zero => absurd zero nonzero, fun _ _ _ => ⟨q, quotient.symm, rfl⟩,
        fun _ noWord => ?_, fun notExact => ?_⟩
      · exact absurd (quotient ▸ isWord_toInt q) noWord
      · exact absurd (exact ▸ Int.dvd_mul_left _ _) notExact
    | least minimal minusOne =>
      have noWord : ¬ IsWord (x.toInt / d.toInt) := by
        rw [minimal, minusOne]
        decide
      refine ⟨fun zero => ?_, fun _ _ word => absurd word noWord,
        fun _ _ => ⟨minimal, minusOne, rfl⟩, fun _ _ => rfl⟩
      rw [minusOne] at zero
      cases zero
    | inexact nonzero notExact =>
      exact ⟨fun zero => absurd zero nonzero, fun _ exact => absurd exact notExact,
        fun exact => absurd exact notExact, fun _ _ => rfl⟩
  · intro a b f isFloat
    have divides := Number.div_divides a b
    rw [isFloat] at divides
    cases divides with
    | least minimal minusOne => exact .inr ⟨minimal, minusOne⟩
    | inexact _ notExact => exact .inl notExact

/-- `(/ 12 2 3)` is exact, and `(/ 7 -2 2)` is rounded. -/
theorem quotient_two_and_rounded :
    let number (n : Int64) : Node := .number .computed (.int n)
    (∃ q : Int64, q.toInt = 2 ∧ div.value [number 12, number 2, number 3] =
        .ok (numeric (.int q))) ∧
      div.value [number 7, number (-2), number 2] = .ok (numeric (roundedQuotient 7 (-4))) := by
  intro number
  have fits : ProductsFit [2, 3] := (stays_mul_iff _).mp ⟨by decide, by decide, trivial⟩
  have fits' : ProductsFit [-2, 2] := (stays_mul_iff _).mp ⟨by decide, by decide, trivial⟩
  have exact :=
    (@quotient_exact_or_rounded .computed 12 [(.computed, 2), (.computed, 3)] fits).1.2.1
  have inexact :=
    (@quotient_exact_or_rounded .computed 7 [(.computed, -2), (.computed, 2)] fits').1.2.2.2
  exact ⟨exact (by decide) (by decide) (by decide), inexact (by decide) (by decide)⟩

/-- The least integer divided by minus one: the divisor fits and divides exactly, the quotient
does not have 64 bits, and the call gives a double and no overflow. -/
theorem quotient_least_by_minus_one :
    let call := div.value [.number .computed (.int Int64.minValue), .number .computed (.int (-1))]
    ProductsFit [-1] ∧ (-1 : Int) ∣ Int64.minValue.toInt ∧ ¬ IsWord (Int64.minValue.toInt / -1) ∧
      (∃ f, call = .ok (numeric (.float f))) ∧ ∀ fault, call ≠ .error fault := by
  refine ⟨(stays_mul_iff _).mp ⟨by decide, trivial⟩, by decide, by decide, ⟨_, rfl⟩, ?_⟩
  rintro fault ⟨⟩

end Operation

end Sexpr
