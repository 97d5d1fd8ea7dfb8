/-
Integer arithmetic never wraps.

Sums and products combine their arguments from left to right, and every partial result has to
be an integer of 64 bits (`Operation.Stays`). As long as they all are, the result is the exact
one. The first that is not makes an overflow of the call, whatever comes behind it
(`Operation.accumulate_numbers`), and an argument that is no number is refused when its turn
comes. A difference takes the sum of the tail first and looks at the head after it. Main
statement: `Operation.integers_exact_or_refused`.
-/

import Mathlib.Algebra.Ring.Int.Defs
import Sexpr.Operation.Value

namespace Sexpr

/-! ### Machine words -/

/-- The integer has 64 bits. -/
def IsWord (n : Int) : Prop :=
  -wordBound ≤ n ∧ n < wordBound

instance (n : Int) : Decidable (IsWord n) :=
  inferInstanceAs (Decidable (_ ∧ _))

theorem isWord_toInt (w : Int64) : IsWord w.toInt :=
  ⟨Int64.le_toInt w, Int64.toInt_lt w⟩

theorem exists_word?_of_isWord {n : Int} (h : IsWord n) : ∃ w, word? n = some w ∧ w.toInt = n := by
  have isSome : word? n = some (Int64.ofInt n) := if_pos h
  exact ⟨_, isSome, word?_eq_some_iff.mp isSome⟩

theorem word?_of_not_isWord {n : Int} (h : ¬ IsWord n) : word? n = none :=
  if_neg h

/-- The node is a number of either kind. -/
def Node.IsNumber (n : Node) : Prop :=
  ∃ p x, n = .number p x

namespace Operation

/-! ### Partial results -/

/-- Each partial result is an integer of 64 bits, the first one of `acc` and the first item. -/
def Stays (exact : Int → Int → Int) : Int → List Int → Prop
  | _, [] => True
  | acc, n :: ns => IsWord (exact acc n) ∧ Stays exact (exact acc n) ns

theorem stays_iff {exact : Int → Int → Int} {acc : Int} (start : IsWord acc) (ns : List Int) :
    Stays exact acc ns ↔ ∀ k, IsWord ((ns.take k).foldl exact acc) := by
  induction ns generalizing acc with
  | nil =>
    simp only [Stays, List.take_nil, List.foldl_nil, true_iff]
    exact fun _ => start
  | cons n ns ih =>
    constructor
    · rintro ⟨first, others⟩ k
      cases k with
      | zero => exact start
      | succ k => exact (ih first).mp others k
    · intro all
      have first : IsWord (exact acc n) := all 1
      exact ⟨first, (ih first).mpr fun k => all (k + 1)⟩

/-- Every partial sum has 64 bits. -/
def SumsFit (ns : List Int) : Prop :=
  ∀ k, IsWord (ns.take k).sum

/-- Every partial product has 64 bits. -/
def ProductsFit (ns : List Int) : Prop :=
  ∀ k, IsWord (ns.take k).prod

theorem stays_add_iff (ns : List Int) : Stays (· + ·) 0 ns ↔ SumsFit ns := by
  have zero : IsWord 0 := isWord_toInt 0
  rw [stays_iff zero]
  simp only [SumsFit, List.sum_eq_foldl]

theorem stays_mul_iff (ns : List Int) : Stays (· * ·) 1 ns ↔ ProductsFit ns := by
  have one : IsWord 1 := isWord_toInt 1
  rw [stays_iff one]
  simp only [ProductsFit, List.prod_eq_foldl]

/-! ### Arguments that are integers -/

/-- Integers as arguments, each at its place. -/
def numbers (ns : List (Place × Int64)) : List Node :=
  ns.map fun (p, n) => .number p (.int n)

def values (ns : List (Place × Int64)) : List Int :=
  ns.map fun (_, n) => n.toInt

/-- The fault of a result that does not have 64 bits. -/
def overflow (operation : Arithmetic) : Fault :=
  .failure (.arithmetic (.overflow operation))

variable {op : Operation} {operation : Arithmetic} {exact : Int → Int → Int}
  {rounded : Float → Float → Float}

/-- One more integer is combined exactly, or the call overflows. -/
theorem accumulate_cons (acc : Int64) (p : Place) (n : Int64) (args : List Node) :
    op.accumulate (Number.combine operation exact rounded) (.int acc)
        (.number p (.int n) :: args) =
      match word? (exact acc.toInt n.toInt) with
      | some w => op.accumulate (Number.combine operation exact rounded) (.int w) args
      | none => .error (overflow operation) := by
  simp only [accumulate, List.foldlM_cons, number, Number.combine, Bind.bind, Except.bind]
  cases word? (exact acc.toInt n.toInt) <;> rfl

/-- Integers in front are combined exactly if all partial results have 64 bits, and otherwise
the call overflows, whatever comes behind them. -/
theorem accumulate_numbers (acc : Int64) (ns : List (Place × Int64)) (rest : List Node) :
    (Stays exact acc.toInt (values ns) →
      ∃ w : Int64, w.toInt = (values ns).foldl exact acc.toInt ∧
        op.accumulate (Number.combine operation exact rounded) (.int acc) (numbers ns ++ rest) =
          op.accumulate (Number.combine operation exact rounded) (.int w) rest) ∧
    (¬ Stays exact acc.toInt (values ns) →
      op.accumulate (Number.combine operation exact rounded) (.int acc) (numbers ns ++ rest) =
        .error (overflow operation)) := by
  induction ns generalizing acc with
  | nil => exact ⟨fun _ => ⟨acc, rfl, rfl⟩, fun strays => absurd trivial strays⟩
  | cons first ns ih =>
    obtain ⟨p, n⟩ := first
    have step : op.accumulate (Number.combine operation exact rounded) (.int acc)
        (numbers ((p, n) :: ns) ++ rest) = _ := accumulate_cons acc p n (numbers ns ++ rest)
    by_cases fits : IsWord (exact acc.toInt n.toInt)
    · obtain ⟨w, isWord, isExact⟩ := exists_word?_of_isWord fits
      rw [isWord] at step
      obtain ⟨stays, strays⟩ := ih w
      rw [isExact] at stays strays
      refine ⟨fun h => ?_, fun h => ?_⟩
      · obtain ⟨last, isLast, same⟩ := stays h.2
        exact ⟨last, isLast, step.trans same⟩
      · exact step.trans (strays fun others => h ⟨fits, others⟩)
    · rw [word?_of_not_isWord fits] at step
      exact ⟨fun h => absurd h.1 fits, fun _ => step⟩

theorem sum_numbers (op : Operation) (ns : List (Place × Int64)) (rest : List Node) :
    (SumsFit (values ns) →
      ∃ w : Int64, w.toInt = (values ns).sum ∧
        op.sum (numbers ns ++ rest) = op.accumulate Number.add (.int w) rest) ∧
    (¬ SumsFit (values ns) → op.sum (numbers ns ++ rest) = .error (overflow .addition)) := by
  rw [← stays_add_iff, List.sum_eq_foldl]
  exact accumulate_numbers 0 ns rest

theorem product_numbers (op : Operation) (ns : List (Place × Int64)) (rest : List Node) :
    (ProductsFit (values ns) →
      ∃ w : Int64, w.toInt = (values ns).prod ∧
        op.product (numbers ns ++ rest) = op.accumulate Number.mul (.int w) rest) ∧
    (¬ ProductsFit (values ns) →
      op.product (numbers ns ++ rest) = .error (overflow .multiplication)) := by
  rw [← stays_mul_iff, List.prod_eq_foldl]
  exact accumulate_numbers 1 ns rest

/-! ### Arguments that are no numbers -/

/-- The fault of an argument that is no number. -/
def notNumber (op : Operation) (bad : Node) : Fault :=
  .mismatch (.operand op.name .number bad.mention)

theorem number_of_not_isNumber (op : Operation) {bad : Node} (h : ¬ bad.IsNumber) :
    op.number bad = .error (op.notNumber bad) := by
  cases bad with
  | number p x => exact absurd ⟨p, x, rfl⟩ h
  | _ => rfl

/-- Nothing behind an argument that is no number is looked at. -/
theorem accumulate_of_not_isNumber {combine : Number → Number → Except ArithmeticFault Number}
    {acc : Number} {bad : Node} (h : ¬ bad.IsNumber) (rest : List Node) :
    op.accumulate combine acc (bad :: rest) = .error (op.notNumber bad) := by
  simp only [accumulate, List.foldlM_cons, number_of_not_isNumber op h, Bind.bind, Except.bind]

/-- Without doubles, the arguments in front of the first that is no number are integers. -/
theorem exists_numbers_append {args : List Node}
    (noFloat : ∀ a ∈ args, ∀ p x, a ≠ .number p (.float x))
    (someBad : ∃ a ∈ args, ¬ a.IsNumber) :
    ∃ ns bad rest, args = numbers ns ++ bad :: rest ∧ ¬ bad.IsNumber := by
  induction args with
  | nil =>
    obtain ⟨_, mem, _⟩ := someBad
    cases mem
  | cons first args ih =>
    by_cases isNumber : first.IsNumber
    · obtain ⟨p, x, rfl⟩ := isNumber
      cases x with
      | float x => exact absurd rfl (noFloat _ List.mem_cons_self p x)
      | int n =>
        have behind : ∃ a ∈ args, ¬ a.IsNumber := by
          obtain ⟨a, mem, bad⟩ := someBad
          rcases List.mem_cons.mp mem with rfl | mem
          · exact absurd ⟨p, _, rfl⟩ bad
          · exact ⟨a, mem, bad⟩
        obtain ⟨ns, bad, rest, rfl, isBad⟩ :=
          ih (fun a mem => noFloat a (List.mem_cons_of_mem _ mem)) behind
        exact ⟨(p, n) :: ns, bad, rest, rfl, isBad⟩
    · exact ⟨[], first, args, rfl, isNumber⟩

/-! ### Calls -/

/-- The call gives the exact integer if `fits`, and otherwise it overflows. -/
def ExactIf (op : Operation) (args : List Node) (fits : Prop) (exact : Int) : Prop :=
  (fits → ∃ w : Int64, w.toInt = exact ∧ op.value args = .ok (numeric (.int w))) ∧
    (¬ fits → ∃ operation, op.value args = .error (overflow operation))

/-- The call fails. It refuses the first of the arguments it visits that is no number, unless
the integers in front of it overflow. -/
def Refuses (op : Operation) (args visited : List Node) (operation : Arithmetic)
    (Fit : List Int → Prop) : Prop :=
  ∃ ns bad rest, visited = numbers ns ++ bad :: rest ∧ ¬ bad.IsNumber ∧
    (Fit (values ns) → op.value args = .error (op.notNumber bad)) ∧
    (¬ Fit (values ns) → op.value args = .error (overflow operation))

theorem value_add_of_sum {args : List Node} {r : Except Fault Number} (h : sum .add args = r) :
    add.value args = numeric <$> r := by
  subst h
  rfl

theorem value_mul_of_product {args : List Node} {r : Except Fault Number}
    (h : product .mul args = r) : mul.value args = numeric <$> r := by
  subst h
  rfl

/-- The tail is summed up before the head is looked at. -/
theorem value_sub_cons (head : Node) (tail : List Node) :
    sub.value (head :: tail) = (do
      let subtrahend ← sum .sub tail
      return numeric (← arithmetic ((← number .sub head).sub subtrahend))) :=
  rfl

theorem exactIf_add (ns : List (Place × Int64)) :
    add.ExactIf (numbers ns) (SumsFit (values ns)) (values ns).sum := by
  obtain ⟨stays, strays⟩ := sum_numbers .add ns []
  rw [List.append_nil] at stays strays
  refine ⟨fun fits => ?_, fun unfit => ⟨.addition, value_add_of_sum (strays unfit)⟩⟩
  obtain ⟨w, isSum, summed⟩ := stays fits
  exact ⟨w, isSum, value_add_of_sum summed⟩

theorem exactIf_mul (ns : List (Place × Int64)) :
    mul.ExactIf (numbers ns) (ProductsFit (values ns)) (values ns).prod := by
  obtain ⟨stays, strays⟩ := product_numbers .mul ns []
  rw [List.append_nil] at stays strays
  refine ⟨fun fits => ?_, fun unfit => ⟨.multiplication, value_mul_of_product (strays unfit)⟩⟩
  obtain ⟨w, isProduct, multiplied⟩ := stays fits
  exact ⟨w, isProduct, value_mul_of_product multiplied⟩

theorem exactIf_sub (p : Place) (x : Int64) (ns : List (Place × Int64)) :
    sub.ExactIf (.number p (.int x) :: numbers ns)
      (SumsFit (values ns) ∧ IsWord (x.toInt - (values ns).sum)) (x.toInt - (values ns).sum) := by
  obtain ⟨stays, strays⟩ := sum_numbers .sub ns []
  rw [List.append_nil] at stays strays
  by_cases fits : SumsFit (values ns)
  · obtain ⟨subtrahend, isSum, summed⟩ := stays fits
    have called : sub.value (.number p (.int x) :: numbers ns) =
        numeric <$> arithmetic (Number.sub (.int x) (.int subtrahend)) := by
      rw [value_sub_cons, summed]
      rfl
    rw [Number.sub, Number.combine, isSum] at called
    refine ⟨fun ⟨_, isWord⟩ => ?_, fun unfit => ?_⟩
    · obtain ⟨w, isSome, isExact⟩ := exists_word?_of_isWord isWord
      rw [isSome] at called
      exact ⟨w, isExact, called⟩
    · rw [word?_of_not_isWord fun isWord => unfit ⟨fits, isWord⟩] at called
      exact ⟨.subtraction, called⟩
  · refine ⟨fun both => absurd both.1 fits, fun _ => ⟨.addition, ?_⟩⟩
    rw [value_sub_cons, strays fits]
    rfl

/-- Two integers whose sum has 64 bits are added. -/
theorem value_add {a b c : Int64} {p q : Place} (sum : c.toInt = a.toInt + b.toInt) :
    add.value [.number p (.int a), .number q (.int b)] = .ok (numeric (.int c)) := by
  have fits : SumsFit [a.toInt, b.toInt] := by
    rw [← stays_add_iff, Stays, Stays, Int.zero_add, ← sum]
    exact ⟨isWord_toInt a, isWord_toInt c, trivial⟩
  obtain ⟨w, isSum, called⟩ := (exactIf_add [(p, a), (q, b)]).1 fits
  have same : w = c := Int64.toInt_inj.mp (by simp [isSum, sum, values])
  exact same ▸ called

/-- Two integers whose product has 64 bits are multiplied. -/
theorem value_mul {a b c : Int64} {p q : Place} (product : c.toInt = a.toInt * b.toInt) :
    mul.value [.number p (.int a), .number q (.int b)] = .ok (numeric (.int c)) := by
  have fits : ProductsFit [a.toInt, b.toInt] := by
    rw [← stays_mul_iff, Stays, Stays, Int.one_mul, ← product]
    exact ⟨isWord_toInt a, isWord_toInt c, trivial⟩
  obtain ⟨w, isProduct, called⟩ := (exactIf_mul [(p, a), (q, b)]).1 fits
  have same : w = c := Int64.toInt_inj.mp (by simp [isProduct, product, values])
  exact same ▸ called

section Refused

variable {args : List Node}

theorem refuses_add (noFloat : ∀ a ∈ args, ∀ p x, a ≠ .number p (.float x))
    (someBad : ∃ a ∈ args, ¬ a.IsNumber) : add.Refuses args args .addition SumsFit := by
  obtain ⟨ns, bad, rest, rfl, isBad⟩ := exists_numbers_append noFloat someBad
  obtain ⟨stays, strays⟩ := sum_numbers .add ns (bad :: rest)
  refine ⟨ns, bad, rest, rfl, isBad, fun fits => ?_, fun unfit => value_add_of_sum (strays unfit)⟩
  obtain ⟨w, _, summed⟩ := stays fits
  exact value_add_of_sum (summed.trans (accumulate_of_not_isNumber isBad rest))

theorem refuses_mul (noFloat : ∀ a ∈ args, ∀ p x, a ≠ .number p (.float x))
    (someBad : ∃ a ∈ args, ¬ a.IsNumber) :
    mul.Refuses args args .multiplication ProductsFit := by
  obtain ⟨ns, bad, rest, rfl, isBad⟩ := exists_numbers_append noFloat someBad
  obtain ⟨stays, strays⟩ := product_numbers .mul ns (bad :: rest)
  refine ⟨ns, bad, rest, rfl, isBad, fun fits => ?_,
    fun unfit => value_mul_of_product (strays unfit)⟩
  obtain ⟨w, _, multiplied⟩ := stays fits
  exact value_mul_of_product (multiplied.trans (accumulate_of_not_isNumber isBad rest))

theorem refuses_sub {head : Node} {tail : List Node}
    (noFloat : ∀ a ∈ tail ++ [head], ∀ p x, a ≠ .number p (.float x))
    (someBad : ∃ a ∈ tail ++ [head], ¬ a.IsNumber) :
    sub.Refuses (head :: tail) (tail ++ [head]) .addition SumsFit := by
  obtain ⟨ns, bad, rest, visited, isBad⟩ := exists_numbers_append noFloat someBad
  refine ⟨ns, bad, rest, visited, isBad, ?_⟩
  rcases List.eq_nil_or_concat rest with rfl | ⟨rest, last, rfl⟩
  · -- The head is the only one that is no number: it is looked at when the tail is summed up.
    obtain ⟨rfl, same⟩ := List.append_inj' visited rfl
    obtain rfl := List.singleton_inj.mp same
    obtain ⟨stays, strays⟩ := sum_numbers .sub ns []
    rw [List.append_nil] at stays strays
    refine ⟨fun fits => ?_, fun unfit => ?_⟩
    · obtain ⟨w, _, summed⟩ := stays fits
      rw [value_sub_cons, summed]
      simp only [accumulate, List.foldlM_nil, number_of_not_isNumber .sub isBad, Bind.bind,
        Except.bind, Pure.pure, Except.pure]
    · rw [value_sub_cons, strays unfit]
      rfl
  · have inTail : tail = numbers ns ++ bad :: rest := by
      rw [List.concat_eq_append, ← List.cons_append, ← List.append_assoc] at visited
      exact (List.append_inj' visited rfl).1
    obtain ⟨stays, strays⟩ := sum_numbers .sub ns (bad :: rest)
    rw [← inTail] at stays strays
    refine ⟨fun fits => ?_, fun unfit => ?_⟩
    · obtain ⟨w, _, summed⟩ := stays fits
      rw [value_sub_cons, summed, accumulate_of_not_isNumber isBad rest]
      rfl
    · rw [value_sub_cons, strays unfit]
      rfl

end Refused

/-- Sums, products and differences of integers are exact or refused. A sum and a product are
exact if every partial one has 64 bits, a difference if every partial sum of the subtrahends has
and the difference itself. With arguments among them that are no numbers, and no doubles, a call
always fails: with the mismatch of the first of these in the order in which the arguments are
visited, for a difference the tail in front of the head, unless the integers in front of it
overflow. -/
theorem integers_exact_or_refused :
    (∀ ns : List (Place × Int64),
      add.ExactIf (numbers ns) (SumsFit (values ns)) (values ns).sum ∧
      mul.ExactIf (numbers ns) (ProductsFit (values ns)) (values ns).prod ∧
      ∀ p x, sub.ExactIf (.number p (.int x) :: numbers ns)
        (SumsFit (values ns) ∧ IsWord (x.toInt - (values ns).sum))
        (x.toInt - (values ns).sum)) ∧
    ∀ args : List Node, (∀ a ∈ args, ∀ p x, a ≠ .number p (.float x)) →
      (∃ a ∈ args, ¬ a.IsNumber) →
        add.Refuses args args .addition SumsFit ∧
        mul.Refuses args args .multiplication ProductsFit ∧
        ∀ head tail, args = head :: tail →
          sub.Refuses args (tail ++ [head]) .addition SumsFit := by
  constructor
  · exact fun ns => ⟨exactIf_add ns, exactIf_mul ns, fun p x => exactIf_sub p x ns⟩
  · intro args noFloat someBad
    refine ⟨refuses_add noFloat someBad, refuses_mul noFloat someBad, ?_⟩
    rintro head tail rfl
    have sameArgs (a : Node) : a ∈ tail ++ [head] ↔ a ∈ head :: tail := by
      rw [List.mem_append, List.mem_singleton, List.mem_cons, or_comm]
    apply refuses_sub
    · exact fun a mem => noFloat a ((sameArgs a).mp mem)
    · obtain ⟨a, mem, bad⟩ := someBad
      exact ⟨a, (sameArgs a).mpr mem, bad⟩

/-- An exact difference, and one whose tail overflows before its head is found to be no number. -/
theorem overflow_in_tail :
    let text : Node := .text .computed "a"
    let number (n : Int64) : Node := .number .computed (.int n)
    (∃ w : Int64, w.toInt = 6 ∧ sub.value [number 10, number 1, number 3] =
        .ok (numeric (.int w))) ∧
      sub.Refuses [text, number Int64.maxValue, number 1]
        [number Int64.maxValue, number 1, text] .addition SumsFit ∧
      sub.value [text, number Int64.maxValue, number 1] = .error (overflow .addition) := by
  intro text number
  have fits : SumsFit [1, 3] := (stays_add_iff _).mp ⟨by decide, by decide, trivial⟩
  have exact := ((integers_exact_or_refused.1 [(.computed, 1), (.computed, 3)]).2.2 .computed 10).1
  have noFloat : ∀ a ∈ [text, number Int64.maxValue, number 1], ∀ p x,
      a ≠ .number p (.float x) := by
    simp [text, number]
  have isBad : ¬ text.IsNumber := fun ⟨_, _, same⟩ => nomatch same
  have refused := integers_exact_or_refused.2 _ noFloat ⟨text, List.mem_cons_self, isBad⟩
  exact ⟨exact ⟨fits, by decide⟩, refused.2.2 _ _ rfl, rfl⟩

end Operation

end Sexpr
