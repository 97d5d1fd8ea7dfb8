/-
Slices and positions.

The bounds of a slice are moved into the vector, where negative ones count from the end
(`Operation.IsBound`), and between them every `step`-th item is taken (`Operation.Picks`). An
index names a position, or there is no result (`Operation.position_eq_ok_iff`). What slices,
positions and removal say about one vector fits together: `Operation.slices_and_positions`.
-/

import Sexpr.Operation.Value
import Sexpr.Proofs.Node.Data

namespace Sexpr

/-- An integer as an argument. -/
abbrev Node.ofInt (p : Place) (n : Int64) : Node :=
  .number p (.int n)

namespace Operation

/-! ### Taking every `step`-th item -/

section Stride

variable {α : Type} {step : Nat}

theorem getElem?_stride (positive : 1 ≤ step) (skip : Nat) (xs : List α) (k : Nat) :
    (stride step skip xs)[k]? = xs[skip + k * step]? := by
  fun_induction stride step skip xs generalizing k with
  | case1 => rw [List.getElem?_nil, List.getElem?_nil]
  | case2 x xs ih =>
    cases k with
    | zero => rw [Nat.zero_mul]; rfl
    | succ k =>
      have further : 0 + (k + 1) * step = step - 1 + k * step + 1 := by
        rw [Nat.succ_mul]
        omega
      rw [further, List.getElem?_cons_succ, List.getElem?_cons_succ, ih]
  | case3 skip x xs ih =>
    have further : skip + 1 + k * step = skip + k * step + 1 := by omega
    rw [further, List.getElem?_cons_succ, ih]

/-- `picked` is what `items` has at `start`, `start + step`, `start + 2 * step` and so on, as
long as this is below `stop`. -/
def Picks (items : List α) (start stop step : Nat) (picked : List α) : Prop :=
  ∀ k, picked[k]? = if start + k * step < stop then items[start + k * step]? else none

theorem picks_cut (positive : 1 ≤ step) (start stop : Nat) (items : List α) :
    Picks items start stop step (cut start stop step items) := by
  intro k
  rw [cut, getElem?_stride positive, List.getElem?_take, List.getElem?_drop, Nat.zero_add]
  have sameRange : k * step < stop - start ↔ start + k * step < stop := by omega
  simp only [sameRange]

theorem stride_one (xs : List α) : stride 1 0 xs = xs := by
  apply List.ext_getElem?
  intro k
  rw [getElem?_stride (Nat.le_refl 1), Nat.zero_add, Nat.mul_one]

theorem cut_one (start stop : Nat) (items : List α) :
    cut start stop 1 items = (items.drop start).take (stop - start) :=
  stride_one _

/-- From the front up to a position. -/
theorem cut_front (stop : Nat) (items : List α) : cut 0 stop 1 items = items.take stop := by
  rw [cut_one, List.drop_zero, Nat.sub_zero]

/-- From a position up to the end. -/
theorem cut_back (start : Nat) (items : List α) :
    cut start items.length 1 items = items.drop start := by
  rw [cut_one, ← List.length_drop, List.take_length]

end Stride

/-! ### Bounds and positions -/

/-- The position in a vector of length `len` that a bound is moved to. A negative bound counts
from the end, and one beyond either end is moved to that end. -/
def IsBound (len : Nat) (bound : Int) (a : Nat) : Prop :=
  (a : Int) = max 0 (min (len : Int) (if bound < 0 then bound + len else bound))

instance (len : Nat) (bound : Int) (a : Nat) : Decidable (IsBound len bound a) :=
  inferInstanceAs (Decidable ((a : Int) = _))

theorem clamp_eq_iff {len : Nat} {bound : Int} {a : Nat} :
    clamp len bound = a ↔ IsBound len bound a := by
  unfold clamp IsBound
  generalize (if bound < 0 then bound + (len : Int) else bound) = moved
  omega

/-- A bound that is a position, or the length, stays where it is. -/
theorem clamp_of_le {len a : Nat} {bound : Int} (isPosition : bound = a) (within : a ≤ len) :
    clamp len bound = a := by
  unfold clamp
  rw [if_neg (by omega)]
  omega

/-- The position that an index names; a negative index counts from the end. -/
def resolve (len : Nat) (index : Int) : Int :=
  if index < 0 then index + len else index

theorem resolve_of_nat {len k : Nat} {index : Int} (isNat : index = k) :
    resolve len index = k := by
  unfold resolve
  rw [if_neg (by omega), isNat]

/-- An index has a position exactly if it names one. -/
theorem position_eq_ok_iff {op : Operation} {len k : Nat} {q : Place} {i : Int64} :
    op.position len (.ofInt q i) = .ok k ↔ k < len ∧ resolve len i.toInt = k := by
  simp only [position, integer, resolve, Bind.bind, Except.bind, Pure.pure, Except.pure]
  generalize (if i.toInt < 0 then i.toInt + (len : Int) else i.toInt) = named
  split
  · rename_i inside
    rw [Except.ok.injEq]
    omega
  · rename_i outside
    constructor
    · exact fun h => nomatch h
    · rintro ⟨inside, rfl⟩
      exact absurd ⟨Int.natCast_nonneg k, Int.ofNat_lt.mpr inside⟩ outside

/-- Indices from `-len` up to, but not including, `len` name positions. -/
theorem exists_resolve_iff {len : Nat} {index : Int} :
    (∃ k, k < len ∧ resolve len index = k) ↔ -(len : Int) ≤ index ∧ index < len := by
  unfold resolve
  constructor
  · rintro ⟨k, inside, named⟩
    split at named <;> omega
  · intro within
    refine ⟨(if index < 0 then index + (len : Int) else index).toNat, ?_⟩
    split <;> omega

/-! ### Operations on vectors -/

section Values

variable {items : List Node} {p q r s t : Place}

theorem value_slice (start stop : Int64) :
    slice.value [.vector p items, .ofInt q start, .ofInt r stop] =
      .ok (row (cut (clamp items.length start.toInt) (clamp items.length stop.toInt) 1 items)) :=
  rfl

theorem value_slice_step (start stop step : Int64) :
    slice.value [.vector p items, .ofInt q start, .ofInt r stop, .ofInt t step] =
      (do return row (cut (clamp items.length start.toInt) (clamp items.length stop.toInt)
        (← positiveStep step.toInt) items)) :=
  rfl

theorem value_slice_front {i : Int64} {k : Nat} (isPosition : clamp items.length i.toInt = k) :
    slice.value [.vector p items, .ofInt q 0, .ofInt r i] = .ok (row (items.take k)) := by
  have zero : clamp items.length (0 : Int64).toInt = 0 := clamp_of_le rfl (Nat.zero_le _)
  rw [value_slice, isPosition, zero, cut_front]

theorem value_slice_back {i len : Int64} {k : Nat} (isPosition : clamp items.length i.toInt = k)
    (isLength : len.toInt = items.length) :
    slice.value [.vector p items, .ofInt q i, .ofInt r len] = .ok (row (items.drop k)) := by
  have all : clamp items.length len.toInt = items.length := clamp_of_le isLength (Nat.le_refl _)
  rw [value_slice, isPosition, all, cut_back]

theorem value_merge (front back : List Node) :
    merge.value [.vector p front, .vector q back] = .ok (row (front ++ back)) := by
  show Except.ok (row [front, back].flatten) = _
  rw [List.flatten_cons, List.flatten_singleton]

theorem value_cons (first : Node) :
    cons.value [first, .vector p items] = .ok (row (first :: items)) :=
  rfl

theorem value_index_eq (i : Node) :
    index.value [i, .vector p items] = (do
      return (items.getD (← position .index items.length i) (.nil .computed)).moveTo .computed) :=
  rfl

theorem value_index_of_resolve {i : Int64} {k : Nat} (inside : k < items.length)
    (named : resolve items.length i.toInt = k) :
    index.value [.ofInt q i, .vector p items] = .ok (items[k].moveTo .computed) := by
  have isItem : items.getD k (.nil .computed) = items[k] := by
    simp [List.getD_eq_getElem?_getD, inside]
  rw [value_index_eq, position_eq_ok_iff.mpr ⟨inside, named⟩, ← isItem]
  rfl

/-- An index that is not negative counts from the front. -/
theorem value_index {i : Int64} {k : Nat} (counted : i.toInt = k) (inside : k < items.length) :
    index.value [.ofInt q i, .vector p items] = .ok (items[k].moveTo .computed) :=
  value_index_of_resolve inside (resolve_of_nat counted)

theorem value_remove_eq (i : Node) :
    remove.value [i, .vector p items] = (do
      return row (items.eraseIdx (← position .remove items.length i))) :=
  rfl

theorem value_remove_of_resolve {i : Int64} {k : Nat} (inside : k < items.length)
    (named : resolve items.length i.toInt = k) :
    remove.value [.ofInt q i, .vector p items] = .ok (row (items.eraseIdx k)) := by
  rw [value_remove_eq, position_eq_ok_iff.mpr ⟨inside, named⟩]
  rfl

/-- A result that a position is needed for is there exactly if the index names one. -/
theorem exists_ok_iff_of_position {α β : Type} {x : Except Fault α} {f : α → β} :
    (∃ b, (do return f (← x)) = Except.ok b) ↔ ∃ a, x = .ok a := by
  cases x with
  | ok a => exact ⟨fun _ => ⟨a, rfl⟩, fun _ => ⟨f a, rfl⟩⟩
  | error fault =>
    constructor
    · rintro ⟨_, h⟩
      cases h
    · rintro ⟨_, h⟩
      cases h

theorem exists_value_index_iff {i : Int64} :
    (∃ n, index.value [.ofInt q i, .vector p items] = .ok n) ↔
      -(items.length : Int) ≤ i.toInt ∧ i.toInt < items.length := by
  rw [← exists_resolve_iff]
  exact exists_ok_iff_of_position.trans (exists_congr fun _ => position_eq_ok_iff)

theorem exists_value_remove_iff {i : Int64} :
    (∃ n, remove.value [.ofInt q i, .vector p items] = .ok n) ↔
      -(items.length : Int) ≤ i.toInt ∧ i.toInt < items.length := by
  rw [← exists_resolve_iff]
  exact exists_ok_iff_of_position.trans (exists_congr fun _ => position_eq_ok_iff)

end Values

theorem positiveStep_of_pos {step : Int} (positive : 1 ≤ step) :
    positiveStep step = .ok step.toNat :=
  if_pos positive

theorem positiveStep_of_le_zero {step : Int} (h : step ≤ 0) :
    positiveStep step = .error (.failure .step) :=
  if_neg (Int.not_lt.mpr h)

/-- What is in front of a position, the item there and what is behind it are the vector, but for
the place of the item. -/
theorem unplaced_rejoined {items : List Node} {k : Nat} (inside : k < items.length) (p q : Place) :
    (row (items.take k ++ items[k].moveTo q :: items.drop (k + 1))).unplaced =
      (Node.vector p items).unplaced := by
  have split : items.take k ++ items[k] :: items.drop (k + 1) = items := by
    rw [List.getElem_cons_drop, List.take_append_drop]
  calc (row (items.take k ++ items[k].moveTo q :: items.drop (k + 1))).unplaced
      = .vector .computed (Node.unplacedAll (items.take k ++ items[k] :: items.drop (k + 1))) := by
        simp only [row, Node.unplaced, Node.unplacedAll_append, Node.unplacedAll,
          Node.unplaced_moveTo]
    _ = (Node.vector p items).unplaced := by rw [split, Node.unplaced]

/-- For every vector and all 64-bit integers: a slice is what the vector has at every `step`-th
position between its bounds, the step is one if there is none, and has to be positive. The
slices up to a bound and from it on are the vector. An index has an item, and can be removed,
exactly from `-length` up to `length`; they are those of the position that it names. The slices
in front of that position and behind it are what removal leaves, and with the item between them
they are the vector. -/
theorem slices_and_positions (p : Place) (items : List Node) :
    (∀ (q r t : Place) (start stop step : Int64) (a b : Nat),
      IsBound items.length start.toInt a → IsBound items.length stop.toInt b →
        (1 ≤ step.toInt → ∃ picked,
          slice.value [.vector p items, .ofInt q start, .ofInt r stop, .ofInt t step] =
            .ok (row picked) ∧
          Picks items a b step.toInt.toNat picked) ∧
        slice.value [.vector p items, .ofInt q start, .ofInt r stop] =
          slice.value [.vector p items, .ofInt q start, .ofInt r stop, .ofInt t 1] ∧
        (step.toInt ≤ 0 →
          slice.value [.vector p items, .ofInt q start, .ofInt r stop, .ofInt t step] =
            .error (.failure .step))) ∧
    (∀ (q r s t : Place) (i len : Int64), len.toInt = items.length → ∃ front back,
      slice.value [.vector p items, .ofInt q 0, .ofInt r i] = .ok front ∧
      slice.value [.vector p items, .ofInt s i, .ofInt t len] = .ok back ∧
      merge.value [front, back] = .ok (row items)) ∧
    ∀ (q : Place) (i : Int64),
      ((∃ n, index.value [.ofInt q i, .vector p items] = .ok n) ↔
        -(items.length : Int) ≤ i.toInt ∧ i.toInt < items.length) ∧
      ((∃ n, remove.value [.ofInt q i, .vector p items] = .ok n) ↔
        -(items.length : Int) ≤ i.toInt ∧ i.toInt < items.length) ∧
      ∀ (k : Nat) (inside : k < items.length), resolve items.length i.toInt = k →
        index.value [.ofInt q i, .vector p items] = .ok (items[k].moveTo .computed) ∧
        remove.value [.ofInt q i, .vector p items] = .ok (row (items.eraseIdx k)) ∧
        ∀ (r s t : Place) (j next len : Int64), j.toInt = k → next.toInt = k + 1 →
          len.toInt = items.length → ∃ front item back tail whole,
            slice.value [.vector p items, .ofInt r 0, .ofInt s j] = .ok front ∧
            index.value [.ofInt s j, .vector p items] = .ok item ∧
            slice.value [.vector p items, .ofInt s next, .ofInt t len] = .ok back ∧
            cons.value [item, back] = .ok tail ∧
            merge.value [front, tail] = .ok whole ∧
            whole.unplaced = (Node.vector p items).unplaced ∧
            merge.value [front, back] = remove.value [.ofInt q i, .vector p items] := by
  refine ⟨?_, ?_, ?_⟩
  · intro q r t start stop step a b isStart isStop
    refine ⟨fun positive => ?_, rfl, fun h => ?_⟩
    · have positive' : 1 ≤ step.toInt.toNat := by omega
      refine ⟨_, ?_, picks_cut positive' a b items⟩
      rw [value_slice_step, positiveStep_of_pos positive, clamp_eq_iff.mpr isStart,
        clamp_eq_iff.mpr isStop]
      rfl
    · rw [value_slice_step, positiveStep_of_le_zero h]
      rfl
  · intro q r s t i len isLength
    refine ⟨_, _, value_slice_front rfl, value_slice_back rfl isLength, ?_⟩
    rw [row, row, value_merge, List.take_append_drop]
  · intro q i
    refine ⟨exists_value_index_iff, exists_value_remove_iff, fun k inside named => ?_⟩
    have removed := value_remove_of_resolve (p := p) (q := q) inside named
    refine ⟨value_index_of_resolve inside named, removed, ?_⟩
    intro r s t j next len isPosition isNext isLength
    have front : clamp items.length j.toInt = k := clamp_of_le isPosition (Nat.le_of_lt inside)
    have back : clamp items.length next.toInt = k + 1 := clamp_of_le isNext inside
    refine ⟨_, _, _, _, _, value_slice_front front,
      value_index_of_resolve inside (resolve_of_nat isPosition), value_slice_back back isLength,
      value_cons _, value_merge _ _, unplaced_rejoined inside p .computed, ?_⟩
    rw [row, row, value_merge, removed, List.eraseIdx_eq_take_drop_succ]

/-- A slice with a start that counts from the end, and the last item taken apart and put back. -/
theorem last_rejoined :
    let items : List Node := [.ofInt .computed 7, .ofInt .computed 8, .ofInt .computed 9]
    let v : Node := .vector .computed items
    (∃ picked,
      slice.value [v, .ofInt .computed (-3), .ofInt .computed 100, .ofInt .computed 2] =
        .ok (row picked) ∧ Picks items 0 3 2 picked) ∧
    ∃ front back tail whole,
      slice.value [v, .ofInt .computed 0, .ofInt .computed 2] = .ok front ∧
      slice.value [v, .ofInt .computed 3, .ofInt .computed 3] = .ok back ∧
      cons.value [.ofInt .computed 9, back] = .ok tail ∧
      merge.value [front, tail] = .ok whole ∧ whole.unplaced = v.unplaced ∧
      merge.value [front, back] = remove.value [.ofInt .computed (-1), v] := by
  intro items v
  obtain ⟨slices, _, positions⟩ := slices_and_positions .computed items
  have sliced := slices .computed .computed .computed (-3) 100 2 0 3 (by decide) (by decide)
  obtain ⟨_, _, named⟩ := positions .computed (-1)
  have rejoined := (named 2 (by decide) (by decide)).2.2 .computed .computed .computed 2 3 3
    (by decide) (by decide) (by decide)
  obtain ⟨front, item, back, tail, whole, isFront, isItem, isBack, isTail, isWhole⟩ := rejoined
  have last : item = .ofInt .computed 9 := (Except.ok.inj isItem).symm
  rw [last] at isTail
  exact ⟨sliced.1 (by decide), front, back, tail, whole, isFront, isBack, isTail, isWhole⟩

end Operation

end Sexpr
