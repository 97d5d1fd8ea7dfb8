/-
Operations never reach beyond what they are given.

`Operation.body` is what an operation computes if it takes arguments, items, ranges and
pairs by position and trusts that they are there; a position that is out of range leaves
it without any answer, not even a fault. Main statement: `Operation.body_eq`, with
arguments in a number that the arity accepts, every position is in range, and the answer
is that of `Operation.value`.
-/

import Sexpr.Operation.Value

namespace Sexpr

/-- A computation that has no answer at all once a position is out of range. -/
abbrev Checked := ExceptT Fault Option

namespace Checked

variable {α β : Type}

/-- No answer. -/
def outOfRange : Checked α :=
  ExceptT.mk none

/-- The item at a position that is trusted to be there. -/
def item (as : List α) (i : Nat) : Checked α :=
  match as[i]? with
  | some a => return a
  | none => outOfRange

/-- The items between two positions that are trusted to be in order and there. -/
def range (as : List α) (start stop : Nat) : Checked (List α) :=
  if start ≤ stop ∧ stop ≤ as.length then return (as.drop start).take (stop - start)
  else outOfRange

/-- All items but the one at a position that is trusted to be there. -/
def removeAt (as : List α) (i : Nat) : Checked (List α) :=
  if i < as.length then return as.eraseIdx i else outOfRange

/-- The answer is that of a computation which looks for itself. -/
def Is (x : Checked α) (y : Except Fault α) : Prop :=
  x = ExceptT.mk (some y)

theorem is_pure (a : α) : Is (pure a) (.ok a) := rfl

theorem is_lift (x : Except Fault α) : Is (liftM x) x := rfl

theorem Is.bind {x : Checked α} {y : Except Fault α} {f : α → Checked β} {g : α → Except Fault β}
    (h : Is x y) (next : ∀ a, y = .ok a → Is (f a) (g a)) : Is (x >>= f) (y >>= g) := by
  subst h
  cases y with
  | ok a => exact next a rfl
  | error fault => rfl

theorem Is.map {x : Checked α} {y : Except Fault α} (f : α → β) (h : Is x y) :
    Is (f <$> x) (f <$> y) :=
  h.bind fun a _ => is_pure (f a)

theorem item_eq {as : List α} {i : Nat} (h : i < as.length) : item as i = pure as[i] := by
  simp [item, h]

theorem range_eq {as : List α} {start stop : Nat} (le : start ≤ stop) (within : stop ≤ as.length) :
    range as start stop = pure ((as.drop start).take (stop - start)) :=
  if_pos ⟨le, within⟩

theorem removeAt_eq {as : List α} {i : Nat} (h : i < as.length) :
    removeAt as i = pure (as.eraseIdx i) :=
  if_pos h

end Checked

open Checked

/-- The items two by two; one that is left over at the end is dropped. -/
def chunks {α : Type} : List α → List (List α)
  | a :: b :: rest => [a, b] :: chunks rest
  | _ => []

namespace Node

/-- Reads chunks as pairs of keys and values, by position. -/
def pairsOfChunks (seen : List String) : List (List Node) → Checked (Option (Table Node))
  | [] => return some []
  | chunk :: chunks => do
    match ← item chunk 0 with
    | .atom _ key =>
      if key ∈ seen then throw (.duplicateKey key)
      else do
        let value ← item chunk 1
        return (← pairsOfChunks (key :: seen) chunks).map ((key, value) :: ·)
    | _ => return none

/-- The keys and values of a mapping, by position. -/
def pairsByPosition (items : List Node) : Checked (Option (Table Node)) :=
  if items.length % 2 = 1 then return none else pairsOfChunks [] (chunks items)

theorem pairsOfChunks_is (seen : List String) {items : List Node} (even : items.length % 2 = 0) :
    Is (pairsOfChunks seen (chunks items)) (pairsFrom seen items) := by
  fun_induction chunks items generalizing seen with
  | case1 key value rest ih =>
    have evenRest : rest.length % 2 = 0 := by
      simp only [List.length_cons] at even
      omega
    cases key with
    | atom p key =>
      rw [pairsFrom_cons]
      by_cases repeated : key ∈ seen
      · rw [if_pos repeated]
        exact if_pos repeated
      · rw [if_neg repeated]
        exact (if_neg repeated).trans (Is.map _ (ih (key :: seen) evenRest))
    | _ => rfl
  | case2 items notPair =>
    match items with
    | [] => rfl
    | [_] => cases even
    | key :: value :: rest => exact absurd rfl (notPair key value rest)

theorem pairsByPosition_is (items : List Node) : Is (pairsByPosition items) (pairs? items) := by
  unfold pairsByPosition pairs?
  split
  · rfl
  · exact pairsOfChunks_is [] (by omega)

end Node

namespace Operation

/-- The pairs of an operand that must be a mapping, by position. -/
def mappingByPosition (op : Operation) (n : Node) : Checked (Table Node) := do
  match ← Node.pairsByPosition (← op.vector n) with
  | some pairs => return pairs
  | none => (fail (.notMapping op.name) : Except Fault (Table Node))

/-- What an operation computes that trusts in positions. -/
def body (op : Operation) (args : List Node) : Checked Node := do
  match op with
  | .add => return numeric (← op.sum args)
  | .sub =>
    match args with
    | [] => throw (.arity op.name op.arity 0)
    | first :: rest =>
      let subtrahend ← op.sum rest
      return numeric (← arithmetic ((← op.number first).sub subtrahend))
  | .mul => return numeric (← op.product args)
  | .div =>
    match args with
    | [] => throw (.arity op.name op.arity 0)
    | first :: rest =>
      let divisor ← op.product rest
      return numeric (← arithmetic ((← op.number first).div divisor))
  | .equal => return truthValue ((← item args 0).same (← item args 1))
  | .unequal => return truthValue !((← item args 0).same (← item args 1))
  | .greater => return truthValue ((← op.order (← item args 0) (← item args 1)) == .gt)
  | .less => return truthValue ((← op.order (← item args 0) (← item args 1)) == .lt)
  | .greaterEqual => return truthValue ((← op.order (← item args 0) (← item args 1)) != .lt)
  | .lessEqual => return truthValue ((← op.order (← item args 0) (← item args 1)) != .gt)
  | .truth => return truthValue (← item args 0).isTruthy
  | .negation => return truthValue !(← item args 0).isTruthy
  | .concat => return .text .computed (String.join (← (args.mapM op.text : Except Fault _)))
  | .print => return (← item args 0).moveTo .computed
  | .putLine =>
    let _ ← op.text (← item args 0)
    return (← item args 0).moveTo .computed
  | .merge => return row (← (args.mapM op.vector : Except Fault _)).flatten
  | .slice =>
    let ns ← op.vector (← item args 0)
    let start := clamp ns.length (← op.integer (← item args 1))
    let stop := clamp ns.length (← op.integer (← item args 2))
    let step ← match args[3]? with
      | some step => do positiveStep (← op.integer step)
      | none => pure 1
    if stop ≤ start then return row []
    else return row (stride step 0 (← range ns start stop))
  | .index =>
    let ns ← op.vector (← item args 1)
    let i ← op.position ns.length (← item args 0)
    return (← item ns i).moveTo .computed
  | .remove =>
    let ns ← op.vector (← item args 1)
    return row (← removeAt ns (← op.position ns.length (← item args 0)))
  | .length =>
    match ← item args 0 with
    | .vector _ ns => return numeric (.int (Int64.ofNat ns.length))
    | .text _ s => return numeric (.int (Int64.ofNat s.length))
    | other => (op.refuse .vectorOrText other : Except Fault Node)
  | .cons =>
    let ns ← op.vector (← item args 1)
    return row ((← item args 0) :: ns)
  | .snoc =>
    let ns ← op.vector (← item args 0)
    return row (ns ++ [← item args 1])
  | .isMap => return truthValue (← Node.pairsByPosition (← op.vector (← item args 0))).isSome
  | .mapHas =>
    let pairs ← op.mappingByPosition (← item args 0)
    let key ← op.atom (← item args 1)
    return truthValue (pairs.any (·.1 = key))
  | .mapGet =>
    let pairs ← op.mappingByPosition (← item args 0)
    let key ← op.atom (← item args 1)
    match pairs.lookup key with
    | some node => return node.moveTo .computed
    | none => (fail (.missingKey key) : Except Fault Node)
  | .mapPut =>
    let pairs ← op.mappingByPosition (← item args 0)
    let key ← op.atom (← item args 1)
    return row (put key (← item args 1) (← item args 2) pairs)

variable {op : Operation}

theorem mappingByPosition_is (op : Operation) (n : Node) :
    Is (op.mappingByPosition n) (op.mapping n) := by
  apply (is_lift (op.vector n)).bind
  intro items _
  apply (Node.pairsByPosition_is items).bind
  intro pairs _
  cases pairs <;> rfl

/-- A position that an index names is in the vector. -/
theorem lt_of_position {len i : Nat} {n : Node} (h : op.position len n = .ok i) : i < len := by
  unfold position at h
  cases isInteger : op.integer n with
  | error fault =>
    rw [isInteger] at h
    cases h
  | ok index =>
    rw [isInteger] at h
    dsimp only [Bind.bind, Except.bind] at h
    generalize (if index < 0 then index + (len : Int) else index) = resolved at h
    split at h
    · rename_i within
      obtain rfl := Except.ok.inj h
      omega
    · cases h

theorem clamp_le (len : Nat) (bound : Int) : clamp len bound ≤ len := by
  unfold clamp
  omega

/-- Both ends of a slice are in the vector. -/
theorem cut_is (ns : List Node) (start stop : Int) (step : Nat) :
    Is (if clamp ns.length stop ≤ clamp ns.length start then return row []
        else return row (stride step 0 (← range ns (clamp ns.length start) (clamp ns.length stop))))
      (.ok (row (cut (clamp ns.length start) (clamp ns.length stop) step ns))) := by
  unfold cut
  split
  · rename_i empty
    rw [Nat.sub_eq_zero_of_le empty, List.take_zero]
    rfl
  · rename_i inOrder
    rw [range_eq (Nat.le_of_not_le inOrder) (clamp_le _ _)]
    rfl

theorem body_is_of_any (h : op.arity = .any) (args : List Node) :
    Is (op.body args) (op.value args) := by
  cases op <;> cases h
  case add => exact (is_lift (add.sum args)).map _
  case mul => exact (is_lift (mul.product args)).map _
  case concat => exact (is_lift (args.mapM concat.text)).map _
  case merge => exact (is_lift (args.mapM merge.vector)).map _

theorem body_is_of_atLeast_one (h : op.arity = .atLeast 1) (a : Node) (rest : List Node) :
    Is (op.body (a :: rest)) (op.value (a :: rest)) := by
  cases op <;> cases h
  case sub =>
    apply (is_lift (sub.sum rest)).bind
    intro subtrahend _
    apply (is_lift (sub.number a)).bind
    intro first _
    exact (is_lift (arithmetic (first.sub subtrahend))).map _
  case div =>
    apply (is_lift (div.product rest)).bind
    intro divisor _
    apply (is_lift (div.number a)).bind
    intro first _
    exact (is_lift (arithmetic (first.div divisor))).map _

theorem body_is_of_one (h : op.arity = .exactly 1) (a : Node) :
    Is (op.body [a]) (op.value [a]) := by
  cases op <;> cases h
  case truth => rfl
  case negation => rfl
  case print => rfl
  case putLine => cases a <;> rfl
  case length => cases a <;> rfl
  case isMap =>
    apply (is_lift (isMap.vector a)).bind
    intro items _
    exact (Node.pairsByPosition_is items).map _

theorem body_is_of_two (h : op.arity = .exactly 2) (a b : Node) :
    Is (op.body [a, b]) (op.value [a, b]) := by
  cases op <;> cases h
  case equal => rfl
  case unequal => rfl
  case greater => exact (is_lift (greater.order a b)).map _
  case less => exact (is_lift (less.order a b)).map _
  case greaterEqual => exact (is_lift (greaterEqual.order a b)).map _
  case lessEqual => exact (is_lift (lessEqual.order a b)).map _
  case index =>
    apply (is_lift (index.vector b)).bind
    intro ns _
    apply (is_lift (index.position ns.length a)).bind
    intro i named
    have inRange := lt_of_position named
    have isItem : ns.getD i (.nil .computed) = ns[i] := by
      simp [List.getD_eq_getElem?_getD, inRange]
    rw [item_eq inRange, isItem]
    rfl
  case remove =>
    apply (is_lift (remove.vector b)).bind
    intro ns _
    apply (is_lift (remove.position ns.length a)).bind
    intro i named
    rw [removeAt_eq (lt_of_position named)]
    rfl
  case cons => exact (is_lift (cons.vector b)).map _
  case snoc => exact (is_lift (snoc.vector a)).map _
  case mapHas =>
    apply (mappingByPosition_is mapHas a).bind
    intro pairs _
    exact (is_lift (mapHas.atom b)).map _
  case mapGet =>
    apply (mappingByPosition_is mapGet a).bind
    intro pairs _
    apply (is_lift (mapGet.atom b)).bind
    intro key _
    cases pairs.lookup key <;> rfl

theorem body_is_mapPut (a b c : Node) : Is (mapPut.body [a, b, c]) (mapPut.value [a, b, c]) := by
  apply (mappingByPosition_is mapPut a).bind
  intro pairs _
  exact (is_lift (mapPut.atom b)).map _

theorem body_is_slice (a b c : Node) (step : List Node) (one : step.length ≤ 1) :
    Is (slice.body (a :: b :: c :: step)) (slice.value (a :: b :: c :: step)) := by
  apply (is_lift (slice.vector a)).bind
  intro ns _
  apply (is_lift (slice.integer b)).bind
  intro start _
  apply (is_lift (slice.integer c)).bind
  intro stop _
  match step with
  | [] => exact cut_is ns start stop 1
  | [d] =>
    apply (is_lift (slice.integer d)).bind
    intro step _
    apply (is_lift (positiveStep step)).bind
    intro step _
    exact cut_is ns start stop step

/-- With arguments in a number that the arity accepts, every position is in range, and the
answer is that of the operation. -/
theorem body_eq {args : List Node} (h : op.arity.accepts args.length = true) :
    op.body args = ExceptT.mk (some (op.value args)) := by
  cases arity : op.arity with
  | any => exact body_is_of_any arity args
  | atLeast n =>
    rw [arity] at h
    obtain rfl : n = 1 := by cases op <;> cases arity <;> rfl
    match args with
    | a :: rest => exact body_is_of_atLeast_one arity a rest
  | between least most =>
    cases op <;> cases arity
    match args with
    | a :: b :: c :: step =>
      simp only [Operation.arity, Arity.accepts, List.length_cons, Bool.and_eq_true,
        decide_eq_true_eq] at h
      exact body_is_slice a b c step (by omega)
  | exactly n =>
    rw [arity] at h
    obtain rfl : args.length = n := beq_iff_eq.mp h
    match args with
    | [] => cases op <;> cases arity
    | [a] => exact body_is_of_one arity a
    | [a, b] => exact body_is_of_two arity a b
    | [a, b, c] =>
      obtain rfl : op = .mapPut := by
        cases op <;> cases arity
        rfl
      exact body_is_mapPut a b c
    | a :: b :: c :: d :: rest => cases op <;> cases arity

end Operation

end Sexpr
