/-
A loop that counts, step by step.

The program binds a counter to zero, adds one to it in each round of a loop until it is equal to
a given number, and gives the counter. Seven steps lead to the loop, each round that goes on
takes thirteen, the round that leaves takes nine, and looking up the counter is the last one
(`Interpreter.costs_counting`). So a budget of as many steps is enough, and a smaller one is not.
Main statement: `Interpreter.eval_counting`.
-/

import Sexpr.Proofs.Operation.Overflow
import Sexpr.Proofs.Reading.RoundTrip
import Sexpr.Proofs.Run.Costs
import Sexpr.Proofs.Run.Places

namespace Sexpr

/-! ### Programs that were read nowhere -/

namespace Node

abbrev name (x : String) : Node :=
  .symbol .computed x

abbrev int (n : Int64) : Node :=
  .number .computed (.int n)

/-- The call of what a name stands for. -/
abbrev app (x : String) (operands : List Node) : Node :=
  .call .computed (name x :: operands)

end Node

open Node (name int app)

namespace Interpreter

open Run (Costs)

variable {i : Interpreter} {frame : FrameId} {depth fuel m : Nat} {s t : Store}

/-- Adding one to a counter takes six steps. -/
theorem costs_increment {x : String} {c d : Int64} (sees : s.Sees frame)
    (room : depth + 2 < i.limits.depth) (bound : s.find? frame x = some (int c))
    (next : d.toInt = c.toInt + 1) :
    Costs i.limits (i.evalAt (fuel + 3) (app "setn" [name x, app "+" [name x, int 1]]) frame depth)
      s 6 (.ok (int d)) (s.define frame x (int d)) := by
  have values : Costs i.limits (evalAll (i.evalAt (fuel + 1)) frame (depth + 2) [name x, int 1]) s 2
      (.ok [int c, int 1]) s :=
    costs_evalAll_pair (costs_symbol room bound _) (costs_constant room rfl)
  have sum : Costs i.limits (i.evalAt (fuel + 2) (app "+" [name x, int 1]) frame (depth + 1)) s 4
      (.ok (int d)) s :=
    costs_operation sees room .add values rfl (Operation.value_add next) rfl
  exact costs_bind sees (by omega) sum

/-- A loop is left on a condition that holds. -/
theorem costs_leave_if {condition value : Node} (sees : s.Sees frame) (sees' : t.Sees frame)
    (room : depth + 2 < i.limits.depth)
    (tested : Costs i.limits (i.evalAt (fuel + 2) condition frame (depth + 1)) s m (.ok value) t)
    (holds : value.isTruthy = true) :
    Costs i.limits (i.evalAt (fuel + 3) (app "if" [condition, app "break" []]) frame depth) s
      (m + 4) (.error { control := .leaveLoop none, origin := .computed }) t := by
  have left : Costs i.limits (i.evalAt (fuel + 2) (app "break" []) frame (depth + 1)) t 2
      (.error { control := .leaveLoop none, origin := .computed }) t :=
    costs_leaveLoop sees' (by omega)
  exact costs_branch sees (by omega) tested holds left

end Interpreter

/-! ### The program -/

/-- Leaves the loop if the counter has come to `k`, and else adds one to it. -/
def countingRound (k : Int64) : List Node := [
  app "if" [app "=" [name "count", int k], app "break" []],
  app "setn" [name "count", app "+" [name "count", int 1]]]

/-- Counts to `k` from zero. -/
def counting (k : Int64) : Node :=
  app "do" [app "setn" [name "count", int 0], app "loop" (countingRound k), name "count"]

example : (counting 10).print =
    "(do (setn count 0) (loop (if (= count 10) (break)) (setn count (+ count 1))) count)" := by
  decide +kernel

/-- The loop has been gone around `rounds` times. -/
structure Counted (rounds : Nat) (s : Store) : Prop where
  inUse : Store.root < s.frames.size
  sees : s.Sees Store.root
  count : ∃ c : Int64, c.toInt = rounds ∧ s.find? Store.root "count" = some (int c)

namespace Interpreter

open Run (Costs costs_pure)

variable {i : Interpreter} {fuel rounds : Nat} {s : Store} {k : Int64}

theorem counted_define {c : Int64} (inUse : Store.root < s.frames.size) (sees : s.Sees Store.root)
    (isCount : c.toInt = rounds) : Counted rounds (s.define Store.root "count" (int c)) where
  inUse := by rwa [Store.size_define]
  sees := sees.define Store.root (by decide) (int c)
  count := ⟨c, isCount, Store.find?_define_self inUse "count" (int c)⟩

/-- Comparing the counter takes four steps. -/
theorem costs_compare (room : 5 ≤ i.limits.depth) {c : Int64} (sees : s.Sees Store.root)
    (bound : s.find? Store.root "count" = some (int c)) :
    Costs i.limits (i.evalAt (fuel + 2) (app "=" [name "count", int k]) Store.root 3) s 4
      (.ok (.ofBool .computed (c == k))) s := by
  have values : Costs i.limits (evalAll (i.evalAt (fuel + 1)) Store.root 4 [name "count", int k]) s
      2 (.ok [int c, int k]) s :=
    costs_evalAll_pair (costs_symbol (by omega) bound _) (costs_constant (by omega) rfl)
  exact costs_operation sees (by omega) .equal values rfl rfl rfl

/-- The call of the loop. -/
def countingLoop (i : Interpreter) (fuel : Nat) : Call :=
  ⟨.computed, Store.root, 1, i.limits, fuel + 3, i.evalAt (fuel + 3)⟩

/-- A round that goes on takes twelve steps, beside the one for going around. -/
theorem costs_round (room : 5 ≤ i.limits.depth) (counted : Counted rounds s)
    (before : (rounds : Int) < k.toInt) :
    ∃ t, Counted (rounds + 1) t ∧
      Costs i.limits ((countingLoop i fuel).runAll (countingRound k)) s 12 (.ok ()) t := by
  obtain ⟨c, isCount, bound⟩ := counted.count
  obtain ⟨d, next⟩ : ∃ d : Int64, d.toInt = c.toInt + 1 := by
    have range := k.toInt_lt
    exact ⟨_, Int64.toInt_ofInt_of_le (by omega) (by omega)⟩
  have unequal : (c == k) = false := by
    rw [beq_eq_false_iff_ne]
    rintro rfl
    omega
  have test : Costs i.limits (i.evalAt (fuel + 3)
      (app "if" [app "=" [name "count", int k], app "break" []]) Store.root 2) s 6
      (.ok (.nil .computed)) s := by
    refine costs_branch_of_false counted.sees (by omega)
      (costs_compare room counted.sees bound) ?_ _
    rw [Node.isTruthy_ofBool, unequal]
  have increment : Costs i.limits (i.evalAt (fuel + 3)
      (app "setn" [name "count", app "+" [name "count", int 1]]) Store.root 2) s 6
      (.ok (int d)) _ :=
    costs_increment counted.sees (by omega) bound next
  have arrived : d.toInt = (rounds + 1 : Nat) := by omega
  refine ⟨_, counted_define counted.inUse counted.sees arrived, ?_⟩
  exact test.bind (increment.bind_pure fun _ => ()) rfl

/-- The round that leaves the loop takes eight steps, beside the one for going around. -/
theorem costs_lastRound (room : 5 ≤ i.limits.depth) (counted : Counted rounds s)
    (arrived : k.toInt = rounds) :
    Costs i.limits ((countingLoop i fuel).runAll (countingRound k)) s 8
      (.error { control := .leaveLoop none, origin := .computed }) s := by
  obtain ⟨c, isCount, bound⟩ := counted.count
  have equal : (c == k) = true := beq_iff_eq.mpr (Int64.toInt_inj.mp (isCount.trans arrived.symm))
  have holds : (Node.ofBool .computed (c == k)).isTruthy = true :=
    (Node.isTruthy_ofBool _ _).trans equal
  have test : Costs i.limits (i.evalAt (fuel + 3)
      (app "if" [app "=" [name "count", int k], app "break" []]) Store.root 2) s 8 _ s :=
    costs_leave_if counted.sees counted.sees (by omega)
      (costs_compare room counted.sees bound) holds
  exact test.bind_error

/-- Counting to `k` takes thirteen steps for each round and seventeen more. -/
theorem costs_counting (room : 5 ≤ i.limits.depth) (inUse : Store.root < s.frames.size)
    (sees : s.Sees Store.root) (isCount : k.toInt = rounds) (enough : rounds ≤ fuel) :
    ∃ t, Costs i.limits (i.evalAt (fuel + 5) (counting k) Store.root 0) s (13 * rounds + 17)
      (.ok (int k)) t := by
  have start : Costs i.limits
      (i.evalAt (fuel + 4) (app "setn" [name "count", int 0]) Store.root 1) s 3
      (.ok (int 0)) (s.define Store.root "count" (int 0)) :=
    costs_bind sees (by omega) (costs_constant (by omega) rfl)
  have fresh : Counted 0 (s.define Store.root "count" (int 0)) := counted_define inUse sees rfl
  obtain ⟨t, counted, looped⟩ := Call.costs_iterate (c := countingLoop i fuel)
    (fun done before s (counted : Counted done s) => costs_round room counted (by omega))
    (fun s counted => costs_lastRound room counted isCount) rfl
    (by omega : rounds < fuel + 3) fresh
  have loop : Costs i.limits (i.evalAt (fuel + 4) (app "loop" (countingRound k)) Store.root 1) _
      _ _ t := costs_loop fresh.sees (by omega) Nat.zero_lt_two looped
  obtain ⟨c, isLast, bound⟩ := counted.count
  obtain rfl : c = k := Int64.toInt_inj.mp (isLast.trans isCount.symm)
  have last : Costs i.limits (i.evalAt (fuel + 4) (name "count") Store.root 1) t 1
      (.ok (int c)) t :=
    costs_symbol (by omega) bound .computed
  refine ⟨t, costs_sequence (m := 13 * rounds + 15) sees (by omega) ?_⟩
  refine start.bind (n := 13 * rounds + 12) ?_ (by omega)
  refine loop.bind (n := 1) ?_ (by omega)
  exact last.bind (costs_pure (int c)) rfl

/-- The program is read from its text. Wherever it was read, in a global frame in which nothing
has happened it gives the number that it counts to: in exactly thirteen steps for each round and
seventeen more if the budget allows that, or if there is none, and a smaller budget is
exhausted. -/
theorem eval_counting (serial fuel : Nat) (k : Int64) (natural : 0 ≤ k.toInt)
    (enough : k.toInt.toNat + 5 ≤ fuel) :
    let cost := 13 * k.toInt.toNat + 17
    let w : World := { store := .global serial }
    let run (budget : Option Nat) (node : Node) : Run Node :=
      Interpreter.eval { limits := { budget } } fuel Store.root node
    (∀ (settings : ReadSettings) (label : String), 4 < settings.depth →
      ∃ node, readOne settings label (counting k).print = .ok node ∧ node.unplaced = counting k) ∧
    ∀ node, node.unplaced = counting k →
      (∀ budget, cost ≤ budget →
        ∃ p w', run (some budget) node w = .ok (.number p (.int k)) w' ∧ w'.steps = cost) ∧
      (∀ budget < cost, (run (some budget) node).raises (.budgetExhausted budget) w = true) ∧
      ∃ p w', run none node w = .ok (.number p (.int k)) w' ∧ w'.steps = cost := by
  intro cost w run
  have isCount : k.toInt = k.toInt.toNat := (Int.toNat_of_nonneg natural).symm
  obtain ⟨fuel, rfl⟩ : ∃ n, fuel = n + 5 := ⟨fuel - 5, by omega⟩
  refine ⟨fun settings label room => ?_, fun node spelled => ?_⟩
  · exact readOne_print (n := counting k) rfl room label
  have counted (budget : Option Nat) : ∃ t, Costs { budget } (run budget (counting k))
      (.global serial) cost (.ok (int k)) t :=
    costs_counting (i := { limits := { budget } }) (by decide : 5 ≤ 256)
      (Store.root_lt_size_global serial) (Store.sees_global serial) isCount (by omega)
  have erased (budget : Option Nat) :
      Run.unplaced (run budget node w) = Run.unplaced (run budget (counting k) w) :=
    erased_evalAt FrameInfo.inherited_id (by simp) spelled rfl Store.root 0 _
  have ends (budget : Option Nat) (allowed : ∀ b, budget = some b → cost ≤ b) :
      ∃ p w', run budget node w = .ok (.number p (.int k)) w' ∧ w'.steps = cost := by
    obtain ⟨t, costs⟩ := counted budget
    have ended : run budget (counting k) w = .ok (int k) ⟨t, 0 + cost, ""⟩ :=
      costs.ends 0 "" (by rwa [Nat.zero_add])
    have same := erased budget
    rw [ended] at same
    obtain ⟨value, w', ended', values, worlds⟩ := Run.ok_of_erased same
    have steps : w'.steps = 0 + cost := (World.mk.inj worlds).2.1
    cases value <;> simp [Node.unplaced] at values
    case number p n => exact ⟨p, w', values ▸ ended', steps.trans (Nat.zero_add cost)⟩
  refine ⟨fun budget le => ends (some budget) fun b same => ?_, fun budget lt => ?_,
    ends none fun b same => nomatch same⟩
  · exact Option.some.inj same ▸ le
  · obtain ⟨t, costs⟩ := counted (some budget)
    rw [Run.raises_eq_of_erased (erased (some budget))]
    exact costs.exhausts 0 "" budget rfl (Nat.zero_le budget) (by rwa [Nat.zero_add])

/-- Counting to two takes 43 steps. -/
theorem eval_counting_two :
    let w : World := { store := .global 0 }
    let run (budget : Option Nat) (node : Node) : Run Node :=
      Interpreter.eval { limits := { budget } } 7 Store.root node
    ∃ node, readOne {} "count" (counting 2).print = .ok node ∧
      (∃ p w', run (some 43) node w = .ok (.number p (.int 2)) w' ∧ w'.steps = 43) ∧
      (run (some 42) node).raises (.budgetExhausted 42) w = true := by
  intro w run
  obtain ⟨reads, counts⟩ := eval_counting 0 7 2 (by decide) (by decide)
  obtain ⟨node, isRead, spelled⟩ := reads {} "count" (by decide)
  obtain ⟨ends, exhausts, _⟩ := counts node spelled
  exact ⟨node, isRead, ends 43 (by decide), exhausts 42 (by decide)⟩

end Interpreter

end Sexpr
