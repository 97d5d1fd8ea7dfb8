/-
A budget of steps ends every run.

Whatever repeats counts steps: each evaluation counts one before it goes on, and so
does each turn of a loop. So fuel beyond what is left of the budget is never used up.
The contract `Contract.budget` follows the counter: a run in it has counted at least
`least` steps and stays within the budget, unless the budget stops it one step later.
`Advances` says that a result takes at least one step, which is what the two forms
that repeat themselves rely on. Main statement: `Interpreter.evalAt_budget`.
-/

import Sexpr.Proofs.Run.Contract

namespace Sexpr

/-- How a run with a budget stops: not for want of fuel, and one step beyond the budget
if and only if it is the budget that stops it. That no other part of the program
reports the fault of the budget is for `silent` to say. -/
structure Spent (budget least : Nat) (silent : Prop) (stop : Stop) (w : World) : Prop where
  ended : stop ≠ .outOfFuel
  least_le : least ≤ w.steps
  steps_le : w.steps ≤ budget + 1
  isExhausted : w.steps = budget + 1 → stop.isFault (.budgetExhausted budget) = true
  counted : silent → stop.isFault (.budgetExhausted budget) = true → w.steps = budget + 1

namespace Spent

variable {budget least : Nat} {silent : Prop} {stop : Stop} {w : World}

/-- Any other stop within the budget. -/
theorem of_within (ended : stop ≠ .outOfFuel) (low : least ≤ w.steps) (high : w.steps ≤ budget)
    (other : silent → stop.isFault (.budgetExhausted budget) = false) :
    Spent budget least silent stop w where
  ended := ended
  least_le := low
  steps_le := by omega
  isExhausted := fun beyond => by omega
  counted := fun quiet exhausted => by
    rw [other quiet] at exhausted
    cases exhausted

theorem mono {least' : Nat} (h : Spent budget least' silent stop w) (le : least ≤ least') :
    Spent budget least silent stop w :=
  { h with least_le := Nat.le_trans le h.least_le }

theorem through {s : Signal} (p : Place) (h : Spent budget least silent (.raised s) w) :
    Spent budget least silent (.raised (s.through p)) w := by
  have same : Stop.isFault (.budgetExhausted budget) (.raised (s.through p)) =
      Stop.isFault (.budgetExhausted budget) (.raised s) := by
    simp only [Stop.isFault, Signal.fault?_through]
  constructor
  · exact fun out => nomatch out
  · exact h.least_le
  · exact h.steps_le
  · exact fun beyond => same.trans (h.isExhausted beyond)
  · exact fun quiet exhausted => h.counted quiet (same.symm.trans exhausted)

/-- A signal that is no fault is not raised by the budget. -/
theorem within_of_fault? {s : Signal} (h : Spent budget least silent (.raised s) w)
    (noFault : s.fault? = none) : least ≤ w.steps ∧ w.steps ≤ budget := by
  refine ⟨h.least_le, Nat.le_of_not_lt fun beyond => ?_⟩
  have exhausted := h.isExhausted (Nat.le_antisymm h.steps_le beyond)
  simp [Stop.isFault, noFault] at exhausted

end Spent

/-- From `least` steps on, and within the budget. -/
def Contract.budget (budget least : Nat) (silent : Prop) : Contract where
  Code := fun _ => True
  Value := fun _ => True
  hereditary := by constructor <;> simp
  code_of_value := id
  value_of_isConstant := fun _ _ => trivial
  code_of_call := fun _ _ _ => trivial
  code_of_vector := fun _ _ _ => trivial
  value_quoted_iff := Iff.rfl
  value_closure_iff := Iff.rfl
  Good := fun w => least ≤ w.steps ∧ w.steps ≤ budget
  Ends := Spent budget least silent
  find := fun _ _ => trivial
  define := fun _ _ _ good _ => good
  push := fun _ _ good => good
  number := id
  write := fun _ good => good
  fault := fun {w fault} p good ordinary => by
    refine .of_within (fun out => nomatch out) good.1 good.2 fun _ => decide_eq_false ?_
    intro exhausted
    rw [Option.some.inj exhausted] at ordinary
    cases ordinary
  leave := fun {w s} good noFault _ =>
    .of_within (fun out => nomatch out) good.1 good.2 fun _ => by
      simp [Stop.isFault, noFault]
  through := fun p h => h.through p
  caught := fun h noFault => ⟨h.within_of_fault? noFault, trivial⟩

section

variable {α β : Type} {budget least : Nat} {silent : Prop}

/-- A result takes at least one more step. -/
def Advances (budget least : Nat) (silent : Prop) (x : Run α) : Prop :=
  ∀ w, (Contract.budget budget least silent).Good w →
    match x w with
    | .ok _ w' => (Contract.budget budget (least + 1) silent).Good w'
    | .error stop w' => Spent budget least silent stop w'

namespace Advances

theorem keeps {x : Run α} (h : Advances budget least silent x) :
    (Contract.budget budget least silent).Keeps (fun _ => True) x := by
  intro w good
  have end_ := h w good
  cases ended : x w with
  | ok a w' =>
    rw [ended] at end_
    exact ⟨⟨Nat.le_of_succ_le end_.1, end_.2⟩, trivial⟩
  | error stop w' =>
    rw [ended] at end_
    exact end_

/-- What comes after the step starts one step later. -/
theorem bind {x : Run α} {f : α → Run β} (h : Advances budget least silent x)
    (next : ∀ a, (Contract.budget budget (least + 1) silent).Keeps (fun _ => True) (f a)) :
    Advances budget least silent (x >>= f) := by
  intro w good
  have first := h w good
  simp only [Bind.bind, EStateM.bind]
  cases ended : x w with
  | error stop w' =>
    rw [ended] at first
    exact first
  | ok a w' =>
    rw [ended] at first
    have second := next a w' first
    dsimp only
    cases ended' : f a w' with
    | ok b w'' =>
      rw [ended'] at second
      exact second.1
    | error stop w'' =>
      rw [ended'] at second
      exact Spent.mono second (Nat.le_succ least)

/-- Where the counter stands at the end of a run that starts within its budget. -/
theorem outcome {x : Run α} {w : World} (h : Advances budget w.steps silent x)
    (within : w.steps ≤ budget) :
    x.ends w = true ∧
    (x.final w).steps ≤ budget + 1 ∧
    ((x.final w).steps = budget + 1 → x.raises (.budgetExhausted budget) w = true) ∧
    (silent → (x.raises (.budgetExhausted budget) w = true ↔ (x.final w).steps = budget + 1)) := by
  have spends := h w ⟨Nat.le_refl _, within⟩
  unfold Run.ends Run.final Run.raises
  cases ended : x w with
  | ok a w' =>
    rw [ended] at spends
    have inside : w'.steps ≠ budget + 1 := Nat.ne_of_lt (Nat.lt_succ_of_le spends.2)
    refine ⟨rfl, Nat.le_succ_of_le spends.2, fun beyond => absurd beyond inside, fun _ => ?_⟩
    exact ⟨fun exhausted => (nomatch exhausted), fun beyond => absurd beyond inside⟩
  | error stop w' =>
    rw [ended] at spends
    refine ⟨?_, spends.steps_le, spends.isExhausted, fun quiet => ?_⟩
    · cases stop with
      | outOfFuel => exact absurd rfl spends.ended
      | _ => rfl
    · exact ⟨spends.counted quiet, spends.isExhausted⟩

end Advances

/-- A step that is counted brings the run nearer to the end of its budget. -/
theorem advances_tick {limits : Limits} (given : limits.budget = some budget) (p : Place) :
    Advances budget least silent (Run.tick limits p) := by
  intro w good
  obtain ⟨low, high⟩ := good
  rw [Run.tick_of_some given]
  by_cases within : budget < w.steps + 1
  · rw [if_pos within]
    constructor
    · exact fun out => nomatch out
    · exact Nat.le_succ_of_le low
    · exact Nat.succ_le_succ high
    · exact fun _ => decide_eq_true rfl
    · exact fun _ _ => Nat.le_antisymm (Nat.succ_le_succ high) within
  · rw [if_neg within]
    exact ⟨Nat.succ_le_succ low, by show w.steps + 1 ≤ budget; omega⟩

/-! ### Forms that repeat themselves -/

section

variable {c : Call}

/-- Each turn of `unwrap` evaluates something, and so takes a step. -/
theorem Call.unwrap_keeps_budget
    (h : ∀ least', least ≤ least' → ∀ node frame,
      Advances budget least' silent (c.eval node frame (c.depth + 1)))
    {fuel : Nat} (enough : budget + 1 < least + fuel) (v : Node) :
    (Contract.budget budget least silent).Keeps (fun _ => True) (c.unwrap fuel v) := by
  induction fuel generalizing least v with
  | zero =>
    intro w good
    have := good.1
    have := good.2
    omega
  | succ fuel ih =>
    cases v with
    | quoted p inner =>
      have turn := h least (Nat.le_refl least) inner c.frame
      apply (turn.bind _).keeps
      intro next
      split
      · exact .pure trivial
      · exact ih (fun least' le => h least' (Nat.le_of_succ_le le)) (by omega) next
    | _ => exact .pure trivial

/-- Each turn of a loop counts a step. -/
theorem Call.iterate_keeps_budget (given : c.limits.budget = some budget)
    (h : ∀ least', least ≤ least' → ∀ node frame,
      Advances budget least' silent (c.eval node frame (c.depth + 1)))
    (body : List Node) {fuel : Nat} (enough : budget + 1 < least + fuel) :
    (Contract.budget budget least silent).Keeps (fun _ => True) (c.iterate body fuel) := by
  induction fuel generalizing least with
  | zero =>
    intro w good
    have := good.1
    have := good.2
    omega
  | succ fuel ih =>
    apply ((advances_tick given c.place).bind _).keeps
    intro _
    have later := fun least' (le : least + 1 ≤ least') => h least' (Nat.le_of_succ_le le)
    have serves : (Contract.budget budget (least + 1) silent).Serves c.eval (c.depth + 1) :=
      fun frame _ => (later _ (Nat.le_refl _) _ frame).keeps
    have turn : (Contract.budget budget (least + 1) silent).Keeps (fun _ => True) (c.runAll body) :=
      runAll_keeps serves fun _ _ => trivial
    apply (Contract.Keeps.catching Signal.fault?_of_isBreak turn).bindAny
    intro left
    cases left with
    | inl payload => exact .pure trivial
    | inr _ => exact ih later (by omega)

end

/-! ### Evaluation -/

namespace Interpreter

variable {i : Interpreter}

/-- No function of the embedding program reports the fault of the budget as its own. -/
def Silent (i : Interpreter) (budget : Nat) : Prop :=
  ∀ host ∈ i.hosts, ∀ args, host args ≠ .fault (.budgetExhausted budget)

theorem admits_budget (i : Interpreter) (budget least : Nat) :
    ∀ host ∈ i.hosts, (Contract.budget budget least (i.Silent budget)).Admits host := by
  intro host isHost args _
  cases replied : host args with
  | value v => trivial
  | fault fault =>
    intro p w good
    refine .of_within (fun out => nomatch out) good.1 good.2 fun silent => decide_eq_false ?_
    intro exhausted
    rw [Option.some.inj exhausted] at replied
    exact silent host isHost args replied
  | exit status =>
    intro w good
    exact .of_within (fun out => nomatch out) good.1 good.2 fun _ => rfl

/-- Evaluation with fuel beyond what is left of the budget takes a step for a result, and
stops for no want of fuel. -/
theorem evalAt_advances (given : i.limits.budget = some budget) {fuel : Nat}
    (enough : budget + 1 < least + fuel) (node : Node) (frame : FrameId) (depth : Nat) :
    Advances budget least (i.Silent budget) (i.evalAt fuel node frame depth) := by
  induction fuel generalizing least node frame depth with
  | zero =>
    intro w good
    have := good.1
    have := good.2
    omega
  | succ fuel ih =>
    rw [evalAt, step_eq]
    split
    · intro w good
      exact .of_within (fun out => nomatch out) good.1 good.2 fun _ => rfl
    · apply (advances_tick given node.place).bind
      intro _
      -- one step has been counted, which is as much as the fuel has gone down
      have later : ∀ least', least + 1 ≤ least' → ∀ node frame,
          Advances budget least' (i.Silent budget) (i.evalAt fuel node frame (depth + 1)) :=
        fun least' le node frame => ih (by omega) node frame (depth + 1)
      apply visit_keeps (i.admits_budget budget (least + 1))
      · exact fun frame _ => (later _ (Nat.le_refl _) _ frame).keeps
      · constructor
        · intro _ place frame body _
          exact Call.iterate_keeps_budget given later body (by omega)
        · intro _ place frame v _
          exact Call.unwrap_keeps_budget later (by omega) v
      · trivial

/-- A budget that is spent already leaves room for one more step at most. -/
theorem evalAt_of_budget_lt (given : i.limits.budget = some budget) {fuel : Nat} (some : 0 < fuel)
    (node : Node) (frame : FrameId) (depth : Nat) {w : World} (spent : budget < w.steps) :
    ∃ fault steps, steps ≤ w.steps + 1 ∧ i.evalAt fuel node frame depth w =
      .error (.raised (.ofFault fault node.place)) { w with steps := steps } := by
  obtain ⟨fuel, rfl⟩ : ∃ n, fuel = n + 1 := ⟨fuel - 1, by omega⟩
  rw [evalAt, step_eq]
  split
  · exact ⟨_, w.steps, Nat.le_succ _, rfl⟩
  · refine ⟨.budgetExhausted budget, w.steps + 1, Nat.le_refl _, ?_⟩
    simp only [Bind.bind, EStateM.bind, Run.tick_of_some given]
    rw [if_pos (Nat.lt_succ_of_lt spent)]

end Interpreter

end

/-- A budget guarantees that evaluation ends, and says where the counter stands then.
From within the budget, fuel beyond what is left of it is enough; the counter ends at
most one step beyond the budget, and does so if and only if the budget stops the run (if
the embedding program does not report such a fault itself). From beyond the budget,
evaluation ends at once, with at most one more step and nothing else changed. -/
theorem Interpreter.evalAt_budget (i : Interpreter) (budget fuel : Nat) (node : Node)
    (frame : FrameId) (depth : Nat) (w : World) (given : i.limits.budget = some budget)
    (enough : budget + 1 - w.steps < fuel) :
    let run := i.evalAt fuel node frame depth
    (w.steps ≤ budget →
      run.ends w = true ∧
      (run.final w).steps ≤ budget + 1 ∧
      ((run.final w).steps = budget + 1 → run.raises (.budgetExhausted budget) w = true) ∧
      (i.Silent budget →
        (run.raises (.budgetExhausted budget) w = true ↔ (run.final w).steps = budget + 1))) ∧
    (budget < w.steps →
      ∃ fault steps, steps ≤ w.steps + 1 ∧
        run w = .error (.raised (.ofFault fault node.place)) { w with steps := steps }) := by
  intro run
  constructor
  · intro within
    have left : budget + 1 < w.steps + fuel := by omega
    exact (evalAt_advances given left node frame depth).outcome within
  · exact evalAt_of_budget_lt given (by omega) node frame depth

/-- `(loop 1)` with a budget of three steps, beside a function that counts its arguments:
the fourth step ends it. -/
theorem Interpreter.loop_budget :
    let count : Host := fun args => .value (.number .computed (.int (.ofNat args.length)))
    let i : Interpreter := { limits := ⟨256, some 3⟩, hosts := #[count] }
    let program : Node := .call .computed [.form .computed .loop, .number .computed (.int 1)]
    let run := i.evalAt 5 program Store.root 0
    let w : World := ⟨.empty 0, 0, ""⟩
    run.ends w = true ∧ run.raises (.budgetExhausted 3) w = true ∧ (run.final w).steps = 4 := by
  intro count i program run w
  obtain ⟨ends, _, _, iff⟩ := (evalAt_budget i 3 5 program Store.root 0 w rfl (by decide)).1
    (by decide)
  have silent : i.Silent 3 := by
    intro host isHost args
    rw [List.mem_singleton.mp (Array.mem_def.mp isHost)]
    exact fun replied => nomatch replied
  exact ⟨ends, (iff silent).mpr rfl, rfl⟩

end Sexpr
