/-
What runs cost.

`Run.Costs limits x s cost r t` says how a run ends that starts from the store `s`, wherever the
counter stands: after `cost` more steps, with the result or the signal `r`, with the store `t`
and nothing written, or else, if the budget does not last so long, with the fault of the budget.
Costs add up (`Run.Costs.bind`), so what a program costs is put together from what its parts
cost: there is one rule for each kind of node and each form, and one for loops, whose rounds
keep an invariant (`Call.costs_iterate`).
-/

import Sexpr.Proofs.Run.Unwrapping
import Sexpr.Proofs.Store.Names

namespace Sexpr

/-- The counter may come to stand at `n`. -/
def Limits.Allows (limits : Limits) (n : Nat) : Prop :=
  ∀ budget, limits.budget = some budget → n ≤ budget

theorem Limits.Allows.mono {limits : Limits} {m n : Nat} (h : limits.Allows n) (le : m ≤ n) :
    limits.Allows m :=
  fun budget given => Nat.le_trans le (h budget given)

theorem Limits.allows_of_none {limits : Limits} (free : limits.budget = none) (n : Nat) :
    limits.Allows n := by
  intro budget given
  rw [free] at given
  cases given

namespace Run

variable {α β : Type} {limits : Limits} {x : Run α} {f : α → Run β} {s t u : Store} {a : α}
  {m n : Nat} {signal : Signal}

/-- A run that ended with a result or a signal. -/
def ended (r : Except Signal α) (w : World) : EStateM.Result Stop World α :=
  match r with
  | .ok a => .ok a w
  | .error signal => .error (.raised signal) w

/-- What is left of an end once signals have been caught. -/
def intercepted (caught : Signal → Bool) : Except Signal α → Except Signal (Node ⊕ α)
  | .ok a => .ok (.inr a)
  | .error signal => if caught signal then .ok (.inl signal.payload) else .error signal

/-- From `s` the run takes `cost` steps and ends with `r` and the store `t`, if the budget
allows that, and else the budget ends it. -/
structure Costs (limits : Limits) (x : Run α) (s : Store) (cost : Nat) (r : Except Signal α)
    (t : Store) : Prop where
  ends : ∀ steps output, limits.Allows (steps + cost) →
    x ⟨s, steps, output⟩ = ended r ⟨t, steps + cost, output⟩
  exhausts : ∀ steps output budget, limits.budget = some budget → steps ≤ budget →
    budget < steps + cost → x.raises (.budgetExhausted budget) ⟨s, steps, output⟩ = true

/-- What ends so from every world, without a step, costs nothing. -/
theorem costs_of_free {r : Except Signal α}
    (h : ∀ steps output, x ⟨s, steps, output⟩ = ended r ⟨t, steps, output⟩) :
    Costs limits x s 0 r t where
  ends steps output _ := h steps output
  exhausts _ _ _ _ _ _ := by omega

theorem costs_pure (a : α) : Costs limits (pure a) s 0 (.ok a) s :=
  costs_of_free fun _ _ => rfl

theorem costs_ofExcept (origin : Place) (a : α) :
    Costs limits (ofExcept origin (.ok a)) s 0 (.ok a) s :=
  costs_of_free fun _ _ => rfl

theorem costs_raise (signal : Signal) :
    Costs limits (raise signal : Run α) s 0 (.error signal) s :=
  costs_of_free fun _ _ => rfl

theorem costs_define (s : Store) (frame : FrameId) (name : String) (value : Node) :
    Costs limits (modifyStore (·.define frame name value)) s 0 (.ok ())
      (s.define frame name value) :=
  costs_of_free fun _ _ => rfl

theorem costs_tick (limits : Limits) (p : Place) : Costs limits (tick limits p) s 1 (.ok ()) s where
  ends steps output allowed := by
    cases given : limits.budget with
    | none => rw [tick_of_none given, ended]
    | some budget =>
      rw [tick_of_some given, if_neg (Nat.not_lt_of_le (allowed budget given)), ended]
  exhausts steps output budget given _ beyond := by
    rw [raises, tick_of_some given, if_pos beyond]
    simp [Stop.isFault, Signal.ofFault, Signal.fault?]

theorem raises_bind {fault : Fault} {w : World} (h : x.raises fault w = true) :
    (x >>= f).raises fault w = true := by
  unfold raises at h ⊢
  simp only [Bind.bind, EStateM.bind]
  cases ended : x w with
  | ok a w' =>
    rw [ended] at h
    cases h
  | error stop w' =>
    rw [ended] at h
    exact h

namespace Costs

/-- Costs add up. -/
theorem bind {r : Except Signal β} (h : Costs limits x s m (.ok a) t)
    (k : Costs limits (f a) t n r u) {cost : Nat} (total : m + n = cost) :
    Costs limits (x >>= f) s cost r u where
  ends steps output allowed := by
    have first := h.ends steps output (allowed.mono (by omega))
    have second := k.ends (steps + m) output (allowed.mono (by omega))
    simp only [Bind.bind, EStateM.bind, first, ended, second, Nat.add_assoc, total]
  exhausts steps output budget given within beyond := by
    by_cases spent : budget < steps + m
    · exact raises_bind (h.exhausts steps output budget given within spent)
    · have allowed : limits.Allows (steps + m) := by
        intro other given'
        rw [given] at given'
        cases given'
        omega
      have second := k.exhausts (steps + m) output budget given (by omega) (by omega)
      unfold raises at second ⊢
      simp only [Bind.bind, EStateM.bind, h.ends steps output allowed, ended]
      exact second

/-- What is made of the result costs nothing more. -/
theorem bind_pure (h : Costs limits x s m (.ok a) t) (g : α → β) :
    Costs limits (x >>= fun a => pure (g a)) s m (.ok (g a)) t :=
  h.bind (costs_pure (g a)) rfl

/-- What comes behind a signal does not run. -/
theorem bind_error (h : Costs limits x s m (.error signal) t) :
    Costs limits (x >>= f) s m (.error signal) t where
  ends steps output allowed := by
    simp only [Bind.bind, EStateM.bind, h.ends steps output allowed, ended]
  exhausts steps output budget given within beyond :=
    raises_bind (h.exhausts steps output budget given within beyond)

theorem traced {r : Except Signal α} (p : Place) (h : Costs limits x s m r t) :
    Costs limits (x.traced p) s m (r.mapError (·.through p)) t where
  ends steps output allowed := by
    rw [Run.traced, h.ends steps output allowed]
    cases r <;> rfl
  exhausts steps output budget given within beyond := by
    have exhausted := h.exhausts steps output budget given within beyond
    unfold raises at exhausted
    unfold raises Run.traced
    generalize x _ = result at *
    rcases result with ⟨_, _⟩ | ⟨stop, _⟩
    · cases exhausted
    · cases stop with
      | raised signal => simpa only [Stop.isFault, Signal.fault?_through] using exhausted
      | _ => exact exhausted

/-- Only signals that are not faults may be caught, so the fault of the budget passes. -/
theorem catching {r : Except Signal α} {caught : Signal → Bool}
    (spares : ∀ s, caught s = true → s.fault? = none) (h : Costs limits x s m r t) :
    Costs limits (x.catching caught) s m (intercepted caught r) t where
  ends steps output allowed := by
    rw [Run.catching, h.ends steps output allowed]
    cases r with
    | ok a => rfl
    | error signal => cases isCaught : caught signal <;> simp [ended, intercepted, isCaught]
  exhausts steps output budget given within beyond := by
    have exhausted := h.exhausts steps output budget given within beyond
    unfold raises at exhausted
    unfold raises Run.catching
    generalize x _ = result at *
    rcases result with ⟨_, _⟩ | ⟨stop, _⟩
    · cases exhausted
    · cases stop with
      | raised signal =>
        cases isCaught : caught signal with
        | false => simpa [isCaught] using exhausted
        | true => simp [Stop.isFault, spares signal isCaught] at exhausted
      | _ => exact exhausted

end Costs

end Run

namespace Interpreter

open Run (Costs costs_pure costs_ofExcept costs_tick)

variable {i : Interpreter} {frame : FrameId} {depth fuel cost : Nat} {s t : Store}
  {r : Except Signal Node} {args values : List Node} {place p : Place}

/-- A node costs a step and what visiting it costs. -/
theorem costs_evalAt (room : depth < i.limits.depth) {node : Node}
    (visited : Costs i.limits (i.visit fuel (i.evalAt fuel) node frame depth) s cost r t) :
    Costs i.limits (i.evalAt (fuel + 1) node frame depth) s (cost + 1) r t := by
  rw [evalAt, step_eq, if_neg (Nat.not_le_of_lt room)]
  refine (costs_tick i.limits node.place).bind ?_ (Nat.add_comm 1 cost)
  exact visited

theorem costs_constant (room : depth < i.limits.depth) {node : Node}
    (constant : node.isConstant = true) :
    Costs i.limits (i.evalAt (fuel + 1) node frame depth) s 1 (.ok node) s := by
  refine costs_evalAt room ?_
  cases node with
  | symbol p name => cases constant
  | vector p items => cases constant
  | call p items => cases constant
  | _ => exact costs_pure _

theorem costs_symbol (room : depth < i.limits.depth) {name : String} {value : Node}
    (bound : s.find? frame name = some value) (p : Place) :
    Costs i.limits (i.evalAt (fuel + 1) (.symbol p name) frame depth) s 1 (.ok value) s := by
  refine costs_evalAt room (Run.costs_of_free fun steps output => ?_)
  show Run.ofExcept p (s.lookup frame name) _ = _
  rw [Store.lookup, bound]
  rfl

/-! ### Nodes one after the other -/

theorem costs_evalAll_nil {e : Evaluator} :
    Costs i.limits (evalAll e frame depth []) s 0 (.ok []) s :=
  costs_pure []

theorem costs_evalAll_cons {e : Evaluator} {node value : Node} {nodes : List Node} {m n : Nat}
    {u : Store} (first : Costs i.limits (e node frame depth) s m (.ok value) t)
    (others : Costs i.limits (evalAll e frame depth nodes) t n (.ok values) u) :
    Costs i.limits (evalAll e frame depth (node :: nodes)) s (m + n) (.ok (value :: values)) u := by
  rw [evalAll, List.mapM_cons]
  exact first.bind (others.bind_pure (value :: ·)) rfl

theorem costs_evalAll_pair {e : Evaluator} {a b v v' : Node} {m n : Nat} {u : Store}
    (first : Costs i.limits (e a frame depth) s m (.ok v) t)
    (second : Costs i.limits (e b frame depth) t n (.ok v') u) :
    Costs i.limits (evalAll e frame depth [a, b]) s (m + n) (.ok [v, v']) u :=
  costs_evalAll_cons first (costs_evalAll_cons second costs_evalAll_nil)

theorem costs_evalAll_constants (room : depth < i.limits.depth) {nodes : List Node}
    (constant : ∀ node ∈ nodes, node.isConstant = true) :
    Costs i.limits (evalAll (i.evalAt (fuel + 1)) frame depth nodes) s nodes.length
      (.ok nodes) s := by
  induction nodes with
  | nil => exact costs_evalAll_nil
  | cons node nodes ih =>
    obtain ⟨first, others⟩ := List.forall_mem_cons.mp constant
    rw [List.length_cons, Nat.add_comm nodes.length]
    exact costs_evalAll_cons (costs_constant room first) (ih others)

/-- A vector costs a step and what its items cost. -/
theorem costs_vector (room : depth < i.limits.depth) {items : List Node}
    (all : Costs i.limits (evalAll (i.evalAt fuel) frame (depth + 1) items) s cost (.ok values) t) :
    Costs i.limits (i.evalAt (fuel + 1) (.vector p items) frame depth) s (cost + 1)
      (.ok (.vector p values)) t :=
  costs_evalAt room (all.bind_pure (Node.vector p))

/-! ### Calls by name -/

/-- A call costs two steps, of which the second looks up the name, and what applying costs. -/
theorem costs_call (room : depth + 1 < i.limits.depth) {name : String} {callee : Node}
    (bound : s.find? frame name = some callee)
    (applied : Costs i.limits (i.apply (fuel + 1) (i.evalAt (fuel + 1)) place frame depth
      (.symbol p name) callee args) s cost r t) :
    Costs i.limits (i.evalAt (fuel + 2) (.call place (.symbol p name :: args)) frame depth) s
      (cost + 2) (r.mapError (·.through place)) t := by
  have looked : Costs i.limits (i.evalAt (fuel + 1) (.symbol p name) frame (depth + 1)) s 1
      (.ok callee) s := costs_symbol room bound p
  refine costs_evalAt (Nat.lt_of_succ_lt room) ?_
  exact (looked.bind applied (Nat.add_comm 1 cost)).traced place

theorem costs_form (sees : s.Sees frame) (room : depth + 1 < i.limits.depth) (f : Form)
    (accepted : f.arity.accepts args.length = true)
    (ran : Costs i.limits
      (f.run ⟨place, frame, depth, i.limits, fuel + 1, i.evalAt (fuel + 1)⟩ args) s cost r t) :
    Costs i.limits (i.evalAt (fuel + 2) (.call place (.symbol p f.name :: args)) frame depth) s
      (cost + 2) (r.mapError (·.through place)) t := by
  obtain ⟨q, bound⟩ := sees.form f
  have check : f.arity.check f.name args.length = .ok () := if_pos accepted
  refine costs_call room bound ?_
  rw [apply, check]
  exact (costs_ofExcept place ()).bind ran (Nat.zero_add cost)

/-- An operation that writes nothing costs two steps and what its arguments cost. -/
theorem costs_operation (sees : s.Sees frame) (room : depth + 1 < i.limits.depth) (op : Operation)
    (evaluated : Costs i.limits (evalAll (i.evalAt (fuel + 1)) frame (depth + 1) args) s cost
      (.ok values) t)
    (accepted : op.arity.accepts values.length = true) {value : Node}
    (computed : op.value values = .ok value) (quiet : op.echo values = "") :
    Costs i.limits (i.evalAt (fuel + 2) (.call place (.symbol p op.name :: args)) frame depth) s
      (cost + 2) (.ok (value.moveTo place)) t := by
  obtain ⟨q, serial, bound⟩ := sees.operation op
  have check : op.arity.check op.name values.length = .ok () := if_pos accepted
  have performed : Costs i.limits
      (i.perform ⟨serial, op.name, op.arity, .operation op⟩ values place) t 0 (.ok value) t := by
    refine Run.costs_of_free fun steps output => ?_
    show (Run.ofExcept place (op.value values) >>= fun node =>
      Run.write (op.echo values) >>= fun _ => pure node : Run Node) _ = _
    rw [computed, quiet]
    show EStateM.Result.ok value (World.mk t steps (output ++ "")) = .ok value ⟨t, steps, output⟩
    rw [String.append_empty]
  have applied : Costs i.limits (i.apply (fuel + 1) (i.evalAt (fuel + 1)) place frame depth
      (.symbol p op.name) (.primitive q ⟨serial, op.name, op.arity, .operation op⟩) args) s cost
      (.ok (value.moveTo place)) t := by
    rw [apply]
    refine evaluated.bind ?_ (Nat.add_zero cost)
    dsimp only
    rw [check]
    exact (costs_ofExcept place ()).bind (performed.bind_pure (·.moveTo place)) rfl
  exact costs_call room bound applied

end Interpreter

/-! ### Forms -/

namespace Call

open Run (Costs costs_pure costs_tick)

variable {c : Call} {s t : Store} {m n : Nat} {value : Node} {body : List Node} {signal : Signal}

/-- What is quoted is evaluated once, unless that gives something quoted. -/
theorem costs_unwrap {inner : Node} (ran : Costs c.limits (c.run inner) s m (.ok value) t)
    (plain : value.isQuoted = false) (p : Place) (fuel : Nat) :
    Costs c.limits (c.unwrap (fuel + 2) (.quoted p inner)) s m (.ok value) t := by
  rw [unwrap]
  refine ran.bind (n := 0) ?_ rfl
  split
  · exact costs_pure value
  · rw [unwrap_of_not_isQuoted plain]
    exact costs_pure value

/-- A loop whose rounds keep an invariant, which says how often it goes around: each round costs
a step and what its body costs, and so does the one that leaves the loop. -/
theorem costs_iterate {Inv : Nat → Store → Prop} {rounds fuel : Nat}
    (turn : ∀ k < rounds, ∀ s, Inv k s → ∃ t, Inv (k + 1) t ∧
      Costs c.limits (c.runAll body) s m (.ok ()) t)
    (leave : ∀ s, Inv rounds s → Costs c.limits (c.runAll body) s n (.error signal) s)
    (isBreak : signal.isBreak = true) (enough : rounds < fuel) (start : Inv 0 s) :
    ∃ t, Inv rounds t ∧
      Costs c.limits (c.iterate body fuel) s (rounds * (m + 1) + (n + 1))
        (.ok signal.payload) t := by
  -- the rounds that are left, counted from any round
  suffices general : ∀ left k, k + left = rounds → ∀ fuel, left < fuel → ∀ s, Inv k s →
      ∃ t, Inv rounds t ∧ Costs c.limits (c.iterate body fuel) s (left * (m + 1) + (n + 1))
        (.ok signal.payload) t from
    general rounds 0 (Nat.zero_add rounds) fuel enough s start
  intro left
  induction left with
  | zero =>
    rintro k rfl fuel enough s inv
    obtain ⟨fuel, rfl⟩ : ∃ k, fuel = k + 1 := ⟨fuel - 1, by omega⟩
    have ran := (leave s inv).catching Signal.fault?_of_isBreak
    rw [Run.intercepted, if_pos isBreak] at ran
    refine ⟨s, inv, (costs_tick c.limits c.place).bind ?_ (by omega : 1 + n = _)⟩
    exact ran.bind (costs_pure signal.payload) (Nat.add_zero n)
  | succ left ih =>
    intro k position fuel enough s inv
    obtain ⟨fuel, rfl⟩ : ∃ k, fuel = k + 1 := ⟨fuel - 1, by omega⟩
    obtain ⟨next, inv', ran⟩ := turn k (by omega) s inv
    obtain ⟨t, done, others⟩ := ih (k + 1) (by omega) fuel (by omega) next inv'
    refine ⟨t, done, (costs_tick c.limits c.place).bind ?_
      (by rw [Nat.succ_mul]; omega : 1 + (m + (left * (m + 1) + (n + 1))) = _)⟩
    exact (ran.catching Signal.fault?_of_isBreak).bind others rfl

end Call

namespace Interpreter

open Run (Costs costs_pure costs_define costs_raise)

variable {i : Interpreter} {frame : FrameId} {depth fuel m n : Nat} {s t u : Store}
  {place p p' q : Place} {name : String} {node target condition yes value : Node}
  {r : Except Signal Node}

theorem costs_bind (sees : s.Sees frame) (room : depth + 1 < i.limits.depth)
    (given : Costs i.limits (i.evalAt (fuel + 1) node frame (depth + 1)) s m (.ok value) t) :
    Costs i.limits
      (i.evalAt (fuel + 2) (.call place [.symbol p "setn", .symbol q name, node]) frame depth) s
      (m + 2) (.ok value) (t.define frame name value) := by
  refine costs_form (r := .ok value) sees room .bind rfl ?_
  exact given.bind ((costs_define t frame name value).bind_pure fun _ => value) rfl

theorem costs_bindTo (sees : s.Sees frame) (room : depth + 1 < i.limits.depth)
    (named : Costs i.limits (i.evalAt (fuel + 1) target frame (depth + 1)) s m
      (.ok (.quoted p (.symbol q name))) t)
    (given : Costs i.limits (i.evalAt (fuel + 1) node frame (depth + 1)) t n (.ok value) u) :
    Costs i.limits
      (i.evalAt (fuel + 2) (.call place [.symbol p' "setr", target, node]) frame depth) s
      (m + n + 2) (.ok value) (u.define frame name value) := by
  refine costs_form (r := .ok value) sees room .bindTo rfl ?_
  refine named.bind ?_ rfl
  exact given.bind ((costs_define u frame name value).bind_pure fun _ => value) rfl

/-- Evaluating what is quoted in the value of a node. -/
theorem costs_evaluate (sees : s.Sees frame) (room : depth + 1 < i.limits.depth) {inner : Node}
    (named : Costs i.limits (i.evalAt (fuel + 2) node frame (depth + 1)) s m
      (.ok (.quoted p inner)) t)
    (ran : Costs i.limits (i.evalAt (fuel + 2) inner frame (depth + 1)) t n (.ok value) u)
    (plain : value.isQuoted = false) :
    Costs i.limits (i.evalAt (fuel + 3) (.call place [.symbol p' "eval", node]) frame depth) s
      (m + n + 2) (.ok value) u := by
  refine costs_form (r := .ok value) sees room .evaluate rfl (named.bind ?_ rfl)
  let c : Call := ⟨place, frame, depth, i.limits, fuel + 2, i.evalAt (fuel + 2)⟩
  exact Call.costs_unwrap (c := c) ran plain p fuel

theorem costs_sequence (sees : s.Sees frame) (room : depth + 1 < i.limits.depth)
    {nodes : List Node}
    (ran : Costs i.limits
      (Call.runLast ⟨place, frame, depth, i.limits, fuel + 1, i.evalAt (fuel + 1)⟩
        (.nil place) nodes) s m (.ok value) t) :
    Costs i.limits (i.evalAt (fuel + 2) (.call place (.symbol p "do" :: nodes)) frame depth) s
      (m + 2) (.ok value) t :=
  costs_form (r := .ok value) sees room .sequence rfl ran

theorem costs_loop (sees : s.Sees frame) (room : depth + 1 < i.limits.depth)
    {body : List Node} (nonempty : 0 < body.length)
    (ran : Costs i.limits
      (Call.iterate ⟨place, frame, depth, i.limits, fuel + 1, i.evalAt (fuel + 1)⟩
        body (fuel + 1)) s m (.ok value) t) :
    Costs i.limits (i.evalAt (fuel + 2) (.call place (.symbol p "loop" :: body)) frame depth) s
      (m + 2) (.ok value) t :=
  costs_form (r := .ok value) sees room .loop (decide_eq_true nonempty) ran

theorem costs_leaveLoop (sees : s.Sees frame) (room : depth + 1 < i.limits.depth) :
    Costs i.limits (i.evalAt (fuel + 2) (.call place [.symbol p "break"]) frame depth) s 2
      (.error { control := .leaveLoop none, origin := place }) s := by
  let left : Signal := { control := .leaveLoop none, origin := place }
  have passed : left.through place = left := if_pos (.inr (.inl rfl))
  have raised : Costs i.limits (i.evalAt (fuel + 2) (.call place [.symbol p "break"]) frame depth) s
      (0 + 2) (.error (left.through place)) s :=
    costs_form (r := .error left) sees room .leaveLoop rfl (costs_raise left)
  rwa [passed] at raised

/-- A condition costs two steps, what it is made of, and what it leads to. -/
theorem costs_branch (sees : s.Sees frame) (room : depth + 1 < i.limits.depth)
    (tested : Costs i.limits (i.evalAt (fuel + 1) condition frame (depth + 1)) s m (.ok value) t)
    (holds : value.isTruthy = true)
    (ran : Costs i.limits (i.evalAt (fuel + 1) yes frame (depth + 1)) t n r u) :
    Costs i.limits (i.evalAt (fuel + 2) (.call place [.symbol p "if", condition, yes]) frame depth)
      s (m + n + 2) (r.mapError (·.through place)) u := by
  refine costs_form sees room .branch rfl (tested.bind ?_ rfl)
  rw [if_pos holds]
  exact ran

theorem costs_branch_of_false (sees : s.Sees frame) (room : depth + 1 < i.limits.depth)
    (tested : Costs i.limits (i.evalAt (fuel + 1) condition frame (depth + 1)) s m (.ok value) t)
    (fails : value.isTruthy = false) (yes : Node) :
    Costs i.limits (i.evalAt (fuel + 2) (.call place [.symbol p "if", condition, yes]) frame depth)
      s (m + 2) (.ok (.nil place)) t := by
  refine costs_form (r := .ok _) sees room .branch rfl (tested.bind ?_ (Nat.add_zero m))
  rw [if_neg (by simp [fails])]
  exact costs_pure _

/-! ### Calls of closures -/

/-- A call of a closure costs what its body costs in the frame of the call. -/
theorem costs_enter {l : Lambda} {body : Node} {args : List Node} (fits : l.params.Fits args)
    (ran : Costs i.limits (i.evalAt fuel body s.frames.size (depth + 1)) (s.enter l place args).2 m
      (.ok value) t) :
    Costs i.limits (enter (i.evalAt fuel) l body args place depth) s m (.ok value) t := by
  have opened : Costs i.limits (openFrame l place args) s 0 (.ok s.frames.size)
      (s.enter l place args).2 :=
    Run.costs_of_free fun steps output => openFrame_of_fits fits place ⟨s, steps, output⟩
  rw [enter_eq]
  refine opened.bind (n := m) ?_ (Nat.zero_add m)
  exact (ran.catching Signal.fault?_of_isReturn).bind (costs_pure value) rfl

end Interpreter

end Sexpr
