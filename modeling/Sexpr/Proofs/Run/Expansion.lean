/-
Calling an expander is expanding it and evaluating the expansion.

Evaluation of a call by name of an expander looks the name up, which takes two steps, and
then does what expanding does. The expansion is evaluated one level further down and two
steps later than it would be on its own. As long as that is not too deep, and without a
budget, it makes no difference (`Interpreter.evalAt_eq_delayed`). Main statement:
`Interpreter.eval_expander`.
-/

import Sexpr.Proofs.Run.Invariant

namespace Sexpr

/-- The stop without the calls that a signal passed through. -/
def Stop.untraced : Stop → Stop
  | .raised s => .raised { s with trace := [] }
  | other => other

/-- The stop as it leaves the call at `p`. -/
def Stop.through (p : Place) : Stop → Stop
  | .raised s => .raised (s.through p)
  | other => other

theorem Stop.untraced_through (stop : Stop) (p : Place) :
    (stop.through p).untraced = stop.untraced := by
  cases stop with
  | raised s => simp only [through, untraced, Signal.control_through, Signal.origin_through]
  | _ => rfl

/-- The run did not end, or it nested too deeply. -/
def Stop.isAborted : Stop → Bool
  | .outOfFuel => true
  | stop => stop.isTooDeep

theorem Stop.isAborted_of_isTooDeep {stop : Stop} (h : stop.isTooDeep = true) :
    stop.isAborted = true := by
  cases stop with
  | outOfFuel => rfl
  | _ => exact h

namespace Run

variable {α β : Type}

/-- What a run ended with, `k` steps later. -/
def delayed (k : Nat) : EStateM.Result Stop World α → EStateM.Result Stop World α
  | .ok a w => .ok a (w.later k)
  | .error stop w => .error stop (w.later k)

/-- The run ends, and not because it nests too deeply. -/
def completes (x : Run α) (w : World) : Bool :=
  match x w with
  | .ok _ _ => true
  | .error stop _ => !stop.isAborted

theorem not_isAborted_of_completes {x : Run α} {w w' : World} {stop : Stop}
    (h : x.completes w = true) (stopped : x w = .error stop w') : stop.isAborted = false := by
  rw [completes, stopped] at h
  simpa using h

theorem traced_of_ok {x : Run α} {w w' : World} {a : α} (h : x w = .ok a w') (p : Place) :
    x.traced p w = .ok a w' := by
  rw [traced, h]

theorem traced_of_error {x : Run α} {w w' : World} {stop : Stop} (h : x w = .error stop w')
    (p : Place) : x.traced p w = .error (stop.through p) w' := by
  rw [traced, h]
  cases stop <;> rfl

theorem completes_traced (p : Place) (x : Run α) (w : World) :
    (x.traced p).completes w = x.completes w := by
  unfold completes traced
  rcases x w with ⟨a, w'⟩ | ⟨s | _ | _, w'⟩
  · rfl
  · simp only [Stop.isAborted, Stop.isTooDeep, Signal.fault?_through]
  · rfl
  · rfl

/-- If a run in two parts completes, then so does its first part. -/
theorem completes_of_bind {x : Run α} {f : α → Run β} {w : World}
    (h : (x >>= f).completes w = true) : x.completes w = true := by
  unfold completes at h ⊢
  simp only [Bind.bind, EStateM.bind] at h
  cases ended : x w with
  | ok a w' => rfl
  | error stop w' =>
    rw [ended] at h
    exact h

/-- A run that completes ends so with more fuel. -/
theorem Agrees.eq_of_completes {x y : Run α} (h : Agrees (· = .outOfFuel) x y) {w : World}
    (done : x.completes w = true) : x w = y w := by
  rcases h w with ⟨stop, w', stopped, isFuel⟩ | same
  · have notAborted := not_isAborted_of_completes done stopped
    rw [isFuel] at notAborted
    cases notAborted
  · exact same

end Run

/-- Whatever there may be. -/
def Invariant.any : Invariant where
  Captures _ _ := True
  Offers _ := True
  captures_mono _ _ := trivial
  captures_new _ := trivial
  Good _ := True
  find {_ _ _ node} _ _ := by
    intro part _
    cases part <;> trivial
  define _ _ _ _ _ := trivial
  push _ _ _ := trivial
  number _ := trivial

theorem Invariant.fits_any (n : Nat) (node : Node) : any.Fits n node := by
  intro part _
  cases part <;> trivial

/-- A run that completes although it is ahead ends as the other one does, later. -/
theorem Invariant.Alongside.eq_delayed {α : Type} {o : Lead} {Q : Nat → α → Prop} {x y : Run α}
    (h : any.Alongside o 0 Q x y) {w : World} (done : x.completes (w.later o.steps) = true) :
    x (w.later o.steps) = Run.delayed o.steps (y w) := by
  have ends := h w ⟨trivial, Nat.zero_le _⟩
  generalize ended : x (w.later o.steps) = r at *
  generalize y w = r' at *
  cases ends with
  | ok later holds has => rw [later, Run.delayed]
  | error later holds carries => rw [later, Run.delayed]
  | excused excuse =>
    have notAborted := Run.not_isAborted_of_completes done ended
    rw [Stop.isAborted_of_isTooDeep excuse.2] at notAborted
    cases notAborted

namespace Interpreter

variable {i : Interpreter} {n n' : Nat}

theorem admitsHost_any (i : Interpreter) : ∀ host ∈ i.hosts, Invariant.any.AdmitsHost host :=
  fun _ _ _ _ node _ _ _ => Invariant.fits_any _ node

/-- Evaluation one level further down and some steps later ends in the same way, if it
completes, and so it does with more fuel. -/
theorem evalAt_eq_delayed (free : i.limits.budget = none) (le : n ≤ n') (k : Nat) (node : Node)
    (frame : FrameId) (w : World) (done : (i.evalAt n node frame 1).completes (w.later k) = true) :
    i.evalAt n node frame 1 (w.later k) = Run.delayed k (i.evalAt n' node frame 0 w) := by
  have serves : Invariant.any.Serves ⟨k, 1⟩ (i.evalAt n') (i.evalAt n') :=
    evalAt_serves i.admitsHost_any (.inl free) n'
  have same := (i.evalAt_refines le node frame 1).eq_of_completes done
  have done' : (i.evalAt n' node frame 1).completes (w.later k) = true := by
    rw [← done, Run.completes, Run.completes, same]
  rw [same]
  exact (serves (n := 0) 0 trivial (Invariant.fits_any 0 node)).eq_delayed done'

/-- Entering a closure some steps later ends in the same way, if it completes, and so it
does with more fuel. -/
theorem enter_eq_delayed (free : i.limits.budget = none) (le : n ≤ n') (k : Nat) (l : Lambda)
    (body : Node) (args : List Node) (place : Place) (w : World)
    (done : (enter (i.evalAt n) l body args place 0).completes (w.later k) = true) :
    enter (i.evalAt n) l body args place 0 (w.later k)
      = Run.delayed k (enter (i.evalAt n') l body args place 0 w) := by
  have refines : (Discipline.fuel i.limits).Relates (i.evalAt n) (i.evalAt n') :=
    evalAt_holds (.fuel i.limits) le
  have agrees : Run.Agrees (· = .outOfFuel) (enter (i.evalAt n) l body args place 0)
      (enter (i.evalAt n') l body args place 0) :=
    enter_holds refines Store.root l body args place 0
  have serves : Invariant.any.Serves ⟨k, 0⟩ (i.evalAt n') (i.evalAt n') :=
    evalAt_serves i.admitsHost_any (.inl free) n'
  have same := agrees.eq_of_completes done
  have done' : (enter (i.evalAt n') l body args place 0).completes (w.later k) = true := by
    rw [← done, Run.completes, Run.completes, same]
  rw [same]
  exact (enter_alongside (n := 0) serves trivial (Invariant.fits_any 0 body)
    (fun a _ => Invariant.fits_any 0 a) place 0).eq_delayed done'

/-- Without a budget, evaluation counts a step and visits the node. -/
theorem evalAt_succ (free : i.limits.budget = none) {frame : FrameId} {depth : Nat}
    (room : depth < i.limits.depth) (fuel : Nat) (node : Node) (w : World) :
    i.evalAt (fuel + 1) node frame depth w =
      i.visit fuel (i.evalAt fuel) node frame depth (w.later 1) := by
  rw [evalAt, step_eq, if_neg (Nat.not_le_of_lt room)]
  simp only [Bind.bind, EStateM.bind, Run.tick_of_none free]
  rfl

/-- Evaluation that completes counts a step and visits the node. -/
theorem evalAt_of_completes (free : i.limits.budget = none) {node : Node} {frame : FrameId}
    {depth : Nat} {w : World} (done : (i.evalAt n node frame depth).completes w = true) :
    ∃ m, n = m + 1 ∧
      i.evalAt n node frame depth w = i.visit m (i.evalAt m) node frame depth (w.later 1) := by
  cases n with
  | zero => cases done
  | succ m =>
    by_cases deep : i.limits.depth ≤ depth
    · rw [evalAt, step_eq, if_pos deep] at done
      cases done
    · exact ⟨m, rfl, evalAt_succ free (Nat.lt_of_not_le deep) m node w⟩

/-- The call of an expander by name: the name is looked up, which takes the first two
steps, and then the expander is entered and its expansion evaluated. -/
theorem eval_call_expander (free : i.limits.budget = none) {w : World} {frame : FrameId}
    {name : String} {q : Place} {l : Lambda} {body : Node}
    (bound : w.store.find? frame name = some (.closure q l body)) (isExpander : l.kind = .expander)
    {fuel : Nat} {place p : Place} {args : List Node}
    (done : (i.eval fuel frame (.call place (.symbol p name :: args))).completes w = true) :
    ∃ m < fuel, i.eval fuel frame (.call place (.symbol p name :: args)) w =
        Run.traced place (enter (i.evalAt m) l body (args.map .quote) place 0 >>=
          fun expansion => i.evalAt m expansion frame 1) (w.later 2) := by
  obtain ⟨m, rfl, visited⟩ := evalAt_of_completes free done
  have called : i.eval (m + 1) frame (.call place (.symbol p name :: args)) w =
      Run.traced place (i.evalAt m (.symbol p name) frame 1 >>= fun callee =>
        i.apply m (i.evalAt m) place frame 0 (.symbol p name) callee args) (w.later 1) := visited
  have headDone : (i.evalAt m (.symbol p name) frame 1).completes (w.later 1) = true := by
    apply Run.completes_of_bind
    rw [← Run.completes_traced place, Run.completes, ← called]
    exact done
  obtain ⟨m', rfl, looked⟩ := evalAt_of_completes free headDone
  have found : i.evalAt (m' + 1) (.symbol p name) frame 1 (w.later 1) =
      .ok (.closure q l body) (w.later 2) := by
    rw [looked]
    show Run.ofExcept p (w.store.lookup frame name) (w.later 2) = _
    rw [Store.lookup, bound]
    rfl
  refine ⟨m' + 1, Nat.lt_succ_self _, ?_⟩
  rw [called]
  unfold Run.traced
  simp only [Bind.bind, EStateM.bind, found, apply, isExpander]

/-- Evaluating the call of an expander by name, if that completes, does what expanding
it and evaluating the expansion on its own do, in this order: if expanding stops, it stops
in the same way, and else it ends as the evaluation of the expansion does, with the same
value or with the same stop but for the calls that a signal passed through. It takes two
more steps and leaves all else the same behind. -/
theorem eval_expander (i : Interpreter) (free : i.limits.budget = none) (w : World)
    (frame : FrameId) (name : String) (q : Place) (l : Lambda) (body : Node)
    (bound : w.store.find? frame name = some (.closure q l body)) (isExpander : l.kind = .expander)
    (fuel fuel' : Nat) (le : fuel ≤ fuel') (place p : Place) (args : List Node)
    (done : (i.eval fuel frame (.call place (.symbol p name :: args))).completes w = true) :
    let call : Node := .call place (.symbol p name :: args)
    match i.expand fuel' frame call w with
    | .error stop u => i.eval fuel frame call w = .error stop (u.later 2)
    | .ok expansion u =>
      (i.eval fuel' frame expansion).ends u = true ∧
      match i.eval fuel' frame expansion u with
      | .ok value u' => i.eval fuel frame call w = .ok value (u'.later 2)
      | .error stop u' => ∃ stop', stop'.untraced = stop.untraced ∧
        i.eval fuel frame call w = .error stop' (u'.later 2) := by
  intro call
  obtain ⟨m, lt, direct⟩ := eval_call_expander free bound isExpander done
  have le : m ≤ fuel' := Nat.le_trans (Nat.le_of_lt lt) le
  have expand : i.expand fuel' frame call w =
      Run.traced place (enter (i.evalAt fuel') l body (args.map .quote) place 0) w := by
    have isFound : expander? w.store frame (.symbol p name) = some (l, body) := by
      rw [expander?, bound]
      exact if_pos isExpander
    rw [expand_call, isFound]
  rw [direct, expand]
  have partsDone : (enter (i.evalAt m) l body (args.map .quote) place 0 >>=
      fun expansion => i.evalAt m expansion frame 1).completes (w.later 2) = true := by
    rw [← Run.completes_traced place, Run.completes, ← direct]
    exact done
  have entered := enter_eq_delayed free le 2 l body (args.map .quote) place w
    (Run.completes_of_bind partsDone)
  cases expanded : enter (i.evalAt fuel') l body (args.map .quote) place 0 w with
  | error stop u =>
    rw [expanded] at entered
    have stopped : (enter (i.evalAt m) l body (args.map .quote) place 0 >>=
        fun expansion => i.evalAt m expansion frame 1) (w.later 2) = .error stop (u.later 2) := by
      simp only [Bind.bind, EStateM.bind, entered, Run.delayed]
    rw [Run.traced_of_error expanded, Run.traced_of_error stopped]
  | ok expansion u =>
    rw [expanded] at entered
    have evaluated : (enter (i.evalAt m) l body (args.map .quote) place 0 >>=
        fun expansion => i.evalAt m expansion frame 1) (w.later 2) =
          i.evalAt m expansion frame 1 (u.later 2) := by
      simp only [Bind.bind, EStateM.bind, entered, Run.delayed]
    have evalDone : (i.evalAt m expansion frame 1).completes (u.later 2) = true := by
      rw [← partsDone, Run.completes, Run.completes, evaluated]
    have ended := evaluated.trans (evalAt_eq_delayed free le 2 expansion frame u evalDone)
    rw [Run.traced_of_ok expanded]
    dsimp only [Run.ends]
    cases alone : i.eval fuel' frame expansion u with
    | ok value u' =>
      rw [show i.evalAt fuel' expansion frame 0 u = .ok value u' from alone] at ended
      exact ⟨rfl, Run.traced_of_ok ended place⟩
    | error stop u' =>
      rw [show i.evalAt fuel' expansion frame 0 u = .error stop u' from alone] at ended
      have notAborted := Run.not_isAborted_of_completes partsDone ended
      refine ⟨?_, _, Stop.untraced_through stop place, Run.traced_of_error ended place⟩
      cases stop with
      | outOfFuel => cases notAborted
      | _ => rfl

/-- A call of the expander that gives back its operand, which is quoted. -/
theorem eval_operand_expander :
    let l : Lambda := ⟨0, .expander, "m", ⟨["x"], none⟩, Store.root⟩
    let body : Node := .symbol .computed "x"
    let w : World := ⟨(Store.empty 1).define Store.root "m" (.closure .computed l body), 0, ""⟩
    let call : Node := .call .computed [.symbol .computed "m", .number .computed (.int 7)]
    let i : Interpreter := {}
    match i.expand 6 Store.root call w with
    | .error stop u => i.eval 5 Store.root call w = .error stop (u.later 2)
    | .ok expansion u =>
      (i.eval 6 Store.root expansion).ends u = true ∧
      match i.eval 6 Store.root expansion u with
      | .ok value u' => i.eval 5 Store.root call w = .ok value (u'.later 2)
      | .error stop u' => ∃ stop', stop'.untraced = stop.untraced ∧
        i.eval 5 Store.root call w = .error stop' (u'.later 2) := by
  intro l body w call i
  have bound : w.store.find? Store.root "m" = some (.closure .computed l body) := by
    rw [Store.find?_eq]
    rfl
  have done : (i.eval 5 Store.root call).completes w = true := by decide +kernel
  exact eval_expander i rfl w Store.root "m" .computed l body bound rfl 5 6 (by decide) _ _ _ done

end Interpreter

end Sexpr
