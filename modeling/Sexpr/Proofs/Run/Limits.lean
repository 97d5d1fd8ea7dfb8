/-
Limits and fuel: how far a run goes, and not where it leads.

`Run.Agrees excused x y` says that `y` ends as `x` does, unless `x` stops for a
reason that is excused. Nothing catches such a stop, so agreement is a discipline
(`Discipline.agreement`). With running out of fuel as the only excuse it gives
`Interpreter.evalAt_refines`: more fuel never changes an answer. With the faults of
the limits as excuses too it gives `Interpreter.evalAt_eq_of_limits_le`: higher limits
never change an answer that was found within the lower ones.
-/

import Sexpr.Proofs.Run.Discipline

namespace Sexpr

/-! ### Stops that may be excused -/

/-- A reason to stop that no part of evaluation intercepts: running out of fuel, and
perhaps some faults, wherever they are raised. -/
structure Stop.Final (excused : Stop → Prop) : Prop where
  outOfFuel : excused .outOfFuel
  through : ∀ {s : Signal} (p : Place), excused (.raised s) → excused (.raised (s.through p))
  isFault : ∀ {s : Signal}, excused (.raised s) → s.fault? ≠ none

namespace Run

variable {α β : Type} {excused : Stop → Prop}

/-- The second run ends as the first does, unless the first has an excuse. -/
def Agrees (excused : Stop → Prop) (x y : Run α) : Prop :=
  ∀ w, (∃ stop w', x w = .error stop w' ∧ excused stop) ∨ x w = y w

theorem Agrees.refl (x : Run α) : Agrees excused x x :=
  fun _ => .inr rfl

theorem Agrees.bind {x y : Run α} {f g : α → Run β} (h : Agrees excused x y)
    (k : ∀ a, Agrees excused (f a) (g a)) : Agrees excused (x >>= f) (y >>= g) := by
  intro w
  simp only [Bind.bind, EStateM.bind]
  rcases h w with ⟨stop, w', stopped, excuse⟩ | same
  · rw [stopped]
    exact .inl ⟨stop, w', rfl, excuse⟩
  · rw [← same]
    cases x w with
    | ok a w => exact k a w
    | error stop w => exact .inr rfl

theorem Agrees.traced (final : Stop.Final excused) {x y : Run α} (p : Place)
    (h : Agrees excused x y) : Agrees excused (x.traced p) (y.traced p) := by
  intro w
  simp only [Run.traced]
  rcases h w with ⟨stop, w', stopped, excuse⟩ | same
  · rw [stopped]
    left
    cases stop with
    | raised s => exact ⟨_, w', rfl, final.through p excuse⟩
    | exited status => exact ⟨_, w', rfl, excuse⟩
    | outOfFuel => exact ⟨_, w', rfl, excuse⟩
  · rw [same]
    exact .inr rfl

theorem Agrees.catching (final : Stop.Final excused) {x y : Run α} {caught : Signal → Bool}
    (spares : ∀ s, caught s = true → s.fault? = none) (h : Agrees excused x y) :
    Agrees excused (x.catching caught) (y.catching caught) := by
  intro w
  simp only [Run.catching]
  rcases h w with ⟨stop, w', stopped, excuse⟩ | same
  · rw [stopped]
    left
    cases stop with
    | raised s =>
      have passes : caught s = false := by
        cases isCaught : caught s with
        | false => rfl
        | true => exact absurd (spares s isCaught) (final.isFault excuse)
      simp only [passes]
      exact ⟨_, w', rfl, excuse⟩
    | exited status => exact ⟨_, w', rfl, excuse⟩
    | outOfFuel => exact ⟨_, w', rfl, excuse⟩
  · rw [same]
    exact .inr rfl

end Run

/-- The limits are checked in two places, when a step is counted and before a node is
evaluated; agreement is a discipline if it survives these checks. -/
def Discipline.agreement {limits limits' : Limits} {excused : Stop → Prop}
    (final : Stop.Final excused)
    (tick : ∀ p, Run.Agrees excused (Run.tick limits p) (Run.tick limits' p))
    (guard : ∀ {α : Type} {x y : Run α} (depth : Nat) (p : Place), Run.Agrees excused x y →
      Run.Agrees excused
        (if limits.depth ≤ depth then Run.fail (.depthExceeded limits.depth) p else x)
        (if limits'.depth ≤ depth then Run.fail (.depthExceeded limits'.depth) p else y)) :
    Discipline limits limits' where
  Holds := fun _ => Run.Agrees excused
  still := fun _ _ => .refl _
  define := fun _ _ _ => .refl _
  tick := fun _ => tick
  guard := guard
  bind := .bind
  traced := .traced final
  catching := .catching final
  scope := fun _ _ h => .bind (.refl _) h
  outOfFuel := fun _ _ w => .inl ⟨_, w, rfl, final.outOfFuel⟩

/-! ### Fuel -/

/-- Running out of fuel is the one excuse. -/
theorem Stop.final_outOfFuel : Stop.Final (· = .outOfFuel) where
  outOfFuel := rfl
  through := fun _ h => nomatch h
  isFault := fun h => nomatch h

/-- Agreement up to fuel, under the same limits. -/
def Discipline.fuel (limits : Limits) : Discipline limits limits :=
  .agreement Stop.final_outOfFuel (fun _ => .refl _) fun depth p h => by
    split
    · exact .refl _
    · exact h

/-- More fuel never changes an answer. -/
theorem Interpreter.evalAt_refines (i : Interpreter) {n n' : Nat} (le : n ≤ n') (node : Node)
    (frame : FrameId) (depth : Nat) :
    Run.Agrees (· = .outOfFuel) (i.evalAt n node frame depth) (i.evalAt n' node frame depth) :=
  evalAt_holds (.fuel i.limits) le node frame depth

/-! ### Limits -/

/-- The second limits are nowhere below the first. -/
structure Limits.Le (limits limits' : Limits) : Prop where
  depth_le : limits.depth ≤ limits'.depth
  budget_le : limits'.budget = none ∨
    ∃ b b', limits.budget = some b ∧ limits'.budget = some b' ∧ b ≤ b'

/-- The fault is that of a limit. -/
def Fault.isLimit : Fault → Bool
  | .depthExceeded _ | .budgetExhausted _ => true
  | _ => false

/-- The run was cut short: by a limit or for want of fuel. -/
def Stop.isCut : Stop → Bool
  | .raised s => s.fault?.any Fault.isLimit
  | .exited _ => false
  | .outOfFuel => true

/-- The run ends with a result, or by a stop of its own. -/
def Run.settles {α : Type} (x : Run α) (w : World) : Bool :=
  match x w with
  | .ok _ _ => true
  | .error stop _ => !stop.isCut

theorem Run.Agrees.eq_of_settles {α : Type} {x y : Run α} (h : Agrees (·.isCut = true) x y)
    {w : World} (settled : x.settles w = true) : y w = x w := by
  rcases h w with ⟨stop, w', stopped, cut⟩ | same
  · simp [settles, stopped, cut] at settled
  · exact same.symm

theorem Signal.fault?_through (s : Signal) (p : Place) : (s.through p).fault? = s.fault? := by
  rw [fault?, fault?, control_through]

/-- What cuts a run short is intercepted nowhere. -/
theorem Stop.final_isCut : Stop.Final (·.isCut = true) where
  outOfFuel := rfl
  through := fun {s} p h => by
    rw [isCut] at h ⊢
    rwa [Signal.fault?_through]
  isFault := fun {s} h none => by
    rw [isCut, none] at h
    cases h

theorem Run.tick_of_none {limits : Limits} (h : limits.budget = none) (p : Place) (w : World) :
    tick limits p w = .ok () { w with steps := w.steps + 1 } := by
  rw [tick, h]
  rfl

/-- A step is counted before the budget is checked. -/
theorem Run.tick_of_some {limits : Limits} {budget : Nat} (h : limits.budget = some budget)
    (p : Place) (w : World) :
    tick limits p w =
      if budget < w.steps + 1 then
        .error (.raised (.ofFault (.budgetExhausted budget) p)) { w with steps := w.steps + 1 }
      else .ok () { w with steps := w.steps + 1 } := by
  rw [tick, h]
  show (if budget < w.steps + 1 then fail (.budgetExhausted budget) p else pure () : Run Unit) _ = _
  split <;> rfl

theorem Run.agrees_tick {limits limits' : Limits} (le : limits.Le limits') (p : Place) :
    Agrees (·.isCut = true) (tick limits p) (tick limits' p) := by
  intro w
  cases given : limits.budget with
  | none =>
    rcases le.budget_le with free | ⟨b, b', some, _⟩
    · exact .inr (by rw [tick_of_none given, tick_of_none free])
    · rw [given] at some
      cases some
  | some b =>
    rw [tick_of_some given]
    split
    · exact .inl ⟨_, _, rfl, rfl⟩
    · rename_i within
      right
      rcases le.budget_le with free | ⟨c, c', same, higher, below⟩
      · rw [tick_of_none free]
      · obtain rfl : b = c := Option.some.inj (given.symm.trans same)
        rw [tick_of_some higher, if_neg (by omega)]

/-- Agreement up to the limits, of which the second are no lower. -/
def Discipline.limits {limits limits' : Limits} (le : limits.Le limits') :
    Discipline limits limits' :=
  .agreement Stop.final_isCut (Run.agrees_tick le) fun depth p h => by
    have deeper := le.depth_le
    split
    · exact fun w => .inl ⟨_, w, rfl, rfl⟩
    · rw [if_neg (by omega)]
      exact h

/-- Limits are transparent until they are hit: an evaluation that is not cut short ends
in the same way, with the same result or signal and in the same world, under any limits
that are no lower, and with any fuel that is no less. -/
theorem Interpreter.evalAt_eq_of_limits_le (i : Interpreter) (limits : Limits) (fuel fuel' : Nat)
    (node : Node) (frame : FrameId) (depth : Nat) (w : World) (higher : i.limits.Le limits)
    (more : fuel ≤ fuel') (settled : (i.evalAt fuel node frame depth).settles w = true) :
    (i.withLimits limits).evalAt fuel' node frame depth w = i.evalAt fuel node frame depth w := by
  have agrees : Run.Agrees (·.isCut = true) (i.evalAt fuel node frame depth)
      ((i.withLimits limits).evalAt fuel' node frame depth) :=
    evalAt_holds (.limits higher) more node frame depth
  exact agrees.eq_of_settles settled

/-- `(do 1)` needs a depth of two and three steps. -/
theorem Interpreter.sequence_eq_of_limits_le :
    let tight : Interpreter := { limits := ⟨2, some 3⟩ }
    let program : Node := .call .computed [.form .computed .sequence, .number .computed (.int 1)]
    (tight.withLimits ⟨5, none⟩).evalAt 4 program Store.root 0 ⟨.empty 0, 0, ""⟩ =
      tight.evalAt 2 program Store.root 0 ⟨.empty 0, 0, ""⟩ :=
  evalAt_eq_of_limits_le _ _ _ _ _ _ _ _ ⟨by decide, .inl rfl⟩ (by decide) rfl

end Sexpr
