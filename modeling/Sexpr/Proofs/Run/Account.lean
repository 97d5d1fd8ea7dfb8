/-
Accounts: runs that keep a journal.

An account is a run together with its journal. The world is changed by events only, and a
signal is made and caught only with an event that says so. An account tells a run
(`Account.Tells`) if it ends as the run does and its journal leads there (`Event.LeadTo`):
the events take the world at the start to the world at the end, and follow on each other as
they may. Telling is closed under all that evaluation composes runs with.
-/

import Sexpr.Proofs.Run.Journal

namespace Sexpr

/-- The events of a run, and what it ends with. -/
def Account (α : Type) := World → List Event × EStateM.Result Stop World α

namespace Account

variable {α β : Type}

/-- The journal of the first part comes first. -/
protected def bind (x : Account α) (f : α → Account β) : Account β := fun w =>
  match x w with
  | (events, .ok a w) => (events ++ (f a w).1, (f a w).2)
  | (events, .error stop w) => (events, .error stop w)

instance : Monad Account where
  pure a := fun w => ([], .ok a w)
  bind := Account.bind

/-- The world as it stands. -/
def look : Account World := fun w => ([], .ok w w)

def outOfFuel : Account α := fun w => ([], .error .outOfFuel w)

def exit (status : Int) : Account α := fun w => ([], .error (.exited status) w)

/-- An event that changes the world. -/
def note (e : Event) : Account Unit := fun w => ([e], .ok () (e.apply w))

/-- Makes a signal. -/
def raise (s : Signal) : Account α := fun w => ([.raised s], .error (.raised s) w)

def fail (fault : Fault) (origin : Place) : Account α :=
  raise (.ofFault fault origin)

def ofExcept (origin : Place) : Except Fault α → Account α
  | .ok a => pure a
  | .error fault => fail fault origin

def tick (limits : Limits) (p : Place) : Account Unit := do
  note .ticked
  match limits.budget with
  | none => return ()
  | some budget => if budget < (← look).steps then fail (.budgetExhausted budget) p

/-- Makes a frame in which some names are bound; gives its number. -/
def openFrame (parent : FrameId) (name : String) (bindings : Bindings) : Account FrameId := do
  let id := (← look).store.frames.size
  note (.opened parent name bindings)
  return id

/-- Gives a serial number away. -/
def number : Account Nat := do
  let serial := (← look).store.serial
  note .numbered
  return serial

/-- What happens at a mark when what it stands for ends. -/
def atMark (m : Mark) :
    EStateM.Result Stop World α → List Event × EStateM.Result Stop World (Node ⊕ α)
  | .ok a w => ([.left m], .ok (.inr a) w)
  | .error (.raised s) w =>
    if m.catches s then ([.caught m s], .ok (.inl s.payload) w)
    else ([.passed m], .error (.raised (m.pass s)) w)
  | .error stop w => ([], .error stop w)

/-- Carries out what the mark stands for. Gives the payload of a signal that the mark
catches. -/
def within (m : Mark) (x : Account α) : Account (Node ⊕ α) := fun w =>
  let (events, result) := x w
  let (last, result) := atMark m result
  (.entered m :: events ++ last, result)

/-- What the payload of a signal takes the place of. -/
def either : Node ⊕ Node → Account Node
  | .inl payload => return payload
  | .inr value => return value

end Account

/-! ### Accounts and runs -/

/-- The events lead from a world to the end of a run, wherever the run takes place. A result is
reached where the run began, a signal is on its way from there, and a run that is broken off
otherwise may be deeper inside. -/
def Event.LeadTo {α : Type} (w : World) (events : List Event) :
    EStateM.Result Stop World α → Prop
  | .ok _ w' => Event.replay w events = w' ∧
      ∀ marks, Situation.Follows (.running marks) events (.running marks)
  | .error (.raised s) w' => Event.replay w events = w' ∧
      ∀ marks, Situation.Follows (.running marks) events (.flying s marks)
  | .error _ w' => Event.replay w events = w' ∧
      ∀ marks, ∃ inner, Situation.Follows (.running marks) events (.running (inner ++ marks))

namespace Event.LeadTo

variable {α β : Type} {w w' : World} {events events' : List Event} {a : α}

theorem nil (a : α) : LeadTo w [] (.ok a w) :=
  ⟨rfl, fun _ => .nil⟩

theorem effect {e : Event} (isEffect : e.isEffect = true) (a : α) :
    LeadTo w [e] (.ok a (e.apply w)) :=
  ⟨rfl, fun _ => (Situation.Step.effect isEffect).follows⟩

theorem append {result : EStateM.Result Stop World β} (h : LeadTo w events (.ok a w'))
    (h' : LeadTo w' events' result) : LeadTo w (events ++ events') result := by
  obtain ⟨rfl, front⟩ := h
  cases result with
  | ok b w'' =>
    obtain ⟨rfl, back⟩ := h'
    exact ⟨replay_append w events events', fun marks => (front marks).append (back marks)⟩
  | error stop w'' =>
    cases stop with
    | raised s =>
      obtain ⟨rfl, back⟩ := h'
      exact ⟨replay_append w events events', fun marks => (front marks).append (back marks)⟩
    | exited | outOfFuel =>
      obtain ⟨rfl, back⟩ := h'
      refine ⟨replay_append w events events', fun marks => ?_⟩
      obtain ⟨inner, back⟩ := back marks
      exact ⟨inner, (front marks).append back⟩

/-- Without a result it does not matter what the result would have been. -/
theorem of_error {stop : Stop} (h : LeadTo w events (.error stop w' : EStateM.Result _ _ α)) :
    LeadTo w events (.error stop w' : EStateM.Result _ _ β) := by
  cases stop <;> exact h

end Event.LeadTo

namespace Account

variable {α β : Type}

/-- From every world, the account gives the result of the run, and its journal leads there. -/
def Tells (y : Account α) (x : Run α) : Prop :=
  ∀ w, (y w).2 = x w ∧ Event.LeadTo w (y w).1 (x w)

theorem bind_of_ok {y : Account α} {w w' : World} {a : α} (g : α → Account β)
    (h : (y w).2 = .ok a w') : (y >>= g) w = ((y w).1 ++ (g a w').1, (g a w').2) := by
  simp only [Bind.bind, Account.bind]
  rcases outcome : y w with ⟨events, result⟩
  rw [outcome] at h
  subst h
  rfl

theorem bind_of_error {y : Account α} {w w' : World} {stop : Stop} (g : α → Account β)
    (h : (y w).2 = .error stop w') : (y >>= g) w = ((y w).1, .error stop w') := by
  simp only [Bind.bind, Account.bind]
  rcases outcome : y w with ⟨events, result⟩
  rw [outcome] at h
  subst h
  rfl

namespace Tells

theorem pure (a : α) : Tells (Pure.pure a) (Pure.pure a) :=
  fun _ => ⟨rfl, .nil a⟩

theorem look : Tells Account.look (get : Run World) :=
  fun w => ⟨rfl, .nil w⟩

theorem raise (s : Signal) : Tells (Account.raise s) (Run.raise s : Run α) :=
  fun _ => ⟨rfl, rfl, fun _ => Situation.Step.raise.follows⟩

theorem fail (fault : Fault) (p : Place) :
    Tells (Account.fail fault p) (Run.fail fault p : Run α) :=
  raise _

theorem ofExcept (p : Place) (x : Except Fault α) :
    Tells (Account.ofExcept p x) (Run.ofExcept p x) := by
  cases x with
  | ok a => exact pure a
  | error fault => exact fail fault p

theorem outOfFuel : Tells Account.outOfFuel (throw .outOfFuel : Run α) :=
  fun _ => ⟨rfl, rfl, fun _ => ⟨[], .nil⟩⟩

theorem exit (status : Int) : Tells (Account.exit status) (throw (.exited status) : Run α) :=
  fun _ => ⟨rfl, rfl, fun _ => ⟨[], .nil⟩⟩

theorem bind {y : Account α} {x : Run α} {g : α → Account β} {f : α → Run β} (h : y.Tells x)
    (next : ∀ a, (g a).Tells (f a)) : (y >>= g).Tells (x >>= f) := by
  intro w
  obtain ⟨same, leads⟩ := h w
  cases outcome : x w with
  | ok a w' =>
    rw [outcome] at same leads
    obtain ⟨same', leads'⟩ := next a w'
    have whole : (x >>= f) w = f a w' := by
      simp only [Bind.bind, EStateM.bind, outcome]
    rw [bind_of_ok g same, whole]
    exact ⟨same', leads.append leads'⟩
  | error stop w' =>
    rw [outcome] at same leads
    have whole : (x >>= f) w = .error stop w' := by
      simp only [Bind.bind, EStateM.bind, outcome]
    rw [bind_of_error g same, whole]
    exact ⟨rfl, leads.of_error⟩

/-! #### Effects -/

/-- An effect on the world is an event. -/
theorem note {e : Event} (isEffect : e.isEffect = true) :
    Tells (Account.note e) (modify (Event.apply · e) : Run Unit) :=
  fun _ => ⟨rfl, .effect isEffect ()⟩

theorem tick (limits : Limits) (p : Place) : Tells (Account.tick limits p) (Run.tick limits p) := by
  unfold Account.tick Run.tick
  apply (note rfl).bind
  intro _
  cases limits.budget with
  | none => exact pure ()
  | some budget =>
    apply look.bind
    intro w
    split
    · exact fail _ _
    · exact pure ()

theorem openFrame (parent : FrameId) (name : String) (bindings : Bindings) :
    Tells (Account.openFrame parent name bindings)
      (Run.updateStore fun s =>
        let (id, s) := s.push parent name
        (id, s.defineAll id bindings)) :=
  fun w => ⟨rfl, .effect rfl w.store.frames.size⟩

theorem number :
    Tells Account.number (Run.updateStore fun s => (s.serial, { s with serial := s.serial + 1 })) :=
  fun w => ⟨rfl, .effect rfl w.store.serial⟩

end Tells

end Account

/-! #### Marks -/

theorem Account.atMark_of_catches {α : Type} {m : Mark} {s : Signal} (h : m.catches s = true)
    (w : World) :
    atMark m (.error (.raised s) w : EStateM.Result _ _ α) =
      ([.caught m s], .ok (.inl s.payload) w) :=
  if_pos h

theorem Account.atMark_of_spares {α : Type} {m : Mark} {s : Signal} (h : m.catches s = false)
    (w : World) :
    atMark m (.error (.raised s) w : EStateM.Result _ _ α) =
      ([.passed m], .error (.raised (m.pass s)) w) :=
  if_neg (Bool.eq_false_iff.mp h)

theorem Event.LeadTo.atMark {α : Type} {w : World} {events : List Event}
    {result : EStateM.Result Stop World α} (h : LeadTo w events result) (m : Mark) :
    LeadTo w (.entered m :: events ++ (Account.atMark m result).1) (Account.atMark m result).2 := by
  rcases result with ⟨a, w'⟩ | ⟨s | status | _, w'⟩
  · obtain ⟨rfl, path⟩ := h
    refine ⟨replay_append w events [.left m], fun marks => ?_⟩
    exact .cons .enter ((path (m :: marks)).append Situation.Step.leave.follows)
  · obtain ⟨rfl, path⟩ := h
    cases caught : m.catches s with
    | true =>
      rw [Account.atMark_of_catches caught]
      refine ⟨replay_append w events [.caught m s], fun marks => ?_⟩
      exact .cons .enter ((path (m :: marks)).append (Situation.Step.intercept caught).follows)
    | false =>
      rw [Account.atMark_of_spares caught]
      refine ⟨replay_append w events [.passed m], fun marks => ?_⟩
      exact .cons .enter ((path (m :: marks)).append (Situation.Step.pass caught).follows)
  -- a run that is broken off stays inside of the mark
  all_goals
    obtain ⟨rfl, path⟩ := h
    refine ⟨replay_append w events [], fun marks => ?_⟩
    obtain ⟨inner, path⟩ := path (m :: marks)
    refine ⟨inner ++ [m], ?_⟩
    rw [List.append_assoc]
    exact .cons .enter (path.append .nil)

/-- A run inside of a mark. -/
def Run.within {α : Type} (m : Mark) (x : Run α) : Run (Node ⊕ α) :=
  fun w => (Account.atMark m (x w)).2

/-- Loops and calls record nothing about a signal that passes. -/
theorem Run.within_eq_catching {α : Type} (m : Mark) (silent : ∀ s, m.pass s = s) (x : Run α) :
    x.within m = x.catching m.catches := by
  funext w
  simp only [within, catching]
  rcases x w with ⟨a, w'⟩ | ⟨s | status | _, w'⟩
  · rfl
  · cases caught : m.catches s with
    | true => simp only [Account.atMark_of_catches caught, caught, if_true]
    | false =>
      simp only [Account.atMark_of_spares caught, caught, silent, Bool.false_eq_true, if_false]
  all_goals rfl

namespace Account.Tells

variable {α : Type}

theorem within (m : Mark) {y : Account α} {x : Run α} (h : y.Tells x) :
    (y.within m).Tells (x.within m) := by
  intro w
  obtain ⟨same, leads⟩ := h w
  show (Account.atMark m (y w).2).2 = _ ∧
    Event.LeadTo w (.entered m :: (y w).1 ++ (Account.atMark m (y w).2).1) _
  rw [same]
  exact ⟨rfl, leads.atMark m⟩

theorem loop {y : Account α} {x : Run α} (h : y.Tells x) :
    (y.within .loop).Tells (x.catching Signal.isBreak) :=
  Run.within_eq_catching .loop (fun _ => rfl) x ▸ h.within .loop

theorem body {y : Account α} {x : Run α} (h : y.Tells x) :
    (y.within .body).Tells (x.catching Signal.isReturn) :=
  Run.within_eq_catching .body (fun _ => rfl) x ▸ h.within .body

theorem either (left : Node ⊕ Node) :
    (Account.either left).Tells
      (match left with
        | .inl payload => Pure.pure payload
        | .inr value => Pure.pure value) := by
  cases left <;> exact pure _

end Account.Tells

/-- An expression catches nothing and records what passes. -/
theorem Run.traced_eq (p : Place) (x : Run Node) :
    x.traced p = (do
      match ← x.within (.expression p) with
      | .inl payload => return payload
      | .inr value => return value) := by
  funext w
  simp only [traced, within, Bind.bind, EStateM.bind]
  rcases x w with ⟨a, w'⟩ | ⟨s | status | _, w'⟩ <;> rfl

theorem Account.Tells.traced (p : Place) {y : Account Node} {x : Run Node} (h : y.Tells x) :
    (y.within (.expression p) >>= Account.either).Tells (x.traced p) := by
  rw [Run.traced_eq]
  exact (h.within _).bind .either

end Sexpr
