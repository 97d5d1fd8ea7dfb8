/-
Journals: what happens in a run, event by event.

A journal lists the effects of a run on the world, the marks that it enters and leaves,
and what becomes of its signals. A mark stands for something that a signal meets on its
way out: an expression, which only records that the signal passed, the body of a loop, or
the body of a call. `Situation.Step` says which event may follow on which: while a signal
is on its way, it passes marks or is caught, and nothing else happens. From this one rule
follows what becomes of every signal (`Situation.Follows.flying`) and where it comes from
(`Situation.Follows.made`).
-/

import Sexpr.Proofs.Run.Limits

namespace Sexpr

/-- What a signal can meet on its way out. -/
inductive Mark where
  | expression (place : Place)
  | loop
  /-- The body of a function or an expander. -/
  | body

namespace Mark

/-- The mark ends the way of the signal. -/
def catches : Mark → Signal → Bool
  | .expression _, _ => false
  | .loop, s => s.isBreak
  | .body, s => s.isReturn

/-- The signal behind the mark. -/
def pass : Mark → Signal → Signal
  | .expression p, s => s.through p
  | .loop, s | .body, s => s

@[simp] theorem control_pass (m : Mark) (s : Signal) : (m.pass s).control = s.control := by
  cases m with
  | expression p => exact s.control_through p
  | _ => rfl

@[simp] theorem origin_pass (m : Mark) (s : Signal) : (m.pass s).origin = s.origin := by
  cases m with
  | expression p => exact s.origin_through p
  | _ => rfl

/-- Whether a mark catches a signal is a matter of what the signal is for. -/
theorem catches_congr (m : Mark) {s s' : Signal} (h : s.control = s'.control) :
    m.catches s = m.catches s' := by
  cases m with
  | expression p => rfl
  | loop => simp only [catches, Signal.isBreak, h]
  | body => simp only [catches, Signal.isReturn, h]

/-- No mark catches a fault. -/
theorem fault?_of_catches {m : Mark} {s : Signal} (h : m.catches s = true) : s.fault? = none := by
  cases m with
  | expression p => cases h
  | loop => exact s.fault?_of_isBreak h
  | body => exact s.fault?_of_isReturn h

/-- The signal behind several marks, of which it meets the first one first. -/
def passAll (marks : List Mark) (s : Signal) : Signal :=
  marks.foldl (fun s m => m.pass s) s

@[simp] theorem control_passAll (marks : List Mark) (s : Signal) :
    (passAll marks s).control = s.control := by
  induction marks generalizing s with
  | nil => rfl
  | cons m marks ih => exact (ih (m.pass s)).trans (m.control_pass s)

@[simp] theorem origin_passAll (marks : List Mark) (s : Signal) :
    (passAll marks s).origin = s.origin := by
  induction marks generalizing s with
  | nil => rfl
  | cons m marks ih => exact (ih (m.pass s)).trans (m.origin_pass s)

end Mark

inductive Event where
  /-- A step is counted. -/
  | ticked
  /-- A name is bound in a frame. -/
  | bound (frame : FrameId) (name : String) (value : Node)
  /-- A frame is made and its first names are bound. -/
  | opened (parent : FrameId) (name : String) (bindings : Bindings)
  /-- A serial number is given away. -/
  | numbered
  | wrote (text : String)
  /-- What the mark stands for begins. -/
  | entered (mark : Mark)
  /-- What the mark stands for ends with a result. -/
  | left (mark : Mark)
  /-- A signal is made. -/
  | raised (signal : Signal)
  | passed (mark : Mark)
  | caught (mark : Mark) (signal : Signal)

namespace Event

/-- The event changes the world. -/
def isEffect : Event → Bool
  | .ticked | .bound _ _ _ | .opened _ _ _ | .numbered | .wrote _ => true
  | _ => false

/-- The world after the event. -/
def apply (w : World) : Event → World
  | .ticked => { w with steps := w.steps + 1 }
  | .bound frame name value => { w with store := w.store.define frame name value }
  | .opened parent name bindings =>
    let (id, store) := w.store.push parent name
    { w with store := store.defineAll id bindings }
  | .numbered => { w with store := { w.store with serial := w.store.serial + 1 } }
  | .wrote text => { w with output := w.output ++ text }
  | .entered _ | .left _ | .raised _ | .passed _ | .caught _ _ => w

/-- The world after several events. -/
def replay (w : World) (events : List Event) : World :=
  events.foldl apply w

theorem replay_append (w : World) (events events' : List Event) :
    replay w (events ++ events') = replay (replay w events) events' :=
  List.foldl_append

/-- Nothing changes while a signal is on its way. -/
theorem replay_passed (w : World) (marks : List Mark) : replay w (marks.map .passed) = w := by
  induction marks with
  | nil => rfl
  | cons m marks ih => exact ih

/-- The marks that have been entered and not been left since, the innermost first, if
`marks` had been entered before. -/
def marksAfter (marks : List Mark) : List Event → List Mark
  | [] => marks
  | .entered m :: events => marksAfter (m :: marks) events
  | .left _ :: events | .passed _ :: events | .caught _ _ :: events =>
    marksAfter marks.tail events
  | _ :: events => marksAfter marks events

end Event

/-- Where a run stands: it goes on, or a signal is on its way out of it. The marks that it is
inside of come innermost first. -/
inductive Situation where
  | running (marks : List Mark)
  | flying (signal : Signal) (marks : List Mark)

namespace Situation

def marks : Situation → List Mark
  | .running marks | .flying _ marks => marks

/-- Which event may happen, and where it leads. -/
inductive Step : Situation → Event → Situation → Prop where
  | effect {marks : List Mark} {e : Event} : e.isEffect = true →
      Step (.running marks) e (.running marks)
  | enter {marks : List Mark} {m : Mark} :
      Step (.running marks) (.entered m) (.running (m :: marks))
  | leave {marks : List Mark} {m : Mark} :
      Step (.running (m :: marks)) (.left m) (.running marks)
  | raise {marks : List Mark} {s : Signal} : Step (.running marks) (.raised s) (.flying s marks)
  | pass {marks : List Mark} {m : Mark} {s : Signal} : m.catches s = false →
      Step (.flying s (m :: marks)) (.passed m) (.flying (m.pass s) marks)
  | intercept {marks : List Mark} {m : Mark} {s : Signal} : m.catches s = true →
      Step (.flying s (m :: marks)) (.caught m s) (.running marks)

/-- The events may happen one after the other. -/
inductive Follows : Situation → List Event → Situation → Prop where
  | nil {a : Situation} : Follows a [] a
  | cons {a b c : Situation} {e : Event} {events : List Event} :
      Step a e b → Follows b events c → Follows a (e :: events) c

theorem Step.follows {a b : Situation} {e : Event} (h : Step a e b) : Follows a [e] b :=
  .cons h .nil

theorem Follows.append {a b c : Situation} {events events' : List Event} (h : Follows a events b)
    (h' : Follows b events' c) : Follows a (events ++ events') c := by
  induction h with
  | nil => exact h'
  | cons step _ ih => exact .cons step (ih h')

theorem Follows.split {a c : Situation} {events events' : List Event}
    (h : Follows a (events ++ events') c) : ∃ b, Follows a events b ∧ Follows b events' c := by
  induction events generalizing a with
  | nil => exact ⟨a, .nil, h⟩
  | cons e events ih =>
    cases h with
    | cons step rest =>
      obtain ⟨b, front, back⟩ := ih rest
      exact ⟨b, .cons step front, back⟩

theorem Step.marksAfter {a b : Situation} {e : Event} (h : Step a e b) (events : List Event) :
    Event.marksAfter a.marks (e :: events) = Event.marksAfter b.marks events := by
  cases h with
  | effect isEffect =>
    cases e with
    | ticked | bound | opened | numbered | wrote => rfl
    | _ => cases isEffect
  | _ => rfl

theorem Follows.marksAfter {a b : Situation} {events : List Event} (h : Follows a events b) :
    Event.marksAfter a.marks events = b.marks := by
  induction h with
  | nil => rfl
  | cons step _ ih => exact (step.marksAfter _).trans ih

/-- A signal on its way passes the innermost marks, up to one that catches it or all of them,
and until then nothing else happens. -/
theorem Follows.flying {s : Signal} {marks : List Mark} {events : List Event} {last : Situation}
    (h : Follows (.flying s marks) events last) :
    ∃ passed outer, marks = passed ++ outer ∧ (∀ m ∈ passed, m.catches s = false) ∧
      ((∃ m inner rest, outer = m :: inner ∧ m.catches s = true ∧
          events = passed.map .passed ++ .caught m (Mark.passAll passed s) :: rest) ∨
        (events = passed.map .passed ∧ last = .flying (Mark.passAll passed s) outer)) := by
  induction events generalizing s marks with
  | nil =>
    cases h
    exact ⟨[], marks, rfl, fun m mem => (nomatch mem), .inr ⟨rfl, rfl⟩⟩
  | cons e events ih =>
    cases h with
    | cons step rest =>
      cases step with
      | intercept caught =>
        exact ⟨[], _, rfl, fun m mem => (nomatch mem), .inl ⟨_, _, events, rfl, caught, rfl⟩⟩
      | @pass marks m s spared =>
        obtain ⟨passed, outer, rfl, spares, ends⟩ := ih rest
        have same (m' : Mark) : m'.catches (m.pass s) = m'.catches s :=
          m'.catches_congr (m.control_pass s)
        refine ⟨m :: passed, outer, rfl, ?_, ?_⟩
        · refine List.forall_mem_cons.mpr ⟨spared, fun m' mem => ?_⟩
          rw [← same]
          exact spares m' mem
        · rcases ends with ⟨m', inner, later, rfl, caught, rfl⟩ | ⟨rfl, rfl⟩
          · exact .inl ⟨m', inner, later, rfl, (same m').symm.trans caught, rfl⟩
          · exact .inr ⟨rfl, rfl⟩

/-- Only a run that goes on can make a signal. -/
theorem Follows.raised {a last : Situation} {before after : List Event} {s : Signal}
    (h : Follows a (before ++ .raised s :: after) last) :
    ∃ marks, Follows a before (.running marks) ∧ Follows (.flying s marks) after last := by
  obtain ⟨b, front, back⟩ := h.split
  cases back with
  | cons step rest =>
    cases step with
    | effect isEffect => cases isEffect
    | @raise marks _ => exact ⟨marks, front, rest⟩

/-- A signal that is on its way has been made, unless it was on its way from the start, and
has only passed marks since. -/
theorem Follows.made_or_flying {a : Situation} {events : List Event} {s : Signal}
    {marks : List Mark} (h : Follows a events (.flying s marks)) :
    (∃ earlier made passed, events = earlier ++ .raised made :: passed.map .passed ∧
      s = Mark.passAll passed made) ∨
    ∃ first outer passed, a = .flying first outer ∧ events = passed.map .passed ∧
      s = Mark.passAll passed first := by
  induction events generalizing a with
  | nil =>
    cases h
    exact .inr ⟨s, marks, [], rfl, rfl, rfl⟩
  | cons e events ih =>
    cases h with
    | cons step rest =>
      rcases ih rest with ⟨earlier, made, passed, rfl, rfl⟩ | ⟨first, outer, passed, rfl, rfl, rfl⟩
      · exact .inl ⟨e :: earlier, made, passed, rfl, rfl⟩
      · cases step with
        | raise => exact .inl ⟨[], first, passed, rfl, rfl⟩
        | @pass _ m s _ => exact .inr ⟨s, _, m :: passed, rfl, rfl, rfl⟩

theorem Follows.made {inside marks : List Mark} {events : List Event} {s : Signal}
    (h : Follows (.running inside) events (.flying s marks)) :
    ∃ earlier made passed, events = earlier ++ .raised made :: passed.map .passed ∧
      s = Mark.passAll passed made := by
  rcases h.made_or_flying with made | ⟨first, outer, passed, start, _⟩
  · exact made
  · cases start

/-- What is caught was on its way. -/
theorem Follows.caught {inside : List Mark} {before after : List Event} {m : Mark} {s : Signal}
    {last : Situation} (h : Follows (.running inside) (before ++ .caught m s :: after) last) :
    m.catches s = true ∧ ∃ earlier made passed,
      before = earlier ++ .raised made :: passed.map .passed ∧ s = Mark.passAll passed made := by
  obtain ⟨b, front, back⟩ := h.split
  cases back with
  | cons step rest =>
    cases step with
    | effect isEffect => cases isEffect
    | intercept catches => exact ⟨catches, front.made⟩

end Situation

end Sexpr
