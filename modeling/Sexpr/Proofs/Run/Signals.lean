/-
What becomes of signals.

The journal of an evaluation shows every signal that is made. Each of them passes the marks
around the place where it was made, from the inside out, until one of them catches it, or to
the end of the run (`Fate`), and on its way nothing happens. Conversely, what is caught and
what a run ends with are signals that were made. Main statement: `Interpreter.evalAt_signals`.
-/

import Sexpr.Proofs.Run.Telling

namespace Sexpr

/-- The signal `s`, made after the events `before`, passes the marks `passed` and is then `s'`. -/
structure Carries (w : World) (before : List Event) (s : Signal) (passed : List Mark)
    (s' : Signal) : Prop where
  spares : ∀ m ∈ passed, m.catches s = false
  control_eq : s'.control = s.control
  origin_eq : s'.origin = s.origin
  /-- Nothing changes on the way. -/
  replay_eq : Event.replay w (before ++ .raised s :: passed.map .passed) = Event.replay w before

theorem carries_passAll (w : World) (before : List Event) {s : Signal} {passed : List Mark}
    (spares : ∀ m ∈ passed, m.catches s = false) :
    Carries w before s passed (Mark.passAll passed s) where
  spares := spares
  control_eq := Mark.control_passAll passed s
  origin_eq := Mark.origin_passAll passed s
  replay_eq := (Event.replay_append w before _).trans (Event.replay_passed _ passed)

/-- What becomes of the signal `s`, made after the events `before` and followed by the events
`after`, in a run that ends with `result`. -/
inductive Fate {α : Type} (w : World) (before : List Event) (s : Signal) (after : List Event)
    (result : EStateM.Result Stop World α) : Prop where
  /-- It is caught by the nearest mark that catches it. -/
  | intercepted {passed outer : List Mark} {m : Mark} {s' : Signal} {rest : List Event}
      (carries : Carries w before s passed s')
      (nearest : Event.marksAfter [] before = passed ++ m :: outer)
      (caught : m.catches s = true)
      (next : after = passed.map .passed ++ .caught m s' :: rest)
  /-- It passes all marks, and the run ends with it. -/
  | escaped {passed : List Mark} {s' : Signal}
      (carries : Carries w before s passed s')
      (outermost : Event.marksAfter [] before = passed)
      (next : after = passed.map .passed)
      (ends : result = .error (.raised s') (Event.replay w before))

namespace Event.LeadTo

variable {α : Type} {w : World} {events before after : List Event} {s : Signal}
  {result : EStateM.Result Stop World α}

/-- A signal that is on its way at the end is what the run ends with. -/
theorem journey (h : LeadTo w events result) :
    ∃ last, Situation.Follows (.running []) events last ∧
      ∀ s marks, last = .flying s marks →
        marks = [] ∧ result = .error (.raised s) (replay w events) := by
  rcases result with ⟨a, w'⟩ | ⟨s | status | _, w'⟩
  · exact ⟨_, h.2 [], fun s marks flying => by cases flying⟩
  · obtain ⟨rfl, path⟩ := h
    refine ⟨_, path [], fun s' marks flying => ?_⟩
    cases flying
    exact ⟨rfl, rfl⟩
  all_goals
    obtain ⟨inner, path⟩ := h.2 []
    exact ⟨_, path, fun s marks flying => by cases flying⟩

/-- Every signal that is made has its fate. -/
theorem fate (h : LeadTo w (before ++ .raised s :: after) result) :
    Fate w before s after result := by
  obtain ⟨last, path, lands⟩ := h.journey
  obtain ⟨marks, front, back⟩ := path.raised
  have inside : marksAfter [] before = marks := front.marksAfter
  obtain ⟨passed, outer, rfl, spares, ends⟩ := back.flying
  have carries := carries_passAll w before spares
  rcases ends with ⟨m, inner, rest, rfl, caught, rfl⟩ | ⟨rfl, rfl⟩
  · exact .intercepted carries inside caught rfl
  · obtain ⟨rfl, ends⟩ := lands _ _ rfl
    rw [List.append_nil] at inside
    exact .escaped carries inside rfl (carries.replay_eq ▸ ends)

/-- A run that raises a fault ends with it and raises nothing after it. -/
theorem ends_of_fault (h : LeadTo w (before ++ .raised s :: after) result)
    (isFault : s.fault? ≠ none) :
    (∃ s', result = .error (.raised s') (replay w before) ∧ s'.control = s.control ∧
      s'.origin = s.origin) ∧ ∀ s', .raised s' ∉ after := by
  cases h.fate with
  | intercepted carries nearest caught next => exact absurd (Mark.fault?_of_catches caught) isFault
  | escaped carries outermost next ends =>
    refine ⟨⟨_, ends, carries.control_eq, carries.origin_eq⟩, fun s' mem => ?_⟩
    rw [next] at mem
    obtain ⟨m, _, passed⟩ := List.mem_map.mp mem
    cases passed

/-- What is caught was made before and has only passed marks since. -/
theorem made_of_caught {m : Mark} (h : LeadTo w (before ++ .caught m s :: after) result) :
    ∃ earlier made, ∃ passed : List Mark, before = earlier ++ .raised made :: passed.map .passed ∧
      m.catches made = true ∧ s.control = made.control ∧ s.origin = made.origin := by
  obtain ⟨last, path, _⟩ := h.journey
  obtain ⟨catches, earlier, made, passed, rfl, rfl⟩ := path.caught
  have control := Mark.control_passAll passed made
  refine ⟨earlier, made, passed, rfl, ?_, control, Mark.origin_passAll passed made⟩
  exact (m.catches_congr control).symm.trans catches

/-- What a run ends with was made and has only passed marks since. -/
theorem made_of_ends {w' : World}
    (h : LeadTo w events (.error (.raised s) w' : EStateM.Result _ _ α)) :
    ∃ earlier made, ∃ passed : List Mark, events = earlier ++ .raised made :: passed.map .passed ∧
      s.control = made.control ∧ s.origin = made.origin := by
  obtain ⟨earlier, made, passed, rfl, rfl⟩ := (h.2 []).made
  exact ⟨earlier, made, passed, rfl, Mark.control_passAll passed made,
    Mark.origin_passAll passed made⟩

theorem replay_eq_final {x : Run α} (h : LeadTo w events (x w)) :
    replay w events = x.final w := by
  unfold Run.final
  rcases outcome : x w with ⟨a, w'⟩ | ⟨s | status | _, w'⟩ <;>
  · rw [outcome] at h
    exact h.1

end Event.LeadTo

/-- No signal is lost, altered or followed by effects. The journal of an evaluation has its
result and leads to the world at its end. Every signal that is made is caught by the nearest mark
that catches such signals, or the run ends with it. A fault is never caught: the run ends with
it and makes no other signal after it. What is caught and what a run ends with was made. -/
theorem Interpreter.evalAt_signals (i : Interpreter) (fuel : Nat) (node : Node) (frame : FrameId)
    (depth : Nat) (w : World) :
    let journal := (i.tell fuel node frame depth w).1
    let run := i.evalAt fuel node frame depth
    (i.tell fuel node frame depth w).2 = run w ∧
    Event.replay w journal = run.final w ∧
    (∀ before s after, journal = before ++ .raised s :: after → Fate w before s after (run w)) ∧
    (∀ before s after, journal = before ++ .raised s :: after → s.fault? ≠ none →
      (∃ s', run w = .error (.raised s') (Event.replay w before) ∧ s'.control = s.control ∧
        s'.origin = s.origin) ∧ ∀ s', .raised s' ∉ after) ∧
    (∀ before m s after, journal = before ++ .caught m s :: after →
      ∃ earlier made, ∃ passed : List Mark,
        before = earlier ++ .raised made :: passed.map .passed ∧
        m.catches made = true ∧ s.control = made.control ∧ s.origin = made.origin) ∧
    (∀ s w', run w = .error (.raised s) w' →
      ∃ earlier made, ∃ passed : List Mark,
        journal = earlier ++ .raised made :: passed.map .passed ∧
        s.control = made.control ∧ s.origin = made.origin) := by
  intro journal run
  obtain ⟨result_eq, leads⟩ : _ ∧ Event.LeadTo w journal (run w) :=
    i.tell_tells fuel node frame depth w
  refine ⟨result_eq, leads.replay_eq_final, ?_, ?_, ?_, ?_⟩
  · intro before s after made
    rw [made] at leads
    exact leads.fate
  · intro before s after made isFault
    rw [made] at leads
    exact leads.ends_of_fault isFault
  · intro before m s after caught
    rw [caught] at leads
    exact leads.made_of_caught
  · intro s w' ends
    rw [ends] at leads
    exact leads.made_of_ends

/-- The journal of `(loop (break 5))`: the signal passes the call that made it and is caught by
the loop. -/
example :
    let five : Node := .number .computed (.int 5)
    let leave : Node := .call .computed [.form .computed .leaveLoop, five]
    let signal : Signal := { control := .leaveLoop (some five), origin := .computed }
    (Interpreter.tell {} 4 (.call .computed [.form .computed .loop, leave]) Store.root 0
        ⟨.empty 0, 0, ""⟩).1 =
      [.ticked, .entered (.expression .computed), .ticked, .ticked, .entered .loop, .ticked,
        .entered (.expression .computed), .ticked, .ticked, .raised signal,
        .passed (.expression .computed), .caught .loop signal, .left (.expression .computed)] :=
  rfl

end Sexpr
