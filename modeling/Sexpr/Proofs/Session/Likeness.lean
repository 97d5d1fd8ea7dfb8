/-
Sessions respect likeness.

Sessions are alike if they evaluate in the same way and their worlds are alike. Forms that
are alike, evaluated one after the other in such sessions, give values, stops and worlds
that are alike (`Session.evaluateAll_alike`). Nothing but the world of a session changes on
the way, and forms that follow others are evaluated where these have left off
(`Session.evaluateAll_append`). `Session.feed_cases` says once what a line does to a
session.
-/

import Sexpr.Proofs.Reading.Lines
import Sexpr.Proofs.Run.Likeness
import Sexpr.Session

namespace Sexpr

namespace Likeness

variable {α β : Type} {L : Likeness}

structure Sessions (L : Likeness) (s t : Session) : Prop where
  interpreter : s.interpreter = t.interpreter
  fuel : s.fuel = t.fuel
  world : L.Worlds s.world t.world

/-- Both have a result or both have stopped, and the sessions are alike. -/
inductive Outcomes (L : Likeness) (Q : α → β → Prop) :
    Except Stop α × Session → Except Stop β × Session → Prop where
  | ok {a : α} {b : β} {s t : Session} : Q a b → L.Sessions s t → Outcomes L Q (.ok a, s) (.ok b, t)
  | error {a b : Stop} {s t : Session} : L.Stops a b → L.Sessions s t →
      Outcomes L Q (.error a, s) (.error b, t)

theorem Stops.escape {a b : Stop} (h : L.Stops a b) :
    L.Stops (Session.escape a) (Session.escape b) := by
  cases h with
  | raised signals => exact .raised signals.escaped
  | exited status => exact .exited status
  | outOfFuel => exact .outOfFuel

end Likeness

/-- The answer to an entry whose forms have been evaluated. -/
def Answer.ofValues : Except Stop (List Node) → Answer
  | .ok nodes => .values nodes
  | .error stop => .stopped stop

namespace Session

variable {L : Likeness} {s t : Session}

/-! ### Forms one after the other -/

/-- Alike forms are evaluated alike in alike sessions. -/
theorem evaluate_alike (hosts : ∀ host ∈ s.interpreter.hosts, L.RespectedBy host)
    (h : L.Sessions s t) {n m : Node} (alike : L.Nodes n m) :
    L.Outcomes L.Nodes (s.evaluate n) (t.evaluate m) := by
  have worlds : L.Worlds { s.world with steps := 0 } { t.world with steps := 0 } :=
    ⟨h.world.store, rfl, h.world.output⟩
  have ends := Interpreter.evalAt_respects hosts s.fuel Store.root 0 alike _ _ worlds
  dsimp only [evaluate, Interpreter.eval]
  rw [← h.interpreter, ← h.fuel]
  generalize s.interpreter.evalAt s.fuel n Store.root 0 _ = r at *
  generalize s.interpreter.evalAt s.fuel m Store.root 0 _ = r' at *
  cases ends with
  | ok value worlds => exact .ok value ⟨rfl, rfl, worlds⟩
  | error stops worlds => exact .error stops.escape ⟨rfl, rfl, worlds⟩

/-- Evaluation changes the world of a session and nothing else. -/
theorem evaluate_eq (s : Session) (node : Node) :
    (s.evaluate node).2 = { s with world := (s.evaluate node).2.world } := by
  unfold evaluate
  dsimp only
  split <;> rfl

theorem evaluateAll_alike (hosts : ∀ host ∈ s.interpreter.hosts, L.RespectedBy host)
    (h : L.Sessions s t) {values values' ns ms : List Node}
    (before : List.Forall₂ L.Nodes values values') (alike : List.Forall₂ L.Nodes ns ms) :
    L.Outcomes (List.Forall₂ L.Nodes) (s.evaluateAll values ns) (t.evaluateAll values' ms) := by
  induction alike generalizing s t values values' with
  | nil => exact .ok (List.rel_reverse before) h
  | @cons n m ns ms first _ ih =>
    have outcomes := evaluate_alike hosts h first
    have kept := congrArg Session.interpreter (s.evaluate_eq n)
    unfold evaluateAll
    generalize s.evaluate n = r at *
    generalize t.evaluate m = r' at *
    cases outcomes with
    | ok value sessions => exact ih (kept ▸ hosts) sessions (.cons value before)
    | error stops sessions => exact .error stops sessions

theorem evaluateAll_eq (s : Session) (values forms : List Node) :
    (s.evaluateAll values forms).2 = { s with world := (s.evaluateAll values forms).2.world } := by
  induction forms generalizing s values with
  | nil => rfl
  | cons form forms ih =>
    have first := s.evaluate_eq form
    unfold evaluateAll
    generalize s.evaluate form = r at *
    obtain ⟨value | value, t⟩ := r
    · exact first
    · have later := ih t (value :: values)
      dsimp only at first later ⊢
      rw [later, first]

/-- The values of earlier forms stay in front. -/
theorem evaluateAll_values (s : Session) (values forms : List Node) :
    s.evaluateAll values forms =
      ((s.evaluateAll [] forms).1.map (values.reverse ++ ·), (s.evaluateAll [] forms).2) := by
  induction forms generalizing s values with
  | nil => simp [evaluateAll, Except.map]
  | cons form forms ih =>
    unfold evaluateAll
    generalize s.evaluate form = r
    obtain ⟨stop | value, t⟩ := r
    · rfl
    · dsimp only
      rw [ih t (value :: values), ih t [value]]
      cases (t.evaluateAll [] forms).1 <;> simp [Except.map]

/-- Forms behind others are evaluated where these have left off. -/
theorem evaluateAll_append {ns values : List Node} (h : s.evaluateAll [] ns = (.ok values, t))
    (ms : List Node) :
    s.evaluateAll [] (ns ++ ms) =
      ((t.evaluateAll [] ms).1.map (values ++ ·), (t.evaluateAll [] ms).2) := by
  suffices general : ∀ before, s.evaluateAll before ns = (.ok values, t) →
      s.evaluateAll before (ns ++ ms) = t.evaluateAll values.reverse ms by
    rw [general [] h, evaluateAll_values, List.reverse_reverse]
  clear h
  induction ns generalizing s with
  | nil =>
    rintro before ⟨⟩
    rw [List.nil_append, List.reverse_reverse]
  | cons n ns ih =>
    intro before evaluated
    rw [List.cons_append, evaluateAll]
    rw [evaluateAll] at evaluated
    generalize s.evaluate n = r at *
    obtain ⟨stop | value, u⟩ := r
    · cases evaluated
    · exact ih _ evaluated

/-! ### Lines -/

/-- The session with the text of the current entry, and one more line, among its sources. -/
def withSource (s : Session) (line : String) : Session :=
  { s with sources := s.sources.put s.entry.label (s.entry.withLine line) }

/-- The session in which the current entry, whose text is complete, is evaluated. -/
def completed (s : Session) (line : String) : Session :=
  { s.withSource line with entry := s.entry.next }.modifyStore
    (·.setProgram Store.root s.entry.label)

/-- A line leaves the entry waiting, gives it up, or completes it; then its forms are
evaluated. -/
theorem feed_cases (s : Session) (line : String) :
    (s.entry.feed s.reading line =
        (.incomplete, { s.entry with lines := s.entry.withLine line }) ∧
      s.feed line = (.incomplete,
        { s.withSource line with entry := { s.entry with lines := s.entry.withLine line } })) ∨
    (∃ error, s.entry.feed s.reading line = (.failed error, s.entry.next) ∧
      (read s.reading s.entry.label (s.entry.withLine line)).all = .error error ∧
      s.feed line =
        (.stopped (.raised (readSignal error)), { s.withSource line with entry := s.entry.next })) ∨
    (∃ forms, s.entry.feed s.reading line =
        (.complete s.entry.label (s.entry.withLine line) forms, s.entry.next) ∧
      (read s.reading s.entry.label (s.entry.withLine line)).all = .ok forms ∧
      s.feed line = (.ofValues ((s.completed line).evaluateAll [] forms).1,
        ((s.completed line).evaluateAll [] forms).2)) := by
  rcases Entry.feed_cases s.reading s.entry line with
    ⟨_, _, _, fed⟩ | ⟨forms, reading, fed⟩ | ⟨error, reading, _, fed⟩
  · exact .inl ⟨fed, by simp only [feed, fed, withSource]⟩
  · refine .inr (.inr ⟨forms, fed, reading, ?_⟩)
    simp only [feed, fed]
    split
    · rename_i values t evaluated
      have evaluated : (s.completed line).evaluateAll [] forms = (.ok values, t) := evaluated
      rw [evaluated]
      rfl
    · rename_i stop t evaluated
      have evaluated : (s.completed line).evaluateAll [] forms = (.error stop, t) := evaluated
      rw [evaluated]
      rfl
  · exact .inr (.inl ⟨error, fed, reading, by simp only [feed, fed, withSource]⟩)

/-- The entry of a session goes on as if it were read alone. -/
theorem entry_feed (s : Session) (line : String) :
    (s.feed line).2.entry = (s.entry.feed s.reading line).2 := by
  rcases s.feed_cases line with ⟨entered, fed⟩ | ⟨_, entered, _, fed⟩ | ⟨_, entered, _, fed⟩
  · rw [fed, entered]
  · rw [fed, entered]
  · rw [fed, entered, evaluateAll_eq]
    rfl

theorem reading_feed (s : Session) (line : String) : (s.feed line).2.reading = s.reading := by
  rcases s.feed_cases line with ⟨_, fed⟩ | ⟨_, _, _, fed⟩ | ⟨_, _, _, fed⟩
  · rw [fed]
    rfl
  · rw [fed]
    rfl
  · rw [fed, evaluateAll_eq]
    rfl

theorem interpreter_feed (s : Session) (line : String) :
    (s.feed line).2.interpreter = s.interpreter := by
  rcases s.feed_cases line with ⟨_, fed⟩ | ⟨_, _, _, fed⟩ | ⟨_, _, _, fed⟩
  · rw [fed]
    rfl
  · rw [fed]
    rfl
  · rw [fed, evaluateAll_eq]
    rfl

/-- Only a line that leaves the entry waiting is answered so. -/
theorem feed_eq_incomplete_iff (s : Session) (line : String) :
    (s.feed line).1 = .incomplete ↔ (s.entry.feed s.reading line).1 = .incomplete := by
  rcases s.feed_cases line with ⟨entered, fed⟩ | ⟨_, entered, _, fed⟩ | ⟨forms, entered, _, fed⟩
  · simp [fed, entered]
  · simp [fed, entered]
  · rw [fed, entered]
    cases ((s.completed line).evaluateAll [] forms).1 <;> simp [Answer.ofValues]

/-- A session is pending after a line exactly when the line was answered so. -/
theorem isPending_feed (s : Session) (line : String) :
    (s.feed line).2.isPending = true ↔ (s.feed line).1 = .incomplete := by
  rw [isPending, entry_feed, Entry.isPending_feed, feed_eq_incomplete_iff]

end Session

end Sexpr
