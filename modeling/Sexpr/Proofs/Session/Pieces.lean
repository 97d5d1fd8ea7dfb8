/-
Programs in pieces.

A program that consists of two texts, one on the lines behind the other, is run as the first
text and then the second one under the same label. Behind a text that is complete, the
second one is read as it is alone, only further on (`read_joined`); its forms are evaluated
where those of the first text have left off (`Session.evaluateAll_append`), and that they
stand further on does not influence evaluation. The one difference is the value of a second
text without forms. Main statement: `Session.run_joined`.
-/

import Sexpr.Proofs.Reading.Shift
import Sexpr.Proofs.Run.Frames
import Sexpr.Proofs.Run.Places
import Sexpr.Proofs.Session.Likeness

namespace Sexpr

open Grammar

/-! ### What is left of an outcome without places -/

/-- What the control does, without places. Of the error of a text that cannot be read, the
surroundings go too. -/
def Control.bare : Control → Control
  | .fail (.unreadable e) => .fail (.unreadable e.unplaced)
  | other => other.unplaced

/-- The stop without places: of a signal, only what it does. A trace leaves out a call at a
place that it has noted last, so even its length depends on which places are the same. -/
def Stop.bare : Stop → Stop
  | .raised signal => .raised ⟨signal.control.bare, .computed, []⟩
  | other => other

namespace Likeness

variable {L : Likeness}

theorem Controls.bare_eq {a b : Control} (h : L.Controls a b) : a.bare = b.bare := by
  cases h with
  | leaveLoop payload => exact (Controls.leaveLoop payload).unplaced_eq
  | leaveCall payload => exact (Controls.leaveCall payload).unplaced_eq
  | fail fault => rfl

theorem Stops.bare_eq {a b : Stop} (h : L.Stops a b) : a.bare = b.bare := by
  cases h with
  | raised signals => simp only [Stop.bare, signals.control.bare_eq]
  | exited status => rfl
  | outOfFuel => rfl

theorem Outcomes.worlds {α β : Type} {Q : α → β → Prop} {r : Except Stop α × Session}
    {r' : Except Stop β × Session} (h : L.Outcomes Q r r') : L.Worlds r.2.world r'.2.world := by
  cases h with
  | ok _ sessions => exact sessions.world
  | error _ sessions => exact sessions.world

end Likeness

/-! ### Frames that are labelled again -/

namespace Store

/-- A change that leaves a frame as it is changes nothing. -/
theorem update_of_fixed {s : Store} {id : FrameId} {f : Frame → Frame}
    (h : f (s.frame id) = s.frame id) : s.update id f = s := by
  have frames : s.frames.modify id f = s.frames := by
    refine Array.ext (by simp) fun other inUse inUse' => ?_
    rw [Array.getElem_modify]
    split
    · rename_i same
      subst same
      simpa [frame, inUse'] using h
    · rfl
  rw [update, frames]

theorem setProgram_of_eq {s : Store} {id : FrameId} {program : String}
    (h : (s.frame id).info.program = program) : s.setProgram id program = s :=
  update_of_fixed (by rw [← h])

end Store

namespace Session

variable {s t : Session}

/-! ### Programs -/

/-- A session evaluates top-level forms in the root frame, and writes to no other. -/
theorem evaluate_writes (s : Session) (node : Node) :
    s.world.store.Writes Store.root (s.evaluate node).2.world.store := by
  have writes := s.interpreter.relates_frames s.fuel node Store.root 0 { s.world with steps := 0 }
  unfold Run.final at writes
  unfold evaluate Interpreter.eval
  dsimp only
  split
  · rename_i ended
    rw [ended] at writes
    exact writes
  · rename_i ended
    rw [ended] at writes
    exact writes

theorem evaluateAll_writes (s : Session) (values forms : List Node) :
    s.world.store.Writes Store.root (s.evaluateAll values forms).2.world.store := by
  induction forms generalizing s values with
  | nil => exact .refl _ _
  | cons form forms ih =>
    have first := s.evaluate_writes form
    unfold evaluateAll
    generalize s.evaluate form = r at *
    obtain ⟨stop | value, t⟩ := r
    · exact first
    · exact first.trans (ih t _)

/-- The first form that stops ends a program, whatever stands behind it. -/
theorem evaluateAll_append_of_error {values ns : List Node} {stop : Stop}
    (h : s.evaluateAll values ns = (.error stop, t)) (ms : List Node) :
    s.evaluateAll values (ns ++ ms) = (.error stop, t) := by
  induction ns generalizing s values with
  | nil => cases h
  | cons n ns ih =>
    rw [List.cons_append, evaluateAll]
    rw [evaluateAll] at h
    generalize s.evaluate n = r at *
    obtain ⟨stop' | value, u⟩ := r
    · exact h
    · exact ih h

/-- Evaluation that is not stopped gives a value for every form. -/
theorem length_of_evaluateAll {before values forms : List Node}
    (h : (s.evaluateAll before forms).1 = .ok values) :
    values.length = before.length + forms.length := by
  induction forms generalizing s before with
  | nil =>
    cases h
    simp
  | cons form forms ih =>
    rw [evaluateAll] at h
    generalize s.evaluate form = r at *
    obtain ⟨stop | value, t⟩ := r
    · cases h
    · rw [ih h, List.length_cons, List.length_cons]
      omega

/-- The sources of a session take no part in evaluation. -/
theorem evaluateAll_sources (s : Session) (sources : Sources) (values forms : List Node) :
    { s with sources }.evaluateAll values forms =
      ((s.evaluateAll values forms).1, { (s.evaluateAll values forms).2 with sources }) := by
  induction forms generalizing s values with
  | nil => rfl
  | cons form forms ih =>
    have first : { s with sources }.evaluate form =
        ((s.evaluate form).1, { (s.evaluate form).2 with sources }) := by
      unfold evaluate
      dsimp only
      split <;> rfl
    unfold evaluateAll
    rw [first]
    generalize s.evaluate form = r
    obtain ⟨stop | value, t⟩ := r
    · rfl
    · exact ih t _

/-- The session whose root frame belongs to a program. -/
def labelled (s : Session) (label : String) : Session :=
  s.modifyStore (·.setProgram Store.root label)

/-- How a program ends whose forms have been evaluated. -/
def conclude (error : Option ReadError) : Except Stop (List Node) → Except Stop Node
  | .error stop => .error stop
  | .ok values =>
    match error with
    | some e => .error (.raised (readSignal e))
    | none => .ok (values.getLastD (.nil .computed))

/-- A program is read, its forms are evaluated, and that decides how it ends. -/
theorem run_eq (s : Session) (label text : String) :
    let r := (s.labelled label).evaluateAll [] (read s.reading label text).forms
    s.run label text = (conclude (read s.reading label text).error r.1,
      { r.2 with sources := s.sources.put label text }) := by
  intro r
  have evaluated : (Session.modifyStore { s with sources := s.sources.put label text }
      (·.setProgram Store.root label)).evaluateAll [] (read s.reading label text).forms =
        (r.1, { r.2 with sources := s.sources.put label text }) :=
    evaluateAll_sources (s.labelled label) _ [] _
  unfold run
  dsimp only
  split
  · rename_i stop t ended
    obtain ⟨stopped, rfl⟩ := Prod.mk.inj (evaluated.symm.trans ended)
    rw [stopped]
    rfl
  · rename_i values t ended
    obtain ⟨ok, rfl⟩ := Prod.mk.inj (evaluated.symm.trans ended)
    rw [ok]
    show (match (read s.reading label text).error with | some e => _ | none => _) = _
    cases (read s.reading label text).error <;> rfl

/-- A program of one form is that form, evaluated in the root frame. -/
theorem run_of_form {label text : String} {node value : Node} {w : World}
    (reading : read s.reading label text = ⟨[node], none⟩)
    (ended : s.interpreter.eval s.fuel Store.root node
      ⟨s.world.store.setProgram Store.root label, 0, s.world.output⟩ = .ok value w) :
    s.run label text =
      (.ok value, { s with world := w, sources := s.sources.put label text }) := by
  have evaluated : (s.labelled label).evaluate node = (.ok value, { s with world := w }) := by
    simp only [evaluate, labelled, modifyStore, ended]
  rw [run_eq, reading]
  simp only [evaluateAll, evaluated]
  rfl

/-- A program that has been evaluated so far goes on as one of the same label. -/
theorem labelled_of_evaluated {label : String} {forms : List Node}
    {result : Except Stop (List Node)} (rooted : Store.root < s.world.store.frames.size)
    (evaluated : (s.labelled label).evaluateAll [] forms = (result, t)) :
    Store.root < t.world.store.frames.size ∧ t.labelled label = t := by
  have inUse : Store.root < (s.labelled label).world.store.frames.size := by
    rwa [labelled, modifyStore, Store.setProgram, Store.size_update]
  have isLabel : ((s.labelled label).world.store.frame Store.root).info.program = label :=
    congrArg (·.info.program) (Store.frame_update_self _ rooted)
  have writes := (s.labelled label).evaluateAll_writes [] forms
  rw [evaluated] at writes
  have same : (t.world.store.frame Store.root).info.program = label := by
    rw [(writes.own inUse).info_eq, isLabel]
  refine ⟨Nat.lt_of_lt_of_le inUse writes.size_le, ?_⟩
  rw [labelled, modifyStore, Store.setProgram_of_eq same]

/-- A program is run as it is in a session that already has its label, whatever the sources. -/
theorem run_of_labelled {label : String} (h : s.labelled label = s) (sources : Sources)
    (text : String) :
    let r := s.evaluateAll [] (read s.reading label text).forms
    { s with sources }.run label text =
      (conclude (read s.reading label text).error r.1,
        { r.2 with sources := sources.put label text }) := by
  intro r
  have again : { s with sources }.labelled label = { s with sources } :=
    congrArg (fun t : Session => { t with sources }) h
  rw [run_eq, again, evaluateAll_sources]

/-- Evaluating a program changes neither how the session reads nor how it evaluates. -/
theorem kept_of_evaluated {label : String} {forms : List Node} {result : Except Stop (List Node)}
    (evaluated : (s.labelled label).evaluateAll [] forms = (result, t)) :
    t.reading = s.reading ∧ t.interpreter = s.interpreter := by
  have kept := (s.labelled label).evaluateAll_eq [] forms
  rw [evaluated] at kept
  exact ⟨(congrArg Session.reading kept :), (congrArg Session.interpreter kept :)⟩

/-- Behind a program, another one of the same label is run where it has left off. -/
theorem run_run {label first : String} {forms : List Node} {result : Except Stop (List Node)}
    (isRead : (read s.reading label first).forms = forms)
    (rooted : Store.root < s.world.store.frames.size)
    (evaluated : (s.labelled label).evaluateAll [] forms = (result, t)) (second : String) :
    let r := t.evaluateAll [] (read s.reading label second).forms
    (s.run label first).2.run label second =
      (conclude (read s.reading label second).error r.1,
        { r.2 with sources := (s.sources.put label first).put label second }) := by
  intro r
  have relabelled := (labelled_of_evaluated rooted evaluated).2
  have left : (s.run label first).2 = { t with sources := s.sources.put label first } := by
    rw [run_eq, isRead, evaluated]
  rw [left, run_of_labelled relabelled, (kept_of_evaluated evaluated).1]

/-- What is left of the outcome of a program without places. -/
def bare : Except Stop Node → Except Stop Node
  | .ok value => .ok value.unplaced
  | .error stop => .error stop.bare

/-- Forms are evaluated alike wherever they stand. -/
theorem evaluateAll_further {k : Nat} {forms forms' : List Node}
    (hosts : ∀ host ∈ s.interpreter.hosts, Host.IgnoresPlaces host)
    (moved : List.Forall₂ (Node.Shifted k) forms forms') :
    (Likeness.erasing FrameInfo.inherited_id).Outcomes
      (List.Forall₂ (Likeness.erasing FrameInfo.inherited_id).Nodes)
      (s.evaluateAll [] forms) (s.evaluateAll [] forms') :=
  evaluateAll_alike (fun host mem => Likeness.erasing_respectedBy _ (hosts host mem))
    ⟨rfl, rfl, (Likeness.erasing_worlds_iff _).mpr rfl⟩ .nil
    (Node.alike_of_unplacedAll_eq (fun _ _ => trivial) (Node.unplacedAll_eq_of_alike moved))

/-- The last of some values is not changed by what stands in front of them. -/
theorem last_alike {L : Likeness} {values values' : List Node}
    (alike : List.Forall₂ L.Nodes values values') (nonempty : values ≠ []) (before : List Node)
    (d d' : Node) :
    L.Nodes (values.getLastD d) ((before ++ values').getLastD d') := by
  induction alike generalizing before d with
  | nil => exact absurd rfl nonempty
  | @cons _ value' _ _ first others ih =>
    rw [List.getLastD_cons]
    cases others with
    | nil =>
      rw [List.getLastD_concat]
      exact first
    | cons next others =>
      rw [List.append_cons]
      exact ih (by simp) (before ++ [value']) _

/-- Values of earlier forms do not matter for how a program ends, unless there are no later
ones. -/
theorem bare_conclude {L : Likeness} {values values' : List Node} {error error' : Option ReadError}
    (sameError : error'.map ReadError.unplaced = error.map ReadError.unplaced)
    (alike : List.Forall₂ L.Nodes values values') (nonempty : error = none → values ≠ [])
    (before : List Node) :
    bare (conclude error' (.ok (before ++ values'))) = bare (conclude error (.ok values)) := by
  cases error with
  | some e =>
    cases error' with
    | some e' =>
      have same : e'.unplaced = e.unplaced := Option.some.inj sameError
      simp only [conclude, bare, readSignal, Signal.ofFault, Stop.bare, Control.bare, same]
    | none => cases sameError
  | none =>
    cases error' with
    | some e' => cases sameError
    | none => exact congrArg Except.ok (last_alike alike (nonempty rfl) before _ _).unplaced_eq.symm

/-- Forms further on end a program as they do where they stand, whatever values stand in
front of theirs, unless there are neither forms nor an error. -/
theorem bare_conclude_further {k : Nat} {forms forms' : List Node} {error error' : Option ReadError}
    (hosts : ∀ host ∈ s.interpreter.hosts, Host.IgnoresPlaces host)
    (moved : List.Forall₂ (Node.Shifted k) forms forms')
    (sameError : error'.map ReadError.unplaced = error.map ReadError.unplaced)
    (nonempty : error = none → forms ≠ []) (before : List Node) :
    bare (conclude error' ((s.evaluateAll [] forms').1.map (before ++ ·))) =
      bare (conclude error (s.evaluateAll [] forms).1) := by
  have outcomes := evaluateAll_further hosts moved
  generalize evaluated : s.evaluateAll [] forms = r at *
  generalize s.evaluateAll [] forms' = r' at *
  cases outcomes with
  | error stops _ => exact congrArg Except.error stops.bare_eq.symm
  | @ok values _ _ _ related _ =>
    refine bare_conclude sameError related (fun noError noValues => nonempty noError ?_) before
    have count : values.length = forms.length := by
      simpa using length_of_evaluateAll (congrArg Prod.fst evaluated)
    exact List.length_eq_zero_iff.mp (by rw [← count, noValues, List.length_nil])

/-- Running a program in one piece or in two is the same. Let the first text be complete. If
running it fails, then running both texts, one on the lines behind the other, stops in the
same way and leaves the same world. If it has a value, then running both leaves, but for
places, the world that running the second text under the same label leaves after the first,
with its output and its bindings; and ends in the same way, but for places and the
surroundings of a reader's error, except that a second text that is only trivia does not
replace the value by the empty one. And whatever becomes of the second text, the root frame
keeps what the first one has bound. -/
theorem run_joined (s : Session) (label first second : String) {forms : List Node}
    (complete : (read s.reading label first).all = .ok forms)
    (rooted : Store.root < s.world.store.frames.size) :
    let one := s.run label first
    let two := one.2.run label second
    let joined := s.run label (first ++ "\n" ++ second)
    (∀ stop, one.1 = .error stop → joined.1 = .error stop ∧ joined.2.world = one.2.world) ∧
    (∀ value, one.1 = .ok value → (∀ host ∈ s.interpreter.hosts, Host.IgnoresPlaces host) →
      joined.2.world.unplaced = two.2.world.unplaced ∧
      (Trivia s.reading.comments second.toList [] →
        joined.1 = .ok value ∧ two.1 = .ok (.nil .computed)) ∧
      (¬ Trivia s.reading.comments second.toList [] → bare joined.1 = bare two.1)) ∧
    (one.2.world.store.frame Store.root).Grows (joined.2.world.store.frame Store.root) := by
  intro one two joined
  obtain ⟨later, isRead, moved, flaws⟩ := read_joined complete second
  have isOne : one = _ := s.run_eq label first
  have isJoined : joined = _ := s.run_eq label _
  rw [Reading.forms_of_all_eq_ok complete, Reading.error_of_all_eq_ok complete] at isOne
  rw [isRead] at isJoined
  generalize evaluated : (s.labelled label).evaluateAll [] forms = r at isOne
  obtain ⟨stop | values, t⟩ := r
  · rw [evaluateAll_append_of_error evaluated] at isJoined
    rw [isOne, isJoined]
    refine ⟨fun _ failed => ⟨failed, rfl⟩, fun _ ok => ?_, Frame.Grows.refl _⟩
    cases ok
  · -- what is left is to run the second text in `t`, alone and further on
    rw [evaluateAll_append evaluated] at isJoined
    have isTwo : two = _ := run_run (Reading.forms_of_all_eq_ok complete) rooted evaluated second
    rw [isOne, isTwo, isJoined]
    refine ⟨fun _ failed => ?_, fun value ok hosts => ?_, ?_⟩
    · cases failed
    · cases ok
      rw [← (kept_of_evaluated evaluated).2] at hosts
      have worlds := (evaluateAll_further hosts moved).worlds
      refine ⟨((Likeness.erasing_worlds_iff FrameInfo.inherited_id).mp worlds).symm,
        fun trivia => ?_, fun notTrivia => ?_⟩
      · have noForms := (Reading.all_eq_nil_iff s.reading label second).mpr trivia
        have noError := Reading.error_of_all_eq_ok noForms
        rw [Reading.forms_of_all_eq_ok noForms] at moved ⊢
        rw [noError] at flaws ⊢
        cases moved
        rw [Option.map_eq_none_iff.mp flaws]
        simp [evaluateAll, conclude, Except.map]
      · refine bare_conclude_further hosts moved flaws (fun noError noForms => notTrivia ?_) values
        rw [← Reading.all_eq_nil_iff s.reading label, Reading.all, noError, noForms]
    · exact (t.evaluateAll_writes [] later).own (labelled_of_evaluated rooted evaluated).1

/-- A program with a comment at the end, and behind it one that ends in a flaw. -/
theorem run_joined_flawed :
    let s := start {} {} 1
    let one := s.run "main" "(setn a 1) ; one"
    let two := one.2.run "main" "(setn b a) )"
    let joined := s.run "main" ("(setn a 1) ; one" ++ "\n" ++ "(setn b a) )")
    joined.2.world.unplaced = two.2.world.unplaced ∧ bare joined.1 = bare two.1 ∧
      (one.2.world.store.frame Store.root).Grows (joined.2.world.store.frame Store.root) := by
  intro s one two joined
  have complete : (read {} "main" "(setn a 1) ; one").all =
      .ok (read {} "main" "(setn a 1) ; one").forms := by
    have noError : (read {} "main" "(setn a 1) ; one").error = none := by decide +kernel
    rw [Reading.all, noError]
  have rooted : Store.root < s.world.store.frames.size := by decide +kernel
  have hosts : ∀ host ∈ s.interpreter.hosts, Host.IgnoresPlaces host := by
    rintro host ⟨mem⟩
    cases mem
  have notTrivia : ¬ Trivia true "(setn b a) )".toList [] := by
    intro trivia
    have noError := Reading.error_of_all_eq_ok
      ((Reading.all_eq_nil_iff {} "main" "(setn b a) )").mpr trivia)
    exact absurd noError (by decide +kernel)
  have hasValue : one.1.isOk = true := by decide +kernel
  obtain ⟨_, ends, grows⟩ :=
    run_joined s "main" "(setn a 1) ; one" "(setn b a) )" complete rooted
  cases isValue : one.1 with
  | error stop =>
    rw [isValue] at hasValue
    cases hasValue
  | ok value =>
    obtain ⟨worlds, _, outcome⟩ := ends value isValue hosts
    exact ⟨worlds, outcome notTrivia, grows⟩

end Session

end Sexpr
