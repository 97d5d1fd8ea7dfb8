/-
Interactive entry agrees with evaluating a text at once.

A session that is fed lines reads each entry behind a label of its own and labels its
frames with it; evaluated at once, the same forms stand elsewhere and belong to no program.
Neither influences evaluation: in the likeness that erases places and labels, every
complete entry does what its forms do (`Session.feedAll_evaluates`), and by
`Entry.read_feedAll` the lines as one text read as these forms. Main statement:
`Session.feedAll_agrees`.
-/

import Sexpr.Proofs.Run.Places
import Sexpr.Proofs.Session.Likeness

namespace Sexpr

/-- What describes a frame, but for the program that it belongs to. -/
def FrameInfo.unlabelled (info : FrameInfo) : FrameInfo :=
  { info with program := "" }

theorem FrameInfo.inherited_unlabelled : Inherited unlabelled := by
  intro a b name same
  have levels : a.level = b.level := (FrameInfo.mk.inj same).2.2
  simp only [unlabelled, levels]

/-- The values of a complete entry. -/
def Answer.nodes : Answer → List Node
  | .values nodes => nodes
  | _ => []

def Answer.isStopped : Answer → Bool
  | .stopped _ => true
  | _ => false

namespace Likeness

/-- Neither places nor the labels of programs matter. -/
def unlabelled : Likeness :=
  erasing FrameInfo.inherited_unlabelled

theorem unlabelled_refl_nodes (ns : List Node) : List.Forall₂ unlabelled.Nodes ns ns :=
  Node.alike_of_unplacedAll_eq (fun _ _ => trivial) rfl

theorem unlabelled_refl_worlds (w : World) : unlabelled.Worlds w w :=
  (erasing_worlds_iff FrameInfo.inherited_unlabelled).mpr rfl

/-- A frame may be labelled with another program. -/
theorem unlabelled_setProgram {s t : Store} (h : unlabelled.Stores s t) (id : FrameId)
    (program : String) : unlabelled.Stores s (t.setProgram id program) where
  size := by rw [Store.setProgram, Store.size_update, h.size]
  serial := h.serial
  frame other := by
    have old := h.frame other
    rw [Store.setProgram, Store.frame_update]
    split
    · exact ⟨old.info, old.parent, old.bindings⟩
    · exact old

/-- The labels of an entry that is complete do not matter. -/
theorem Sessions.completed {s t : Session} (h : unlabelled.Sessions t s) (line : String) :
    unlabelled.Sessions t (s.completed line) :=
  ⟨h.interpreter, h.fuel,
    ⟨unlabelled_setProgram h.world.store Store.root s.entry.label, h.world.steps, h.world.output⟩⟩

end Likeness

namespace Session

open Likeness (unlabelled)

/-- Feeds lines one after the other. -/
def feedAll (s : Session) : List String → List Answer × Session
  | [] => ([], s)
  | line :: lines =>
    let (answer, s) := s.feed line
    let (answers, s) := s.feedAll lines
    (answer :: answers, s)

/-- What lines that are fed one after the other do is what the forms do that they complete,
if none of them is stopped. -/
theorem feedAll_evaluates {s t : Session} {lines : List String}
    (hosts : ∀ host ∈ s.interpreter.hosts, Host.IgnoresPlaces host)
    (alike : unlabelled.Sessions t s)
    (answered : ∀ answer ∈ (s.feedAll lines).1, answer.isStopped = false) :
    ∃ values t',
      t.evaluateAll [] ((s.entry.feedAll s.reading lines).1.flatMap Fed.forms) =
        (.ok values, t') ∧
      List.Forall₂ unlabelled.Nodes values ((s.feedAll lines).1.flatMap Answer.nodes) ∧
      unlabelled.Sessions t' (s.feedAll lines).2 := by
  induction lines generalizing s t with
  | nil => exact ⟨[], t, rfl, .nil, alike⟩
  | cons line lines ih =>
    simp only [feedAll, Entry.feedAll, List.forall_mem_cons, List.flatMap_cons,
      ← entry_feed] at answered ⊢
    obtain ⟨first, others⟩ := answered
    have later {t' : Session} (alike : unlabelled.Sessions t' (s.feed line).2) :=
      ih (s.interpreter_feed line ▸ hosts) alike others
    rw [s.reading_feed line] at later
    rcases s.feed_cases line with ⟨entered, fed⟩ | ⟨_, _, _, fed⟩ | ⟨forms, entered, _, fed⟩
    · have waiting : unlabelled.Sessions t (s.feed line).2 := by
        rw [fed]
        exact ⟨alike.interpreter, alike.fuel, alike.world⟩
      have noForms : (s.entry.feed s.reading line).1.forms = [] := by rw [entered]; rfl
      have noValues : (s.feed line).1.nodes = [] := by rw [fed]; rfl
      rw [noForms, noValues]
      exact later waiting
    · rw [fed] at first
      cases first
    · -- the entry is evaluated in the session and beside it
      have labelled := alike.completed line
      have respected : ∀ host ∈ t.interpreter.hosts, unlabelled.RespectedBy host := by
        rw [alike.interpreter]
        exact fun host mem => Likeness.erasing_respectedBy _ (hosts host mem)
      have outcomes := evaluateAll_alike respected labelled .nil
        (Likeness.unlabelled_refl_nodes forms)
      have isForms : (s.entry.feed s.reading line).1.forms = forms := by rw [entered]; rfl
      rw [isForms]
      rw [fed] at first later ⊢
      generalize evaluated : t.evaluateAll [] forms = r at *
      generalize (s.completed line).evaluateAll [] forms = r' at *
      cases outcomes with
      | error stops sessions => cases first
      | ok related sessions =>
        obtain ⟨more, t', evaluatedMore, relatedMore, final⟩ := later sessions
        refine ⟨_, t', ?_, List.rel_append related relatedMore, final⟩
        rw [evaluateAll_append evaluated, evaluatedMore]
        rfl

/-- Lines that are not stopped are not given up, and leave the entry as if it were read
alone. -/
theorem feedAll_entry {s : Session} {lines : List String}
    (answered : ∀ answer ∈ (s.feedAll lines).1, answer.isStopped = false) :
    (∀ fed ∈ (s.entry.feedAll s.reading lines).1, ∀ error, fed ≠ .failed error) ∧
      (s.entry.feedAll s.reading lines).2 = (s.feedAll lines).2.entry := by
  induction lines generalizing s with
  | nil => exact ⟨by simp [Entry.feedAll], rfl⟩
  | cons line lines ih =>
    simp only [feedAll, Entry.feedAll, List.forall_mem_cons, ← entry_feed] at answered ⊢
    obtain ⟨first, others⟩ := answered
    have later := ih others
    rw [s.reading_feed line] at later
    refine ⟨⟨?_, later.1⟩, later.2⟩
    rintro error failed
    rcases s.feed_cases line with ⟨entered, _⟩ | ⟨_, _, _, fed⟩ | ⟨_, entered, _, _⟩
    · rw [entered] at failed
      cases failed
    · rw [fed] at first
      cases first
    · rw [entered] at failed
      cases failed

/-- Interactive entry agrees with evaluating a text at once. Where lines are fed to a
session that waits for none, no answer is a stop and the session waits for none in the end:
the lines, joined by line feeds, can be read behind any label; their forms, evaluated in
order from the same session, give the values that were answered, but for places, and leave
the same world, with its output and its bindings, but for places and the labels of frames.
And after every line the session is pending exactly when the line was answered so. -/
theorem feedAll_agrees (s : Session) (lines : List String) (label : String)
    (hosts : ∀ host ∈ s.interpreter.hosts, Host.IgnoresPlaces host)
    (idle : s.isPending = false)
    (answered : ∀ answer ∈ (s.feedAll lines).1, answer.isStopped = false)
    (finished : (s.feedAll lines).2.isPending = false) :
    (∃ forms values t, (read s.reading label ("\n".intercalate lines)).all = .ok forms ∧
      s.evaluateAll [] forms = (.ok values, t) ∧
      Node.unplacedAll values = Node.unplacedAll ((s.feedAll lines).1.flatMap Answer.nodes) ∧
      t.world.erased FrameInfo.unlabelled =
        (s.feedAll lines).2.world.erased FrameInfo.unlabelled) ∧
    ∀ (r : Session) (line : String),
      (r.feed line).2.isPending = true ↔ (r.feed line).1 = .incomplete := by
  refine ⟨?_, isPending_feed⟩
  have inherited := FrameInfo.inherited_unlabelled
  have itself : unlabelled.Sessions s s := ⟨rfl, rfl, Likeness.unlabelled_refl_worlds s.world⟩
  obtain ⟨kept, lastEntry⟩ := feedAll_entry answered
  rw [isPending, ← lastEntry] at finished
  obtain ⟨forms, reading, same⟩ := Entry.read_feedAll kept finished label
  have untyped : s.entry.typed = [] := if_neg (Bool.eq_false_iff.mp idle)
  rw [untyped, List.nil_append] at reading
  obtain ⟨values, t, evaluated, answers, final⟩ := feedAll_evaluates hosts itself answered
  -- the forms as they stand in the joined lines are evaluated like those of the entries
  have respected : ∀ host ∈ s.interpreter.hosts, unlabelled.RespectedBy host :=
    fun host mem => Likeness.erasing_respectedBy inherited (hosts host mem)
  have alike : List.Forall₂ unlabelled.Nodes forms _ :=
    Node.alike_of_unplacedAll_eq (fun _ _ => trivial) same
  have outcomes := evaluateAll_alike respected itself .nil alike
  rw [evaluated] at outcomes
  generalize joined : s.evaluateAll [] forms = r at outcomes
  cases outcomes with
  | @ok values' _ t' _ related sessions =>
    refine ⟨forms, values', t', reading, joined, ?_, ?_⟩
    · rw [Node.unplacedAll_eq_of_alike related, Node.unplacedAll_eq_of_alike answers]
    · have first := (Likeness.erasing_worlds_iff inherited).mp sessions.world
      exact first.trans ((Likeness.erasing_worlds_iff inherited).mp final.world)

/-- Two entries on three lines of a new session. -/
theorem feedAll_start_agrees :
    let s := start {} {} 1
    let lines := ["(+ 1", "2) 'x", "3"]
    ∃ forms values t, (read s.reading "joined" ("\n".intercalate lines)).all = .ok forms ∧
      s.evaluateAll [] forms = (.ok values, t) ∧
      Node.unplacedAll values = Node.unplacedAll ((s.feedAll lines).1.flatMap Answer.nodes) ∧
      t.world.erased FrameInfo.unlabelled =
        (s.feedAll lines).2.world.erased FrameInfo.unlabelled := by
  have hosts : ∀ host ∈ (start {} {} 1).interpreter.hosts, Host.IgnoresPlaces host := by
    rintro host ⟨mem⟩
    cases mem
  exact (feedAll_agrees _ _ "joined" hosts rfl (by decide +kernel) (by decide +kernel)).1

end Session

end Sexpr
