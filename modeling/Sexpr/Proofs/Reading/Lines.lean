/-
Entries and the lines they are made of.

`Entry.feed_cases` says once what becomes of a line. The lines of an entry wait until they
are complete, and the line feeds between them are put back, so the lines of entries that
follow one another make up one text. Main statement: `Entry.read_feedAll`, that text reads
as the forms of the entries, one after the other, but for places.
-/

import Sexpr.Proofs.Reading.Acceptance
import Sexpr.Proofs.Reading.Composition
import Sexpr.Reading.Entry

namespace Sexpr

open Grammar

/-- Nothing is read from a text that is empty. -/
theorem read_empty (settings : ReadSettings) (label : String) :
    (read settings label "").all = .ok [] := by
  rw [Reading.all_eq_ok_iff]
  simp [Token.scan_nil, Reading.readTokens]

theorem Reading.forms_of_all_eq_ok {r : Reading} {nodes : List Node} (h : r.all = .ok nodes) :
    r.forms = nodes := by
  unfold Reading.all at h
  split at h <;> cases h
  rfl

theorem Reading.error_of_all_eq_ok {r : Reading} {nodes : List Node} (h : r.all = .ok nodes) :
    r.error = none := by
  unfold Reading.all at h
  split at h <;> cases h
  assumption

theorem Reading.error_of_all_eq_error {r : Reading} {error : ReadError}
    (h : r.all = .error error) : r.error = some error := by
  unfold Reading.all at h
  split at h <;> cases h
  assumption

/-- A program is read if it is one, but for places, that does not nest too deep. -/
theorem Reading.all_of_program {settings : ReadSettings} {label text : String}
    {nodes others : List Node} (program : Program settings.comments label text.toList nodes)
    (same : Node.unplacedAll nodes = Node.unplacedAll others)
    (room : ∀ n ∈ others, n.nesting < settings.depth) :
    (read settings label text).all = .ok nodes := by
  rw [Reading.all_eq_ok_iff, Reading.readTokens_eq_iff]
  refine ⟨program, Node.nestingAll_le_iff.mp ?_⟩
  rw [← Node.nestingAll_unplacedAll, same, Node.nestingAll_unplacedAll]
  exact Node.nestingAll_le_iff.mpr room

/-- A text with lines behind it that can be read too is read as the forms of both, wherever
the two were read before. -/
theorem read_line {settings : ReadSettings} {first second text : String} {lines : List String}
    {ns ms : List Node} (h : (read settings first text).all = .ok ns)
    (k : (read settings second ("\n".intercalate lines)).all = .ok ms) (label : String) :
    ∃ nodes, (read settings label ("\n".intercalate (text :: lines))).all = .ok nodes ∧
      Node.unplacedAll nodes = Node.unplacedAll (ns ++ ms) := by
  rw [Reading.all_eq_ok_iff, Reading.readTokens_eq_iff] at h k
  have room : ∀ n ∈ ns ++ ms, n.nesting < settings.depth :=
    List.forall_mem_append.mpr ⟨h.2, k.2⟩
  cases lines with
  | nil =>
    obtain rfl : ms = [] := Reading.program_unique k.1 (.nil .nil)
    obtain ⟨nodes, program, same⟩ := Forms.moved h.1 label 0
    rw [List.append_nil] at room ⊢
    rw [String.intercalate_singleton]
    exact ⟨nodes, Reading.all_of_program program same room, same⟩
  | cons line lines =>
    obtain ⟨nodes, program, same⟩ := Program.line h.1 k.1 label
    rw [← Node.unplacedAll_append] at same
    refine ⟨nodes, Reading.all_of_program ?_ same room, same⟩
    simpa [String.intercalate_cons_cons] using program

/-- The forms that a line has completed. -/
def Fed.forms : Fed → List Node
  | .complete _ _ forms => forms
  | _ => []

namespace Entry

variable {settings : ReadSettings} {e : Entry}

/-- Feeds lines one after the other. -/
def feedAll (settings : ReadSettings) (e : Entry) : List String → List Fed × Entry
  | [] => ([], e)
  | line :: lines =>
    let (fed, e) := e.feed settings line
    let (others, e) := e.feedAll settings lines
    (fed :: others, e)

/-- The text of the entry with one more line waits for more, is complete, or is given up. -/
theorem feed_cases (settings : ReadSettings) (e : Entry) (line : String) :
    (∃ error, (read settings e.label (e.withLine line)).all = .error error ∧
      error.needsMore = true ∧
      e.feed settings line = (.incomplete, { e with lines := e.withLine line })) ∨
    (∃ forms, (read settings e.label (e.withLine line)).all = .ok forms ∧
      e.feed settings line = (.complete e.label (e.withLine line) forms, e.next)) ∨
    (∃ error, (read settings e.label (e.withLine line)).all = .error error ∧
      error.needsMore = false ∧ e.feed settings line = (.failed error, e.next)) := by
  cases reading : (read settings e.label (e.withLine line)).all with
  | ok forms => exact .inr (.inl ⟨forms, rfl, by simp [feed, reading]⟩)
  | error error =>
    cases needs : error.needsMore with
    | true => exact .inl ⟨error, rfl, needs, by simp [feed, reading, needs]⟩
    | false => exact .inr (.inr ⟨error, rfl, needs, by simp [feed, reading, needs]⟩)

/-- An entry is pending after a line exactly when the line has left it incomplete. -/
theorem isPending_feed (settings : ReadSettings) (e : Entry) (line : String) :
    (e.feed settings line).2.isPending = true ↔ (e.feed settings line).1 = .incomplete := by
  rcases feed_cases settings e line with
    ⟨error, read, _, fed⟩ | ⟨forms, _, fed⟩ | ⟨error, _, _, fed⟩ <;> rw [fed]
  · -- an empty text is complete
    have typed : e.withLine line ≠ "" := by
      intro empty
      rw [empty, read_empty] at read
      cases read
    simpa [isPending] using typed
  · simp [next, isPending]
  · simp [next, isPending]

/-- What has been typed of the entry, if anything. -/
def typed (e : Entry) : List String :=
  if e.isPending then [e.lines] else []

theorem intercalate_typed (e : Entry) (line : String) (lines : List String) :
    "\n".intercalate (e.typed ++ line :: lines) = "\n".intercalate (e.withLine line :: lines) := by
  unfold typed withLine
  split
  · cases lines <;> simp [String.append_assoc]
  · rfl

/-- The lines of entries, none of which is given up, make up a text that reads as the forms
of the entries, but for places. -/
theorem read_feedAll {lines : List String}
    (kept : ∀ fed ∈ (e.feedAll settings lines).1, ∀ error, fed ≠ .failed error)
    (finished : (e.feedAll settings lines).2.isPending = false) (label : String) :
    ∃ nodes, (read settings label ("\n".intercalate (e.typed ++ lines))).all = .ok nodes ∧
      Node.unplacedAll nodes =
        Node.unplacedAll ((e.feedAll settings lines).1.flatMap Fed.forms) := by
  induction lines generalizing e with
  | nil =>
    have untyped : e.typed = [] := if_neg (Bool.eq_false_iff.mp finished)
    rw [untyped]
    exact ⟨[], read_empty settings label, rfl⟩
  | cons line lines ih =>
    rw [intercalate_typed]
    simp only [feedAll, List.forall_mem_cons, List.flatMap_cons] at kept finished ⊢
    obtain ⟨first, others⟩ := kept
    rcases feed_cases settings e line with
      ⟨error, reading, _, fed⟩ | ⟨forms, reading, fed⟩ | ⟨error, _, _, fed⟩
    · have pending := (isPending_feed settings e line).mpr (by rw [fed])
      rw [fed] at others finished pending ⊢
      have later := ih others finished
      rwa [typed, if_pos pending] at later
    · rw [fed] at others finished ⊢
      obtain ⟨nodes, readOthers, same⟩ := ih others finished
      obtain ⟨all, readAll, sameAll⟩ := read_line reading readOthers label
      refine ⟨all, readAll, ?_⟩
      rw [sameAll, Node.unplacedAll_append, same, ← Node.unplacedAll_append]
      rfl
    · rw [fed] at first
      exact absurd rfl (first error)

end Entry

end Sexpr
