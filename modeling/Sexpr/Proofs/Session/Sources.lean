/-
Every place of a session can be shown in its source.

A request settles a text: that of a program that is run, or of an entry that is over. The
invariant of a session (`Session.Tracks`) is that the settled texts are stored under their
labels, that no entry to come has one of these labels, and that all places in bindings
are known, which means that they have no span or are those of nodes read from a settled
text. Evaluation makes no places of its own: it respects the likeness in which a place
stands only for itself and only if it is known. So every request keeps the invariant
(`Session.Tracks.serve`), and so does every sequence of requests. Main statement:
`Session.serveAll_shows`.
-/

import Sexpr.Proofs.Reading.Errors
import Sexpr.Proofs.Reading.Places
import Sexpr.Proofs.Session.Likeness

namespace Sexpr

/-! ### Places that are known -/

/-- All places of what the function answers come from its arguments or have no span. -/
def Host.PassesOn (host : Host) : Prop :=
  ∀ args node, host args = .value node →
    ∀ p ∈ node.places, p.span = none ∨ p ∈ Node.placesAll args

namespace Likeness

variable {K : Place → Prop} (spanless : ∀ p : Place, p.span = none → K p)

/-- A place stands only for itself, and only if it is known. -/
def known (spanless : ∀ p : Place, p.span = none → K p) : Likeness where
  place p q := p = q ∧ K p
  info := Eq
  computed := ⟨rfl, spanless _ rfl⟩
  root := rfl
  child name same := by rw [same]

theorem known_nodes {ns : List Node} (h : ∀ p ∈ Node.placesAll ns, K p) :
    List.Forall₂ (known spanless).Nodes ns ns :=
  Node.alikeAll_of_known h

/-- A world is like itself exactly when the places of all bindings are known. -/
theorem known_worlds_iff {w : World} :
    (known spanless).Worlds w w ↔ w.store.All fun n => ∀ p ∈ n.places, K p := by
  constructor
  · intro h id entry mem
    have bindings := (h.store.frame id).bindings
    exact Node.alike_self_iff.mp (List.forall₂_same.mp bindings entry mem).2
  · intro h
    refine ⟨⟨rfl, rfl, fun id => ⟨rfl, rfl, ?_⟩⟩, rfl, rfl⟩
    exact List.forall₂_same.mpr fun entry mem => ⟨rfl, Node.alike_self_iff.mpr (h id entry mem)⟩

theorem known_respectedBy {host : Host} (h : host.PassesOn) :
    (known spanless).RespectedBy host := by
  intro ns ms alike
  obtain ⟨rfl, inArguments⟩ := Node.forall_known_of_alike alike
  cases answer : host ns with
  | value node =>
    refine .value (Node.alike_of_known fun p mem => ?_)
    rcases h ns node answer p mem with noSpan | passed
    · exact spanless p noSpan
    · exact inArguments p passed
  | fault fault => exact .fault fault
  | exit status => exact .exit status

end Likeness

theorem Store.All.setProgram {P : Node → Prop} {s : Store} (h : s.All P) (id : FrameId)
    (program : String) : (s.setProgram id program).All P := by
  intro other entry mem
  rw [Store.setProgram, Store.frame_update] at mem
  split at mem
  · exact h other entry mem
  · exact h other entry mem

/-! ### Requests and the texts that they settle -/

/-- What can be asked of a session. -/
inductive Request where
  | run (label text : String)
  | feed (line : String)
  | reset
  | register (name : String) (arity : Arity) (host : Host)

namespace Request

/-- The label of a program that is to be run. -/
def label? : Request → Option String
  | .run label _ => some label
  | _ => none

/-- A function of the embedding program passes on the places of its arguments. -/
def PassesOn : Request → Prop
  | .register _ _ host => host.PassesOn
  | _ => True

theorem filterMap_label?_cons (request : Request) (requests : List Request) :
    (request :: requests).filterMap label? =
      request.label?.toList ++ requests.filterMap label? := by
  cases request <;> rfl

end Request

namespace Session

/-- Does what is asked. -/
def serve (s : Session) : Request → Answer × Session
  | .run label text =>
    let (result, s) := s.run label text
    (.ofValues (result.map fun value => [value]), s)
  | .feed line => s.feed line
  | .reset => (.values [], s.resetInput)
  | .register name arity host => (.values [], s.register name arity host)

/-- Does what is asked, one request after the other. -/
def serveAll (s : Session) : List Request → List Answer × Session
  | [] => ([], s)
  | request :: requests =>
    let (answer, s) := s.serve request
    let (answers, s) := s.serveAll requests
    (answer :: answers, s)

/-- The text that a request settles, with its label. -/
def settles (s : Session) : Request → List (String × String)
  | .run label text => [(label, text)]
  | .feed line =>
    match (s.entry.feed s.reading line).1 with
    | .incomplete => []
    | _ => [(s.entry.label, s.entry.withLine line)]
  | _ => []

/-- The texts that are settled after requests, if `texts` are settled before. -/
def settledAll (s : Session) (texts : List (String × String)) :
    List Request → List (String × String)
  | [] => texts
  | request :: requests => (s.serve request).2.settledAll (s.settles request ++ texts) requests

/-- The session in which a program is evaluated. -/
def launched (s : Session) (label text : String) : Session :=
  { s with sources := s.sources.put label text }.modifyStore (·.setProgram Store.root label)

/-- A program stops with one of its forms, or for a flaw behind them, or has a value. -/
theorem run_cases (s : Session) (label text : String) :
    let r := (s.launched label text).evaluateAll [] (read s.reading label text).forms
    (∃ stop, r.1 = .error stop ∧ s.run label text = (.error stop, r.2)) ∨
    (∃ error, (read s.reading label text).error = some error ∧
      s.run label text = (.error (.raised (readSignal error)), r.2)) ∨
    ∃ values, r.1 = .ok values ∧
      s.run label text = (.ok (values.getLastD (.nil .computed)), r.2) := by
  intro r
  generalize running : s.run label text = result
  rw [run] at running
  split at running
  · rename_i stop t evaluated
    have evaluated : r = (.error stop, t) := evaluated
    rw [evaluated]
    exact .inl ⟨stop, rfl, running.symm⟩
  · rename_i values t evaluated
    have evaluated : r = (.ok values, t) := evaluated
    rw [evaluated]
    right
    split at running
    · rename_i error failed
      exact .inl ⟨error, failed, running.symm⟩
    · exact .inr ⟨values, rfl, running.symm⟩

end Session

/-! ### The invariant -/

/-- The place has no span, or it is that of a node read from one of the texts. -/
def Place.Known (settings : ReadSettings) (texts : List (String × String)) (p : Place) : Prop :=
  p.span = none ∨ ∃ text ∈ texts, p ∈ Node.placesAll (read settings text.1 text.2).forms

/-- The places of the signal are known, or it is that of a text that cannot be read. -/
def Signal.Known (settings : ReadSettings) (texts : List (String × String)) (signal : Signal) :
    Prop :=
  (signal.origin.Known settings texts ∧ ∀ p ∈ signal.trace, p.Known settings texts) ∨
    ∃ error, signal = Session.readSignal error ∧
      ∃ text ∈ texts, (read settings text.1 text.2).error = some error

/-- The places of what was answered are known. -/
def Answer.Known (settings : ReadSettings) (texts : List (String × String)) : Answer → Prop
  | .values nodes => ∀ p ∈ Node.placesAll nodes, p.Known settings texts
  | .stopped (.raised signal) => signal.Known settings texts
  | _ => True

section

variable {settings : ReadSettings} {texts texts' : List (String × String)}

theorem Place.known_of_eq_computed {p : Place} (h : p = .computed) : p.Known settings texts := by
  rw [h]
  exact .inl rfl

theorem Place.Known.mono {p : Place} (h : p.Known settings texts) (sub : texts ⊆ texts') :
    p.Known settings texts' := by
  rcases h with noSpan | ⟨text, mem, read⟩
  · exact .inl noSpan
  · exact .inr ⟨text, sub mem, read⟩

theorem Answer.Known.mono {answer : Answer} (h : answer.Known settings texts)
    (sub : texts ⊆ texts') : answer.Known settings texts' := by
  match answer with
  | .incomplete => trivial
  | .values nodes => exact fun p mem => (h p mem).mono sub
  | .stopped (.raised signal) =>
    rcases h with ⟨origin, trace⟩ | ⟨error, isRead, text, mem, failed⟩
    · exact .inl ⟨origin.mono sub, fun p mem => (trace p mem).mono sub⟩
    · exact .inr ⟨error, isRead, text, sub mem, failed⟩
  | .stopped (.exited _) => trivial
  | .stopped .outOfFuel => trivial

end

namespace Session

/-- The settled texts are stored for good, and all places in bindings are known. -/
structure Tracks (texts : List (String × String)) (s : Session) : Prop where
  base : s.entry.base = "repl"
  stored : ∀ text ∈ texts, s.sources.get? text.1 = some text.2
  /-- No entry to come has the label of a settled text. -/
  past : ∀ text ∈ texts, ∀ n, s.entry.number ≤ n → text.1 ≠ s!"repl:{n}"
  bound : s.world.store.All fun n => ∀ p ∈ n.places, p.Known s.reading texts
  hosts : ∀ host ∈ s.interpreter.hosts, Host.PassesOn host

variable {s : Session} {texts : List (String × String)}

/-- Evaluating nodes whose places are known gives and binds nothing else. -/
theorem evaluateAll_known {forms : List Node}
    (bound : s.world.store.All fun n => ∀ p ∈ n.places, p.Known s.reading texts)
    (hosts : ∀ host ∈ s.interpreter.hosts, Host.PassesOn host)
    (known : ∀ p ∈ Node.placesAll forms, p.Known s.reading texts) :
    Answer.Known s.reading texts (.ofValues (s.evaluateAll [] forms).1) ∧
      (s.evaluateAll [] forms).2.world.store.All fun n =>
        ∀ p ∈ n.places, p.Known s.reading texts := by
  have spanless : ∀ p : Place, p.span = none → p.Known s.reading texts := fun _ => .inl
  have outcomes := evaluateAll_alike
    (fun host mem => Likeness.known_respectedBy spanless (hosts host mem))
    ⟨rfl, rfl, (Likeness.known_worlds_iff spanless).mpr bound⟩ .nil
    (Likeness.known_nodes spanless known)
  generalize s.evaluateAll [] forms = r at *
  cases outcomes with
  | ok values sessions =>
    exact ⟨(Node.forall_known_of_alike values).2, (Likeness.known_worlds_iff spanless).mp
      sessions.world⟩
  | error stops sessions =>
    refine ⟨?_, (Likeness.known_worlds_iff spanless).mp sessions.world⟩
    cases stops with
    | raised signals =>
      refine .inl ⟨signals.origin.2, fun p mem => ?_⟩
      obtain ⟨_, _, isKnown⟩ := signals.trace p mem
      exact isKnown
    | exited status => trivial
    | outOfFuel => trivial

namespace Tracks

theorem evaluated (h : s.Tracks texts) {forms : List Node}
    (known : ∀ p ∈ Node.placesAll forms, p.Known s.reading texts) :
    (s.evaluateAll [] forms).2.Tracks texts ∧
      Answer.Known s.reading texts (.ofValues (s.evaluateAll [] forms).1) := by
  obtain ⟨answer, bound⟩ := evaluateAll_known h.bound h.hosts known
  rw [evaluateAll_eq]
  exact ⟨⟨h.base, h.stored, h.past, bound, h.hosts⟩, answer⟩

theorem setProgram (h : s.Tracks texts) (id : FrameId) (program : String) :
    (s.modifyStore (·.setProgram id program)).Tracks texts where
  base := h.base
  stored := h.stored
  past := h.past
  bound := h.bound.setProgram id program
  hosts := h.hosts

/-- One more text is settled and stored, under a label that is new. -/
theorem settle (h : s.Tracks texts) {label text : String} {e : Entry} (base : e.base = "repl")
    (later : s.entry.number ≤ e.number) (fresh : ∀ other ∈ texts, other.1 ≠ label)
    (past : ∀ n, e.number ≤ n → label ≠ s!"repl:{n}") :
    Tracks ((label, text) :: texts)
      { s with sources := s.sources.put label text, entry := e } where
  base := base
  stored := by
    refine List.forall_mem_cons.mpr ⟨s.sources.get?_put_self label text, fun other mem => ?_⟩
    dsimp only
    rw [s.sources.get?_put_of_ne text (fresh other mem)]
    exact h.stored other mem
  past := by
    refine List.forall_mem_cons.mpr ⟨past, fun other mem n le => ?_⟩
    exact h.past other mem n (Nat.le_trans later le)
  bound id entry mem p inNode :=
    (h.bound id entry mem p inNode).mono (List.subset_cons_self _ _)
  hosts := h.hosts

theorem run (h : s.Tracks texts) {label : String} (text : String)
    (fresh : ∀ other ∈ texts, other.1 ≠ label) (apart : ∀ n : Nat, label ≠ s!"repl:{n}") :
    (s.run label text).2.Tracks ((label, text) :: texts) ∧
      Answer.Known s.reading ((label, text) :: texts) (s.serve (.run label text)).1 := by
  have launched : (s.launched label text).Tracks ((label, text) :: texts) :=
    (h.settle h.base (Nat.le_refl _) fresh fun n _ => apart n).setProgram _ _
  have known : ∀ p ∈ Node.placesAll (read s.reading label text).forms,
      p.Known s.reading ((label, text) :: texts) :=
    fun p mem => .inr ⟨(label, text), List.mem_cons_self, mem⟩
  obtain ⟨tracks, answer⟩ := launched.evaluated known
  rcases s.run_cases label text with ⟨stop, stopped, run⟩ | ⟨error, failed, run⟩ | ⟨values, ok, run⟩
  · rw [serve, run]
    rw [stopped] at answer
    exact ⟨tracks, answer⟩
  · rw [serve, run]
    exact ⟨tracks, .inr ⟨error, rfl, (label, text), List.mem_cons_self, failed⟩⟩
  · rw [serve, run]
    rw [ok] at answer
    refine ⟨tracks, fun p mem => ?_⟩
    obtain ⟨node, isLast, inNode⟩ := Node.mem_placesAll.mp mem
    rw [List.mem_singleton.mp isLast] at inNode
    have last : values.getLastD (.nil .computed) ∈ .nil .computed :: values :=
      List.getLastD_mem_cons
    rcases List.mem_cons.mp last with none | isValue
    · rw [none] at inNode
      exact Place.known_of_eq_computed (List.mem_singleton.mp inNode)
    · exact answer p (Node.mem_placesAll.mpr ⟨_, isValue, inNode⟩)

theorem label_eq (h : s.Tracks texts) : s.entry.label = s!"repl:{s.entry.number}" := by
  rw [Entry.label, h.base]
  rfl

/-- The text of an entry that is over is settled. -/
theorem settleEntry (h : s.Tracks texts) (line : String) :
    Tracks ((s.entry.label, s.entry.withLine line) :: texts)
      { s.withSource line with entry := s.entry.next } := by
  have isNew : ∀ other ∈ texts, other.1 ≠ s.entry.label := by
    rw [h.label_eq]
    exact fun other mem => h.past other mem _ (Nat.le_refl _)
  refine h.settle h.base (Nat.le_succ _) isNew fun n later same => ?_
  rw [h.label_eq] at same
  have number : s.entry.number = n := by simpa using same
  have next : s.entry.next.number = s.entry.number + 1 := rfl
  omega

theorem feed (h : s.Tracks texts) (line : String) :
    (s.feed line).2.Tracks (s.settles (.feed line) ++ texts) ∧
      Answer.Known s.reading (s.settles (.feed line) ++ texts) (s.feed line).1 := by
  rcases s.feed_cases line with
    ⟨entered, fed⟩ | ⟨error, entered, failed, fed⟩ | ⟨forms, entered, reading, fed⟩
  · -- nothing is settled, and what is stored belongs to the entry
    rw [fed, settles, entered]
    refine ⟨⟨h.base, fun text mem => ?_, h.past, h.bound, h.hosts⟩, trivial⟩
    have other : text.1 ≠ s.entry.label := by
      rw [h.label_eq]
      exact h.past text mem _ (Nat.le_refl _)
    dsimp only [withSource]
    rw [s.sources.get?_put_of_ne _ other]
    exact h.stored text mem
  · rw [fed, settles, entered]
    refine ⟨h.settleEntry line, .inr ⟨error, rfl, _, List.mem_cons_self, ?_⟩⟩
    exact Reading.error_of_all_eq_error failed
  · rw [fed, settles, entered]
    have completed : (s.completed line).Tracks _ := (h.settleEntry line).setProgram _ _
    refine completed.evaluated fun p mem => ?_
    rw [← Reading.forms_of_all_eq_ok reading] at mem
    exact .inr ⟨_, List.mem_cons_self, mem⟩

theorem reset (h : s.Tracks texts) : s.resetInput.Tracks texts :=
  ⟨h.base, h.stored, h.past, h.bound, h.hosts⟩

theorem register (h : s.Tracks texts) (name : String) (arity : Arity) {host : Host}
    (passesOn : host.PassesOn) : (s.register name arity host).Tracks texts where
  base := h.base
  stored := h.stored
  past := h.past
  bound := by
    refine (h.bound.number _).define Store.root name fun p mem => ?_
    exact Place.known_of_eq_computed (List.mem_singleton.mp mem)
  hosts := by
    intro other mem
    rcases Array.mem_push.mp mem with old | rfl
    · exact h.hosts other old
    · exact passesOn

/-- Every request keeps the invariant, and is answered with places that are known. -/
theorem serve (h : s.Tracks texts) {request : Request} (passesOn : request.PassesOn)
    (fresh : ∀ label ∈ request.label?.toList, ∀ other ∈ texts, other.1 ≠ label)
    (apart : ∀ label ∈ request.label?.toList, ∀ n : Nat, label ≠ s!"repl:{n}") :
    (s.serve request).2.Tracks (s.settles request ++ texts) ∧
      Answer.Known s.reading (s.settles request ++ texts) (s.serve request).1 := by
  cases request with
  | run label text =>
    have isLabel : label ∈ (Request.run label text).label?.toList := List.mem_singleton_self label
    exact h.run text (fresh label isLabel) (apart label isLabel)
  | feed line => exact h.feed line
  | reset => exact ⟨h.reset, by simp [Session.serve, Answer.Known, Node.placesAll]⟩
  | register name arity host =>
    exact ⟨h.register name arity passesOn, by simp [Session.serve, Answer.Known, Node.placesAll]⟩

/-- A text is settled under the label of a program that is run, or of an entry. -/
theorem label_of_settles (h : s.Tracks texts) {request : Request} {text : String × String}
    (mem : text ∈ s.settles request) :
    text.1 ∈ request.label?.toList ∨ ∃ n : Nat, text.1 = s!"repl:{n}" := by
  cases request with
  | run label content =>
    rw [List.mem_singleton.mp mem]
    exact .inl (List.mem_singleton_self label)
  | feed line =>
    rw [settles] at mem
    split at mem
    · cases mem
    · rw [List.mem_singleton.mp mem]
      exact .inr ⟨_, h.label_eq⟩
  | reset => cases mem
  | register name arity host => cases mem

end Tracks

theorem reading_serve (s : Session) (request : Request) :
    (s.serve request).2.reading = s.reading := by
  cases request with
  | run label text =>
    have evaluated : (s.run label text).2 =
        ((s.launched label text).evaluateAll [] (read s.reading label text).forms).2 := by
      rcases s.run_cases label text with ⟨_, _, run⟩ | ⟨_, _, run⟩ | ⟨_, _, run⟩ <;> rw [run]
    change (s.run label text).2.reading = _
    rw [evaluated, evaluateAll_eq]
    rfl
  | feed line => exact s.reading_feed line
  | reset => rfl
  | register name arity host => rfl

theorem subset_settledAll (s : Session) (texts : List (String × String))
    (requests : List Request) : texts ⊆ s.settledAll texts requests := by
  induction requests generalizing s texts with
  | nil => exact List.Subset.refl _
  | cons request requests ih =>
    exact List.Subset.trans (List.subset_append_right _ _) (ih _ _)

theorem reading_serveAll (s : Session) (requests : List Request) :
    (s.serveAll requests).2.reading = s.reading := by
  induction requests generalizing s with
  | nil => rfl
  | cons request requests ih => exact (ih _).trans (s.reading_serve request)

/-- Every sequence of requests keeps the invariant, if no two programs that are run have the
same label, and none has that of an entry. -/
theorem Tracks.serveAll {requests : List Request} (h : s.Tracks texts)
    (passesOn : ∀ request ∈ requests, request.PassesOn)
    (distinct : (requests.filterMap Request.label?).Nodup)
    (apart : ∀ label ∈ requests.filterMap Request.label?, ∀ n : Nat, label ≠ s!"repl:{n}")
    (fresh : ∀ label ∈ requests.filterMap Request.label?, ∀ other ∈ texts, other.1 ≠ label) :
    (s.serveAll requests).2.Tracks (s.settledAll texts requests) ∧
      ∀ answer ∈ (s.serveAll requests).1,
        answer.Known s.reading (s.settledAll texts requests) := by
  induction requests generalizing s texts with
  | nil => exact ⟨h, by simp [Session.serveAll]⟩
  | cons request requests ih =>
    rw [Request.filterMap_label?_cons] at distinct apart fresh
    obtain ⟨_, laterDistinct, notLater⟩ := List.nodup_append.mp distinct
    obtain ⟨ownApart, laterApart⟩ := List.forall_mem_append.mp apart
    obtain ⟨ownFresh, laterFresh⟩ := List.forall_mem_append.mp fresh
    obtain ⟨firstPasses, othersPass⟩ := List.forall_mem_cons.mp passesOn
    obtain ⟨tracks, known⟩ := h.serve firstPasses ownFresh ownApart
    have stillFresh : ∀ label ∈ requests.filterMap Request.label?,
        ∀ other ∈ s.settles request ++ texts, other.1 ≠ label := by
      rintro label mem other inTexts rfl
      rcases List.mem_append.mp inTexts with new | old
      · rcases h.label_of_settles new with own | ⟨n, entry⟩
        · exact notLater _ own _ mem rfl
        · exact laterApart _ mem n entry
      · exact laterFresh _ mem other old rfl
    obtain ⟨tracksAll, knownAll⟩ := ih tracks othersPass laterDistinct laterApart stillFresh
    refine ⟨tracksAll, List.forall_mem_cons.mpr ⟨?_, ?_⟩⟩
    · exact known.mono (subset_settledAll _ _ _)
    · rw [reading_serve] at knownAll
      exact knownAll

/-! ### What can be shown -/

/-- The place has no span, or the text that is stored for its source holds a node there. -/
def Shows (s : Session) (p : Place) : Prop :=
  p.span = none ∨ ∃ text, s.sources.get? p.source = some text ∧
    p ∈ Node.placesAll (read s.reading p.source text).forms

/-- The place is a span of the text that is stored for its source. -/
def Marks (s : Session) (p : Place) : Prop :=
  ∃ text span, s.sources.get? p.source = some text ∧ p.span = some span ∧
    span.start ≤ span.stop ∧ span.stop ≤ text.utf8ByteSize

/-- All places of what was answered can be shown; that of a reader's error is a span of the
text that it is about. -/
def ShowsAnswer (s : Session) : Answer → Prop
  | .values nodes => ∀ p ∈ Node.placesAll nodes, s.Shows p
  | .stopped (.raised signal) =>
    (s.Shows signal.origin ∧ ∀ p ∈ signal.trace, s.Shows p) ∨
      ∃ error, signal = readSignal error ∧ s.Marks error.place
  | _ => True

theorem Tracks.shows (h : s.Tracks texts) {p : Place} (known : p.Known s.reading texts) :
    s.Shows p := by
  rcases known with noSpan | ⟨⟨label, text⟩, mem, read⟩
  · exact .inl noSpan
  · have source := Reading.source_of_mem_places read
    dsimp only at source read
    subst source
    exact .inr ⟨text, h.stored _ mem, read⟩

theorem Tracks.showsAnswer (h : s.Tracks texts) {answer : Answer}
    (known : answer.Known s.reading texts) : s.ShowsAnswer answer := by
  match answer with
  | .incomplete => trivial
  | .values nodes => exact fun p mem => h.shows (known p mem)
  | .stopped (.raised signal) =>
    rcases known with ⟨origin, trace⟩ | ⟨error, isRead, ⟨label, text⟩, mem, failed⟩
    · exact .inl ⟨h.shows origin, fun p mem => h.shows (trace p mem)⟩
    · obtain ⟨_, _, span, _, stands, _, ordered, within, _⟩ := stands_of_read failed
      refine .inr ⟨error, isRead, text, span, ?_, ?_, ordered, within⟩
      · rw [stands]
        exact h.stored _ mem
      · rw [stands]
  | .stopped (.exited _) => trivial
  | .stopped .outOfFuel => trivial

/-- Nothing is settled in a new session, and what is bound there was computed. -/
theorem tracks_start (reading : ReadSettings) (limits : Limits) (serial fuel : Nat) :
    Tracks [] { start reading limits serial with fuel } where
  base := rfl
  stored := by simp
  past := by simp
  bound := by
    have known (p : Place) (mem : p ∈ [Place.computed]) : p.Known reading [] :=
      Place.known_of_eq_computed (List.mem_singleton.mp mem)
    exact Store.all_global_computed (fun _ => known) (fun _ => known) serial
  hosts := by
    rintro host ⟨mem⟩
    cases mem

/-- The text of an entry that was over before the last request is still settled after it. -/
theorem settled_of_feed (s : Session) {before after : List Request} {line : String}
    (ended : ((s.serveAll before).2.entry.feed s.reading line).1 ≠ .incomplete) :
    ((s.serveAll before).2.entry.label, (s.serveAll before).2.entry.withLine line) ∈
      s.settledAll texts (before ++ .feed line :: after) := by
  induction before generalizing s texts with
  | nil =>
    refine subset_settledAll (s.serve (.feed line)).2 _ after (List.mem_append_left _ ?_)
    rw [settles]
    split
    · exact absurd ‹_› ended
    · exact List.mem_singleton_self _
  | cons request before ih => exact ih _ (s.reading_serve request ▸ ended)

/-- Every place of a session can be shown in its source. After any requests to a new session,
where no two programs that are run have the same label and none has that of an entry, and
functions of the embedding program pass on the places of their arguments: the places of all
values and signals that were ever answered, and of all that is bound in any frame, have no
span or are those of nodes read from the text that is stored for their source; that of a
reader's error is a span of the text. And the text that is stored for an entry that is over
is the one that was read, whatever is asked afterwards. -/
theorem serveAll_shows (reading : ReadSettings) (limits : Limits) (serial fuel : Nat)
    (requests : List Request) (passesOn : ∀ request ∈ requests, request.PassesOn)
    (distinct : (requests.filterMap Request.label?).Nodup)
    (apart : ∀ label ∈ requests.filterMap Request.label?, ∀ n : Nat, label ≠ s!"repl:{n}") :
    let s : Session := { start reading limits serial with fuel }
    let t := (s.serveAll requests).2
    (∀ answer ∈ (s.serveAll requests).1, t.ShowsAnswer answer) ∧
    (t.world.store.All fun n => ∀ p ∈ n.places, t.Shows p) ∧
    ∀ before line after, requests = before ++ .feed line :: after →
      let u := (s.serveAll before).2
      (∀ label text forms, (u.entry.feed reading line).1 = .complete label text forms →
        t.sources.get? label = some text ∧ (read reading label text).all = .ok forms) ∧
      ∀ error, (u.entry.feed reading line).1 = .failed error →
        t.sources.get? u.entry.label = some (u.entry.withLine line) ∧
          (read reading u.entry.label (u.entry.withLine line)).all = .error error := by
  intro s t
  obtain ⟨tracks, known⟩ := (tracks_start reading limits serial fuel).serveAll passesOn distinct
    apart (by simp)
  have settings : t.reading = s.reading := s.reading_serveAll requests
  refine ⟨fun answer mem => ?_, fun id entry mem p inNode => ?_, ?_⟩
  · exact tracks.showsAnswer (settings ▸ known answer mem)
  · exact tracks.shows (tracks.bound id entry mem p inNode)
  · rintro before line after rfl u
    have kept (ended : (u.entry.feed reading line).1 ≠ .incomplete) :
        t.sources.get? u.entry.label = some (u.entry.withLine line) :=
      tracks.stored _ (s.settled_of_feed ended)
    rcases Entry.feed_cases reading u.entry line with
      ⟨_, _, _, fed⟩ | ⟨forms, isRead, fed⟩ | ⟨error, isRead, _, fed⟩
    · rw [fed]
      exact ⟨by simp, by simp⟩
    · rw [fed] at kept ⊢
      refine ⟨?_, by simp⟩
      rintro _ _ _ ⟨⟩
      exact ⟨kept (by simp), isRead⟩
    · rw [fed] at kept ⊢
      refine ⟨by simp, ?_⟩
      rintro _ ⟨⟩
      exact ⟨kept (by simp), isRead⟩

/-- A function is registered, a program is run, an entry of two lines is evaluated, one is
dropped, and one cannot be read. -/
theorem serveAll_pack_shows :
    let pack : Host := fun args => .value (.vector .computed args)
    let requests : List Request := [.register "pack" .any pack, .run "main" "(setn f 'x)",
      .feed "(pack", .feed "f)", .feed "(", .reset, .feed ")"]
    let s : Session := { start {} {} 1 with fuel := 20 }
    let t := (s.serveAll requests).2
    (∀ answer ∈ (s.serveAll requests).1, t.ShowsAnswer answer) ∧
      (t.world.store.All fun n => ∀ p ∈ n.places, t.Shows p) ∧
      ∀ label text forms, ((s.serveAll (requests.take 3)).2.entry.feed {} "f)").1 =
        .complete label text forms → t.sources.get? label = some text := by
  intro pack requests s t
  have passesOn : ∀ request ∈ requests, request.PassesOn := by
    simp only [requests, List.forall_mem_cons, Request.PassesOn]
    refine ⟨?_, by simp⟩
    rintro args _ ⟨⟩ p mem
    rcases List.mem_cons.mp mem with rfl | inArguments
    · exact .inl rfl
    · exact .inr inArguments
  have apart : ∀ label ∈ requests.filterMap Request.label?, ∀ n : Nat, label ≠ s!"repl:{n}" := by
    intro label mem n same
    rw [List.mem_singleton.mp mem] at same
    have first := congrArg (·.toList.head?) same
    simp [toString] at first
  obtain ⟨answers, bound, entries⟩ := serveAll_shows {} {} 1 20 requests passesOn (by decide) apart
  refine ⟨answers, bound, fun label text forms completed => ?_⟩
  exact ((entries (requests.take 3) "f)" (requests.drop 4) rfl).1 label text forms completed).1

end Session

end Sexpr
