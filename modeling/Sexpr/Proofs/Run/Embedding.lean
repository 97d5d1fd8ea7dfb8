/-
What the embedding program does to a store.

An `Embedding` is a world together with the functions that were registered in it. A `Deed`
is one thing that the embedding program may do: make a frame, bind a name, register a
function, label a frame, evaluate or expand a node. `Embedding.Leads` is any number of
deeds, each of which is given frames and nodes of the store as it is then, and which may
fail. Main statement: `Embedding.ancestry`, the frames of every store that deeds lead to
are well formed, and what has been said about a frame once remains true.
-/

import Sexpr.Proofs.Store.Ancestry

namespace Sexpr

structure Embedding where
  /-- The functions that were registered, by number. -/
  hosts : Array Host := #[]
  world : World

inductive Deed where
  /-- Makes a frame; without a name, one is made from that of the parent. -/
  | push (parent : FrameId) (name : Option String)
  | define (frame : FrameId) (name : String) (node : Node)
  | register (frame : FrameId) (name : String) (arity : Arity) (host : Host)
  | setProgram (frame : FrameId) (program : String)
  /-- Evaluates a node, from some count of steps on. -/
  | evaluate (limits : Limits) (steps fuel : Nat) (frame : FrameId) (node : Node)
  | expand (limits : Limits) (steps fuel : Nat) (frame : FrameId) (node : Node)

namespace Embedding

def store (s : Embedding) : Store := s.world.store

/-- How many frames there are. -/
def size (s : Embedding) : Nat := s.store.frames.size

def modifyStore (s : Embedding) (f : Store → Store) : Embedding :=
  { s with world := { s.world with store := f s.world.store } }

/-- What a run of the interpreter gives and leaves behind, with or without a result. -/
def finish (s : Embedding) : EStateM.Result Stop World Node → Option (Except Stop Node) × Embedding
  | .ok node world => (some (.ok node), { s with world })
  | .error stop world => (some (.error stop), { s with world })

/-- Does one thing; runs of the interpreter have an answer. -/
def act (s : Embedding) : Deed → Option (Except Stop Node) × Embedding
  | .push parent name =>
    (none, s.modifyStore fun t => (t.push parent (name.getD (t.childName parent))).2)
  | .define frame name node => (none, s.modifyStore (·.define frame name node))
  | .register frame name arity host =>
    let s' := s.modifyStore (·.register frame name arity (.host s.hosts.size))
    (none, { s' with hosts := s.hosts.push host })
  | .setProgram frame program => (none, s.modifyStore (·.setProgram frame program))
  | .evaluate limits steps fuel frame node =>
    let i : Interpreter := { limits, hosts := s.hosts }
    s.finish (i.eval fuel frame node { s.world with steps })
  | .expand limits steps fuel frame node =>
    let i : Interpreter := { limits, hosts := s.hosts }
    s.finish (i.expand fuel frame node { s.world with steps })

/-- The deed is given a frame that exists, and nodes and functions that bring in no
closure but of frames that exist. -/
def Allows (s : Embedding) : Deed → Prop
  | .push parent _ => parent < s.size
  | .define frame _ node => frame < s.size ∧ node.CapturesBelow s.size
  | .register frame _ _ host =>
    frame < s.size ∧ ∀ n, s.size ≤ n → host.Preserves (Node.CapturesBelow n)
  | .setProgram frame _ => frame < s.size
  | .evaluate _ _ _ frame node | .expand _ _ _ frame node =>
    frame < s.size ∧ node.CapturesBelow s.size

/-- Nothing has been done yet: there is one frame, empty or with the whole catalog. -/
def IsNew (s : Embedding) : Prop :=
  s.hosts = #[] ∧ ∃ serial, s.store = .empty serial ∨ s.store = .global serial

/-- Some deeds lead from the one to the other. -/
inductive Leads (s : Embedding) : Embedding → Prop where
  | refl : Leads s s
  | step {t : Embedding} (d : Deed) : Leads s t → t.Allows d → Leads s (t.act d).2

/-- The store is sound, and functions bring in no closure but of frames that exist. -/
structure Sound (s : Embedding) : Prop where
  store : s.store.Sound
  hosts : ∀ host ∈ s.hosts, ∀ n, s.size ≤ n → host.Preserves (Node.CapturesBelow n)

/-- The closures in an answer capture frames that exist. -/
def Answers (s : Embedding) (answer : Option (Except Stop Node)) : Prop :=
  (∀ node, answer = some (.ok node) → node.CapturesBelow s.size) ∧
    ∀ signal, answer = some (.error (.raised signal)) → signal.payload.CapturesBelow s.size

variable {s t : Embedding}

theorem answers_none (s : Embedding) : s.Answers none :=
  ⟨fun _ h => (nomatch h), fun _ h => (nomatch h)⟩

/-- What a step leads to: a sound store that continues the one before, and an answer that
captures its frames. -/
structure Follows (s t : Embedding) (answer : Option (Except Stop Node)) : Prop where
  sound : t.Sound
  continues : s.store.Continues t.store
  answers : t.Answers answer

/-- A change of the store that keeps it sound and is no run. -/
theorem Sound.follows_modify (h : s.Sound) (f : Store → Store) (sound : (f s.store).Sound)
    (continues : s.store.Continues (f s.store)) : s.Follows (s.modifyStore f) none where
  sound := {
    store := sound
    hosts := fun host mem n le => h.hosts host mem n (Nat.le_trans continues.size_le le) }
  continues := continues
  answers := answers_none _

theorem Sound.admitsHost (h : s.Sound) :
    ∀ host ∈ s.hosts, (Invariant.frames s.size).AdmitsHost host := by
  intro host mem t args node good fits replied
  apply Scope.frames_fits_iff.mpr
  exact h.hosts host mem t.frames.size good.2 args
    (fun a isArg => Scope.frames_fits_iff.mp (fits a isArg)) node replied

/-- A run that keeps the invariant, whatever it ends with. -/
theorem Sound.follows_run (h : s.Sound) {x : Run Node} {steps : Nat}
    (keeps : (Invariant.frames s.size).Alongside {} s.size Scope.frames.Fits x x)
    (writes : ∀ w : World, w.store.Continues (x.final w).store) :
    s.Follows (s.finish (x { s.world with steps })).2 (s.finish (x { s.world with steps })).1 := by
  have good : (Invariant.frames s.size).Holds s.size { s.world with steps } :=
    ⟨⟨h.store, Nat.le_refl _⟩, Nat.le_refl _⟩
  obtain ⟨holds, results, stops⟩ := keeps.outcome good
  have continues := writes { s.world with steps }
  unfold Run.final at holds continues
  cases ended : x { s.world with steps } with
  | ok node w =>
    rw [ended] at holds continues
    refine ⟨⟨holds.good.1, ?_⟩, continues, ?_, fun _ other => nomatch other⟩
    · exact fun host mem n le => h.hosts host mem n (Nat.le_trans continues.size_le le)
    · rintro node ⟨⟩
      exact Scope.frames_fits_iff.mp (results _ _ ended)
  | error stop w =>
    rw [ended] at holds continues
    refine ⟨⟨holds.good.1, ?_⟩, continues, fun _ other => (nomatch other), ?_⟩
    · exact fun host mem n le => h.hosts host mem n (Nat.le_trans continues.size_le le)
    · rintro signal ⟨⟩
      exact Scope.frames_fits_iff.mp (stops _ _ ended)

theorem continues_expand (i : Interpreter) (fuel : Nat) (frame : FrameId) (node : Node)
    (w : World) : w.store.Continues ((i.expand fuel frame node).final w).store := by
  cases node with
  | call place items =>
    cases items with
    | nil => exact .refl _
    | cons head args =>
      rw [Run.final, Interpreter.expand_call]
      cases Interpreter.expander? w.store frame head with
      | none => exact .refl _
      | some expander =>
        have entered := i.writesOnly_enter fuel expander.1 expander.2 (args.map .quote) place 0
          frame w
        rw [← Run.final_traced place] at entered
        exact entered.continues
  | _ => exact .refl _

/-- One deed keeps a store sound. -/
theorem Sound.act (h : s.Sound) {d : Deed} (allowed : s.Allows d) :
    s.Follows (s.act d).2 (s.act d).1 := by
  cases d with
  | push parent name =>
    exact h.follows_modify (fun t => (t.push parent (name.getD (t.childName parent))).2)
      (h.store.push _ allowed) (Store.continues_push _ _ _)
  | define frame name node =>
    exact h.follows_modify (·.define frame name node) (h.store.define frame name allowed.2)
      (Store.writes_define _ frame name node).continues
  | register frame name arity host =>
    have continues := s.store.continues_register frame name arity (.host s.hosts.size)
    obtain ⟨sound, _, _⟩ := h.follows_modify (·.register frame name arity (.host s.hosts.size))
      (h.store.register _ _ _ _) continues
    refine ⟨⟨sound.store, fun other mem n le => ?_⟩, continues, answers_none _⟩
    rcases Array.mem_push.mp mem with mem | rfl
    · exact sound.hosts other mem n le
    · exact allowed.2 n (Nat.le_trans continues.size_le le)
  | setProgram frame program =>
    exact h.follows_modify (·.setProgram frame program) (h.store.setProgram frame program)
      (Store.continues_setProgram _ _ _)
  | evaluate limits steps fuel frame node =>
    let i : Interpreter := { limits, hosts := s.hosts }
    apply h.follows_run (x := i.eval fuel frame node)
    · have serves : (Invariant.frames s.size).Serves {} (i.evalAt fuel) (i.evalAt fuel) :=
        Interpreter.evalAt_serves h.admitsHost (.inr rfl) fuel
      exact serves 0 allowed.1 (Scope.frames_fits_iff.mpr allowed.2)
    · exact fun w => (i.relates_frames fuel node frame 0 w).continues
  | expand limits steps fuel frame node =>
    let i : Interpreter := { limits, hosts := s.hosts }
    apply h.follows_run (x := i.expand fuel frame node)
    · exact Interpreter.expand_alongside h.admitsHost fuel
        (Scope.frames_fits_iff.mpr allowed.2)
    · exact continues_expand i fuel frame node

theorem IsNew.sound (h : s.IsNew) : s.Sound := by
  obtain ⟨noHosts, serial, empty | global⟩ := h
  · exact ⟨empty ▸ Store.sound_empty serial, by simp [noHosts]⟩
  · exact ⟨global ▸ Store.sound_global serial, by simp [noHosts]⟩

/-- Any number of deeds keep a store sound, and continue it. -/
theorem Sound.leads (h : s.Sound) (leads : s.Leads t) : t.Sound ∧ s.store.Continues t.store := by
  induction leads with
  | refl => exact ⟨h, .refl _⟩
  | step d _ allowed ih =>
    obtain ⟨sound, continues⟩ := ih
    have follows := sound.act allowed
    exact ⟨follows.sound, continues.trans follows.continues⟩

/-- Whatever is done to a new store, successfully or not, each of its frames has finitely
many ancestors, every one of them older than the one before, as many as its level says,
and looking a name up goes through just these; all closures that are bound capture frames
that exist, and so do those in the answer to any further deed; and whatever is done later,
no frame that there is goes away or changes its parent, name or level. -/
theorem ancestry (new : s.IsNew) (leads : s.Leads t) :
    (∀ id, ∃ above, t.store.Ancestors id above ∧ above.length = (t.store.frame id).info.level ∧
      (id :: above).Pairwise (· > ·) ∧
      t.store.chain id = (id :: above).map fun frame => (t.store.frame frame).bindings) ∧
    t.store.All (Node.CapturesBelow t.size) ∧
    (∀ d, t.Allows d → (t.act d).2.Answers (t.act d).1) ∧
    ∀ u, t.Leads u → t.store.Continues u.store := by
  have sound := (new.sound.leads leads).1
  exact ⟨sound.store.ancestors, sound.store.captures, fun d allowed => (sound.act allowed).answers,
    fun u later => (sound.leads later).2⟩

/-- A closure that captures a frame below the root is bound in the root and called there. -/
theorem escaped_ancestry :
    let f : Node :=
      .closure .computed ⟨0, .function, "f", ⟨["x"], none⟩, 1⟩ (.symbol .computed "x")
    let call : Node := .call .computed [.symbol .computed "f", .symbol .computed "f"]
    let s : Embedding := { world := ⟨.empty 1, 0, ""⟩ }
    let made := (s.act (.push Store.root none)).2
    let bound := (made.act (.define Store.root "f" f)).2
    let called := (bound.act (.evaluate {} 0 9 Store.root call)).2
    called.store.All (Node.CapturesBelow called.size) := by
  intro f call s made bound called
  have fits : f.CapturesBelow 2 := by
    intro p l body mem
    simp only [f, Node.parts, List.mem_cons, List.not_mem_nil, reduceCtorEq, or_false,
      Node.closure.injEq] at mem
    rw [mem.2.1]
    decide
  have callFits : call.CapturesBelow 2 := by
    intro p l body mem
    simp [call, Node.parts, Node.partsAll] at mem
  have leads : s.Leads called :=
    .step (.evaluate {} 0 9 Store.root call)
      (.step (.define Store.root "f" f) (.step (.push Store.root none) .refl Nat.zero_lt_one)
        ⟨by decide, fits⟩) ⟨by decide, callFits⟩
  exact (ancestry ⟨rfl, 1, .inl rfl⟩ leads).2.1

end Embedding

end Sexpr
