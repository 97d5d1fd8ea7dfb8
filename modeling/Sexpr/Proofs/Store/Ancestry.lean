/-
Frames and the frames above them.

`Store.Ancestors` follows the parents of a frame as they are recorded, whether or not
they are older. A store is sound if they are, if levels count them, and if every closure
that is bound captures a frame of the store (`Store.Sound`). Then every frame has finitely
many ancestors, as many as its level says, and these are the frames that looking a name up
goes through (`Store.Sound.ancestors`). Soundness is an invariant of evaluation
(`Invariant.frames`). What a frame is called, its level and its parent stay as they are
when a store continues (`Store.Continues`).
-/

import Sexpr.Proofs.Run.Frames
import Sexpr.Proofs.Run.Invariant
import Sexpr.Proofs.Run.Likeness

namespace Sexpr

/-- Every closure in the node captures one of the first `size` frames. -/
def Node.CapturesBelow (size : Nat) (n : Node) : Prop :=
  ∀ p l body, .closure p l body ∈ n.parts → l.frame < size

namespace Node

theorem CapturesBelow.mono {m n : Nat} (le : m ≤ n) {node : Node} (h : node.CapturesBelow m) :
    node.CapturesBelow n :=
  fun p l body mem => Nat.lt_of_lt_of_le (h p l body mem) le

/-- A primitive captures nothing. -/
theorem capturesBelow_primitive (n : Nat) (p : Place) (value : Primitive) :
    (primitive p value).CapturesBelow n := by
  intro q l body mem
  cases List.mem_singleton.mp mem

theorem capturesBelow_form (n : Nat) (p : Place) (f : Form) : (form p f).CapturesBelow n := by
  intro q l body mem
  cases List.mem_singleton.mp mem

end Node

namespace Store

/-- The frames above a frame, the nearest first. -/
inductive Ancestors (s : Store) : FrameId → List FrameId → Prop where
  | root {id : FrameId} : (s.frame id).parent = none → Ancestors s id []
  | child {id parent : FrameId} {above : List FrameId} : (s.frame id).parent = some parent →
      Ancestors s parent above → Ancestors s id (parent :: above)

/-- Parents are older, levels count ancestors, and closures capture frames that exist. -/
structure Sound (s : Store) : Prop where
  older : ∀ {id parent}, (s.frame id).parent = some parent → parent < id
  level_eq : ∀ id, (s.frame id).info.level
    = (s.frame id).parent.elim 0 fun parent => (s.frame parent).info.level + 1
  captures : s.All (Node.CapturesBelow s.frames.size)

variable {s t u : Store}

/-! ### Ancestors -/

section Older

variable {id : FrameId} {above : List FrameId}
  (older : ∀ {id parent}, (s.frame id).parent = some parent → parent < id)

include older

/-- No frame is left out on the way up. -/
theorem parent?_eq (id : FrameId) : s.parent? id = (s.frame id).parent := by
  unfold parent?
  cases isParent : (s.frame id).parent with
  | none => rfl
  | some parent => exact Option.filter_some_pos (decide_eq_true (older isParent))

/-- Where parents are older, going up comes to an end. -/
theorem exists_ancestors (id : FrameId) : ∃ above, s.Ancestors id above := by
  induction id using Nat.strongRecOn with
  | _ id ih =>
    cases isParent : (s.frame id).parent with
    | none => exact ⟨[], .root isParent⟩
    | some parent =>
      obtain ⟨above, ancestors⟩ := ih parent (older isParent)
      exact ⟨parent :: above, .child isParent ancestors⟩

/-- Looking up goes through a frame and those above it. -/
theorem Ancestors.chain_eq (h : s.Ancestors id above) :
    s.chain id = (id :: above).map fun frame => (s.frame frame).bindings := by
  induction h with
  | @root id noParent =>
    rw [Store.chain_eq, parent?_eq older, noParent]
    rfl
  | @child id parent above isParent _ ih =>
    rw [Store.chain_eq, parent?_eq older, isParent, Option.elim_some, ih]
    rfl

theorem Ancestors.pairwise (h : s.Ancestors id above) : (id :: above).Pairwise (· > ·) := by
  induction h with
  | root => exact List.pairwise_singleton _ _
  | @child id parent above isParent _ ih =>
    refine List.pairwise_cons.mpr ⟨fun other mem => ?_, ih⟩
    rcases List.mem_cons.mp mem with rfl | mem
    · exact older isParent
    · exact Nat.lt_trans ((List.pairwise_cons.mp ih).1 other mem) (older isParent)

end Older

theorem Sound.length_ancestors (h : s.Sound) {id : FrameId} {above : List FrameId}
    (ancestors : s.Ancestors id above) : above.length = (s.frame id).info.level := by
  induction ancestors with
  | @root id noParent =>
    rw [h.level_eq id, noParent]
    rfl
  | @child id parent above isParent _ ih =>
    rw [h.level_eq id, isParent, List.length_cons, ih]
    rfl

/-- A frame of a sound store has as many ancestors as its level says, each of them older
than the one before. They are the frames whose bindings are seen from it. -/
theorem Sound.ancestors (h : s.Sound) (id : FrameId) :
    ∃ above, s.Ancestors id above ∧ above.length = (s.frame id).info.level ∧
      (id :: above).Pairwise (· > ·) ∧
      s.chain id = (id :: above).map fun frame => (s.frame frame).bindings := by
  obtain ⟨above, ancestors⟩ := exists_ancestors h.older id
  exact ⟨above, ancestors, h.length_ancestors ancestors, ancestors.pairwise h.older,
    ancestors.chain_eq h.older⟩

/-! ### What keeps a store sound -/

theorem All.mono {P Q : Node → Prop} (h : s.All P) (le : ∀ node, P node → Q node) : s.All Q :=
  fun id entry mem => le _ (h id entry mem)

theorem sound_empty (serial : Nat) : (empty serial).Sound where
  older := by
    intro id parent isParent
    cases id <;> cases isParent
  level_eq id := by
    cases id <;> rfl
  captures := all_empty serial

/-- What changes neither parents nor levels. -/
theorem Sound.of_frame_eq (h : s.Sound) (size : s.frames.size = t.frames.size)
    (same : ∀ id, (t.frame id).parent = (s.frame id).parent ∧
      (t.frame id).info.level = (s.frame id).info.level)
    (captures : t.All (Node.CapturesBelow s.frames.size)) : t.Sound where
  older := by
    intro id parent isParent
    rw [(same id).1] at isParent
    exact h.older isParent
  level_eq id := by
    simp only [(same _).1, (same _).2]
    exact h.level_eq id
  captures := size ▸ captures

theorem Sound.define (h : s.Sound) (frame : FrameId) (name : String) {node : Node}
    (captures : node.CapturesBelow s.frames.size) : (s.define frame name node).Sound := by
  apply h.of_frame_eq (size_define s frame name node).symm
  · intro id
    rw [Store.define, frame_update]
    split <;> exact ⟨rfl, rfl⟩
  · exact h.captures.define frame name captures

theorem Sound.setProgram (h : s.Sound) (frame : FrameId) (program : String) :
    (s.setProgram frame program).Sound := by
  have same : ∀ id, ((s.setProgram frame program).frame id).bindings = (s.frame id).bindings ∧
      ((s.setProgram frame program).frame id).parent = (s.frame id).parent ∧
      ((s.setProgram frame program).frame id).info.level = (s.frame id).info.level := by
    intro id
    rw [Store.setProgram, frame_update]
    split <;> exact ⟨rfl, rfl, rfl⟩
  apply h.of_frame_eq (size_update s frame _).symm fun id => (same id).2
  intro id entry mem
  exact h.captures id entry ((same id).1 ▸ mem)

theorem Sound.number (h : s.Sound) (serial : Nat) : Sound { s with serial := serial } where
  older := h.older
  level_eq := h.level_eq
  captures := h.captures

/-- A frame may be made below any frame that exists. -/
theorem Sound.push (h : s.Sound) {parent : FrameId} (name : String)
    (inUse : parent < s.frames.size) : (s.push parent name).2.Sound where
  older := by
    intro id above isParent
    rw [frame_push] at isParent
    split at isParent
    · rename_i new
      obtain rfl := Option.some.inj isParent
      exact new ▸ inUse
    · exact h.older isParent
  level_eq id := by
    have parentFrame : (s.push parent name).2.frame parent = s.frame parent :=
      frame_push_of_lt name inUse
    by_cases new : id = s.frames.size
    · rw [frame_push, if_pos new, Option.elim_some, parentFrame]
    · rw [frame_push s parent id, if_neg new, h.level_eq id]
      cases isParent : (s.frame id).parent with
      | none => rfl
      | some above =>
        have older := h.older isParent
        have old : id < s.frames.size := by
          apply Nat.lt_of_not_le
          intro unused
          rw [frame_of_size_le unused] at isParent
          cases isParent
        rw [Option.elim_some, Option.elim_some, frame_push_of_lt name (Nat.lt_trans older old)]
  captures := by
    have size : (s.push parent name).2.frames.size = s.frames.size + 1 := Array.size_push _
    rw [size]
    exact (h.captures.push parent name).mono fun _ => Node.CapturesBelow.mono (Nat.le_succ _)

theorem Sound.register (h : s.Sound) (frame : FrameId) (name : String) (arity : Arity)
    (routine : Routine) : (s.register frame name arity routine).Sound :=
  (h.number _).define frame name (Node.capturesBelow_primitive _ _ _)

theorem sound_global (serial : Nat) : (global serial).Sound := by
  refine global_induction (motive := Sound) (sound_empty serial) fun s builtin h => ?_
  cases builtin with
  | form f => exact h.define root f.name (Node.capturesBelow_form _ _ f)
  | operation op => exact h.register root op.name op.arity (.operation op)

/-! ### What frames keep -/

/-- No frame goes away, and those there are keep their names, levels and parents. -/
structure Continues (s t : Store) : Prop where
  size_le : s.frames.size ≤ t.frames.size
  parent_eq : ∀ id < s.frames.size, (t.frame id).parent = (s.frame id).parent
  name_eq : ∀ id < s.frames.size, (t.frame id).info.name = (s.frame id).info.name
  level_eq : ∀ id < s.frames.size, (t.frame id).info.level = (s.frame id).info.level

theorem Continues.refl (s : Store) : s.Continues s where
  size_le := Nat.le_refl _
  parent_eq := fun _ _ => rfl
  name_eq := fun _ _ => rfl
  level_eq := fun _ _ => rfl

theorem Continues.trans (h : s.Continues t) (k : t.Continues u) : s.Continues u where
  size_le := Nat.le_trans h.size_le k.size_le
  parent_eq := fun id old =>
    (k.parent_eq id (Nat.lt_of_lt_of_le old h.size_le)).trans (h.parent_eq id old)
  name_eq := fun id old =>
    (k.name_eq id (Nat.lt_of_lt_of_le old h.size_le)).trans (h.name_eq id old)
  level_eq := fun id old =>
    (k.level_eq id (Nat.lt_of_lt_of_le old h.size_le)).trans (h.level_eq id old)

/-- What is written to a frame are bindings. -/
theorem Writes.continues {frame : FrameId} (h : s.Writes frame t) : s.Continues t := by
  have grows (id : FrameId) (old : id < s.frames.size) : (s.frame id).Grows (t.frame id) := by
    by_cases own : id = frame
    · exact own ▸ h.own (own ▸ old)
    · exact h.others id old own ▸ .refl _
  exact {
    size_le := h.size_le
    parent_eq := fun id old => (grows id old).parent_eq
    name_eq := fun id old => congrArg FrameInfo.name (grows id old).info_eq
    level_eq := fun id old => congrArg FrameInfo.level (grows id old).info_eq }

theorem continues_push (s : Store) (parent : FrameId) (name : String) :
    s.Continues (s.push parent name).2 := by
  have old (id : FrameId) (inUse : id < s.frames.size) :
      (s.push parent name).2.frame id = s.frame id := frame_push_of_lt name inUse
  exact {
    size_le := Nat.le_of_lt (makesFrame_push parent name s).2.1
    parent_eq := fun id inUse => congrArg Frame.parent (old id inUse)
    name_eq := fun id inUse => congrArg (·.info.name) (old id inUse)
    level_eq := fun id inUse => congrArg (·.info.level) (old id inUse) }

theorem continues_register (s : Store) (frame : FrameId) (name : String) (arity : Arity)
    (routine : Routine) : s.Continues (s.register frame name arity routine) := by
  have numbered : s.Keeps { s with serial := s.serial + 1 } := keeps_of_frames rfl
  exact ((numbered.writes frame).trans (writes_define _ frame name _)).continues

theorem continues_setProgram (s : Store) (frame : FrameId) (program : String) :
    s.Continues (s.setProgram frame program) := by
  have same (id : FrameId) : ((s.setProgram frame program).frame id).parent = (s.frame id).parent ∧
      ((s.setProgram frame program).frame id).info.name = (s.frame id).info.name ∧
      ((s.setProgram frame program).frame id).info.level = (s.frame id).info.level := by
    rw [Store.setProgram, frame_update]
    split <;> exact ⟨rfl, rfl, rfl⟩
  exact {
    size_le := Nat.le_of_eq (size_update s frame _).symm
    parent_eq := fun id _ => (same id).1
    name_eq := fun id _ => (same id).2.1
    level_eq := fun id _ => (same id).2.2 }

end Store

/-! ### Evaluation -/

/-- Closures capture frames that exist. -/
def Scope.frames : Scope where
  Captures n id := id < n
  Offers _ := True
  captures_mono le below := Nat.lt_of_lt_of_le below le
  captures_new n := Nat.lt_succ_self n

theorem Scope.frames_fits_iff {n : Nat} {node : Node} :
    Scope.frames.Fits n node ↔ node.CapturesBelow n := by
  constructor
  · intro h p l body mem
    exact h _ mem
  · intro h part mem
    cases part with
    | closure p l body => exact h p l body mem
    | _ => trivial

/-- The store is sound and has at least so many frames. -/
def Invariant.frames (least : Nat) : Invariant where
  toScope := .frames
  Good s := s.Sound ∧ least ≤ s.frames.size
  find good found := Scope.frames_fits_iff.mpr (good.1.captures.find found)
  define frame name _ good fits := by
    refine ⟨good.1.define frame name (Scope.frames_fits_iff.mp fits), ?_⟩
    rw [Store.size_define]
    exact good.2
  push name good inUse := by
    refine ⟨good.1.push name inUse, Nat.le_trans good.2 ?_⟩
    exact (Store.continues_push _ _ name).size_le
  number good := ⟨good.1.number _, good.2⟩

end Sexpr
