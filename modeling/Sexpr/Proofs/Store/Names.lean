/-
What names stand for.

A binding is found under its name in the frame that it was made in, and the other names stand
for what they stood for, wherever they are looked up. From the frame of a call its parameters
are found, and beyond them what is found from the frame of the closure (`Store.find?_enter`).
The store that programs start with binds the names of the catalog and no others
(`Store.sees_global`, `Store.find?_global_of_notMem`).
-/

import Sexpr.Proofs.Run.Bindings
import Sexpr.Proofs.Run.Parameters

namespace Sexpr

namespace Store

variable {s t : Store} {id frame : FrameId} {name key : String} {node : Node}

/-- What is found from a frame depends on the frame and on older ones only. -/
theorem find?_congr (same : ∀ other ≤ frame, s.frame other = t.frame other) (name : String) :
    s.find? frame name = t.find? frame name := by
  induction frame using Nat.strongRecOn with
  | ind frame ih =>
    have own := same frame (Nat.le_refl frame)
    rw [find?_eq, find?_eq, parent?, parent?, own]
    cases isParent : (t.frame frame).parent.filter (· < frame) with
    | none => rfl
    | some parent =>
      have older : parent < frame := lt_of_parent? isParent
      have above := ih parent older fun other le =>
        same other (Nat.le_trans le (Nat.le_of_lt older))
      rw [Option.bind_some, Option.bind_some, above]

theorem find?_define_self (inUse : id < s.frames.size) (name : String) (node : Node) :
    (s.define id name node).find? id name = some node := by
  rw [find?_eq, define, frame_update_self _ inUse]
  dsimp only
  rw [Table.lookup_put_self, Option.some_or]

/-- A binding does not touch other names. -/
theorem find?_define_of_ne (other : key ≠ name) (id : FrameId) (node : Node) (frame : FrameId) :
    (s.define id name node).find? frame key = s.find? frame key := by
  induction frame using Nat.strongRecOn with
  | ind frame ih =>
    have parents : (s.define id name node).parent? frame = s.parent? frame := by
      rw [parent?, parent?, define, frame_update]
      split <;> rfl
    have own : ((s.define id name node).frame frame).bindings.lookup key =
        (s.frame frame).bindings.lookup key := by
      rw [define, frame_update]
      split
      · exact Table.lookup_put_of_ne node _ other
      · rfl
    rw [find?_eq, find?_eq, own, parents]
    cases isParent : s.parent? frame with
    | none => rfl
    | some parent => rw [Option.bind_some, Option.bind_some, ih parent (lt_of_parent? isParent)]

/-- From the root frame nothing is found but its own bindings. -/
theorem find?_root (s : Store) (name : String) :
    s.find? root name = (s.frame root).bindings.lookup name := by
  have noParent : s.parent? root = none := by
    cases isParent : s.parent? root with
    | none => rfl
    | some parent => exact absurd (lt_of_parent? isParent) (Nat.not_lt_zero parent)
  rw [find?_eq, noParent, Option.bind_none, Option.or_none]

/-- From the frame of a call its parameters are found, and beyond them what is found from the
frame of the closure. -/
theorem find?_enter {l : Lambda} {args : List Node} (distinct : l.params.Distinct)
    (fits : l.params.Fits args) (inUse : l.frame < s.frames.size) (place : Place) (name : String) :
    (s.enter l place args).2.find? s.frames.size name =
      ((l.params.bindings place args).lookup name).or (s.find? l.frame name) := by
  have frame := frame_enter (s := s) distinct fits place
  have isParent : (s.enter l place args).2.parent? s.frames.size = some l.frame := by
    rw [parent?, frame]
    simpa using inUse
  obtain ⟨_, _, old⟩ := makesFrame_enter l place args s
  rw [find?_eq, isParent, frame, Option.bind_some]
  rw [find?_congr fun other le => old other (Nat.lt_of_le_of_lt le inUse)]

end Store

/-! ### The catalog -/

/-- The node is the callable. -/
inductive Builtin.Is : Builtin → Node → Prop
  | form (p : Place) (f : Form) : Is (.form f) (.form p f)
  | operation (p : Place) (serial : Nat) (op : Operation) :
      Is (.operation op) (.primitive p ⟨serial, op.name, op.arity, .operation op⟩)

theorem Builtin.mem_catalog (b : Builtin) : b ∈ catalog := by
  cases b with
  | form f => simp [catalog, Form.mem_all]
  | operation op => simp [catalog, Operation.mem_all]

namespace Store

variable {s : Store} {frame : FrameId} {name : String}

/-- From the frame, every callable of the catalog is found under its name. -/
def Sees (s : Store) (frame : FrameId) : Prop :=
  ∀ b : Builtin, ∃ node, b.Is node ∧ s.find? frame b.name = some node

theorem Sees.form (h : s.Sees frame) (f : Form) : ∃ p, s.find? frame f.name = some (.form p f) := by
  obtain ⟨node, isForm, found⟩ := h (.form f)
  cases isForm with
  | form p => exact ⟨p, found⟩

theorem Sees.operation (h : s.Sees frame) (op : Operation) :
    ∃ p serial, s.find? frame op.name =
      some (.primitive p ⟨serial, op.name, op.arity, .operation op⟩) := by
  obtain ⟨node, isOperation, found⟩ := h (.operation op)
  cases isOperation with
  | operation p serial => exact ⟨p, serial, found⟩

/-- Names that are not in the catalog may be bound to anything. -/
theorem Sees.define (h : s.Sees frame) (id : FrameId) (ordinary : name ∉ catalog.map Builtin.name)
    (node : Node) : (s.define id name node).Sees frame := by
  intro b
  obtain ⟨callable, is, found⟩ := h b
  have other : b.name ≠ name := fun same =>
    ordinary (same ▸ List.mem_map_of_mem b.mem_catalog)
  exact ⟨callable, is, (find?_define_of_ne other id node frame).trans found⟩

/-- The catalog is seen from the frame of a call, if no parameter is called like one of its
callables. -/
theorem Sees.enter {l : Lambda} {args : List Node} (h : s.Sees l.frame)
    (distinct : l.params.Distinct) (fits : l.params.Fits args) (inUse : l.frame < s.frames.size)
    (place : Place)
    (ordinary : ∀ x ∈ l.params.names ++ l.params.rest.toList, x ∉ catalog.map Builtin.name) :
    (s.enter l place args).2.Sees s.frames.size := by
  intro b
  obtain ⟨callable, is, found⟩ := h b
  have absent : (l.params.bindings place args).lookup b.name = none := by
    rw [List.lookup_eq_none_iff]
    intro entry mem
    have isParam := List.mem_map_of_mem (f := Prod.fst) mem
    rw [Params.map_fst_bindings fits] at isParam
    rw [bne_iff_ne]
    intro same
    exact ordinary _ isParam (same ▸ List.mem_map_of_mem b.mem_catalog)
  refine ⟨callable, is, ?_⟩
  rw [find?_enter distinct fits inUse, absent, Option.none_or, found]

/-- A callable is installed under its name in the root frame. -/
theorem bindings_install (s : Store) (b : Builtin) (inUse : root < s.frames.size) :
    ∃ node, b.Is node ∧
      ((s.install b).frame root).bindings = Table.put b.name node (s.frame root).bindings ∧
      (s.install b).frames.size = s.frames.size := by
  cases b with
  | form f =>
    have own := frame_update_self (s := s)
      (fun frame => { frame with bindings := frame.bindings.put f.name (.form .computed f) }) inUse
    exact ⟨_, .form .computed f, congrArg Frame.bindings own, size_define s root _ _⟩
  | operation op =>
    let primitive : Node :=
      .primitive .computed ⟨s.serial, op.name, op.arity, .operation op⟩
    have own := frame_update_self (s := { s with serial := s.serial + 1 })
      (fun frame => { frame with bindings := frame.bindings.put op.name primitive }) inUse
    exact ⟨_, .operation .computed s.serial op, congrArg Frame.bindings own,
      size_define { s with serial := s.serial + 1 } root op.name primitive⟩

/-- Of callables with different names each is bound under its own, and other names stay as they
are. -/
theorem lookup_installed {bs : List Builtin} (distinct : (bs.map Builtin.name).Nodup)
    (inUse : root < s.frames.size) :
    (∀ b ∈ bs, ∃ node, b.Is node ∧
      ((bs.foldl install s).frame root).bindings.lookup b.name = some node) ∧
    (∀ name, name ∉ bs.map Builtin.name →
      ((bs.foldl install s).frame root).bindings.lookup name =
        (s.frame root).bindings.lookup name) := by
  induction bs generalizing s with
  | nil => exact ⟨fun b mem => (nomatch mem), fun name _ => rfl⟩
  | cons first bs ih =>
    obtain ⟨fresh, distinct⟩ := List.nodup_cons.mp distinct
    obtain ⟨node, is, bindings, size⟩ := s.bindings_install first inUse
    obtain ⟨named, unnamed⟩ := @ih (s.install first) distinct (size ▸ inUse)
    refine ⟨fun b mem => ?_, fun name absent => ?_⟩
    · rcases List.mem_cons.mp mem with rfl | mem
      · refine ⟨node, is, ?_⟩
        rw [List.foldl_cons, unnamed _ fresh, bindings, Table.lookup_put_self]
      · exact named b mem
    · obtain ⟨other, absent⟩ := List.ne_and_not_mem_of_not_mem_cons absent
      rw [List.foldl_cons, unnamed name absent, bindings, Table.lookup_put_of_ne node _ other]

theorem sees_global (serial : Nat) : (global serial).Sees root := by
  intro b
  have installed := lookup_installed nodup_catalog_names (s := empty serial) Nat.zero_lt_one
  obtain ⟨node, is, bound⟩ := installed.1 b b.mem_catalog
  exact ⟨node, is, (find?_root _ _).trans bound⟩

/-- Programs start with no names but those of the catalog. -/
theorem find?_global_of_notMem (serial : Nat) (absent : name ∉ catalog.map Builtin.name) :
    (global serial).find? root name = none := by
  have installed := lookup_installed nodup_catalog_names (s := empty serial) Nat.zero_lt_one
  exact (find?_root _ _).trans (installed.2 name absent)

theorem root_lt_size_global (serial : Nat) : root < (global serial).frames.size := by
  refine global_induction (motive := fun s => root < s.frames.size) Nat.zero_lt_one ?_
  intro s b inUse
  obtain ⟨_, _, _, size⟩ := s.bindings_install b inUse
  exact size ▸ inUse

end Store

end Sexpr
