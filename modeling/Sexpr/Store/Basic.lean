/-
The store: frames of bindings.

Frames are numbered as they are made and never go away. A frame binds names and
continues in its parent, which is older and so has a smaller number. Only the
frame itself is changed by a binding. `Store.lookup` finds the nearest binding of
a name, `Store.visible` lists all of them in order.
-/

import Sexpr.Catalog
import Sexpr.Fault
import Sexpr.Node.Basic
import Sexpr.Table

namespace Sexpr

/-- What a frame is called, whose program it belongs to, and how many frames are
above it. -/
structure FrameInfo where
  name : String
  program : String
  level : Nat
deriving Repr, DecidableEq

/-- Bindings of names. -/
abbrev Bindings := Table Node

structure Frame where
  info : FrameInfo
  parent : Option FrameId
  bindings : Bindings := []

/-- A frame as inspection output shows it. -/
def Frame.inspect (f : Frame) : String :=
  s!"Environment \x7b name: {Text.inspect f.info.name}, level: {f.info.level}, "
    ++ s!"bindings: {f.bindings.length} \x7d"

structure Store where
  frames : Array Frame
  /-- The next serial number of a closure or primitive. -/
  serial : Nat

namespace Store

/-- The frame that no other frame is above. -/
def rootFrame : Frame where
  info := ⟨"global", "<none>", 0⟩
  parent := none

/-- The number of the root frame. -/
def root : FrameId := 0

/-- A store with an empty root frame. Callables that it makes are numbered from
`serial` on. -/
def empty (serial : Nat) : Store where
  frames := #[rootFrame]
  serial := serial

/-- A frame by number; a number that is not in use stands for an empty root. -/
def frame (s : Store) (id : FrameId) : Frame :=
  s.frames.getD id rootFrame

/-- Changes one frame. -/
def update (s : Store) (id : FrameId) (f : Frame → Frame) : Store :=
  { s with frames := s.frames.modify id f }

@[simp] theorem size_update (s : Store) (id : FrameId) (f : Frame → Frame) :
    (s.update id f).frames.size = s.frames.size := by
  simp [update]

theorem frame_update_self {s : Store} {id : FrameId} (f : Frame → Frame)
    (h : id < s.frames.size) : (s.update id f).frame id = f (s.frame id) := by
  simp [update, frame, h, Array.getElem_modify]

/-- A change stays within its frame. -/
theorem frame_update_of_ne {s : Store} {id other : FrameId} (f : Frame → Frame)
    (h : other ≠ id) : (s.update id f).frame other = s.frame other := by
  simp [update, frame, Array.getD_eq_getD_getElem?, Array.getElem?_modify, Ne.symm h]

/-- Binds a name in a frame. -/
def define (s : Store) (id : FrameId) (name : String) (node : Node) : Store :=
  s.update id fun f => { f with bindings := f.bindings.put name node }

/-- Labels a frame, and those made from it later, with a program. -/
def setProgram (s : Store) (id : FrameId) (program : String) : Store :=
  s.update id fun f => { f with info := { f.info with program := program } }

/-- Makes a frame below another; gives its number. -/
def push (s : Store) (parent : FrameId) (name : String) : FrameId × Store :=
  let info := (s.frame parent).info
  let child : Frame :=
    { info := { info with name := name, level := info.level + 1 }, parent := some parent }
  (s.frames.size, { s with frames := s.frames.push child })

/-- A new frame leaves the others as they are. -/
theorem frame_push_of_lt {s : Store} {parent id : FrameId} (name : String)
    (h : id < s.frames.size) : (s.push parent name).2.frame id = s.frame id := by
  simp [push, frame, Array.getD_eq_getD_getElem?, Array.getElem?_push, Nat.ne_of_lt h]

/-- A new frame binds nothing and continues in its parent. -/
theorem frame_push_self (s : Store) (parent : FrameId) (name : String) :
    (s.push parent name).2.frame (s.push parent name).1 =
      { info := ⟨name, (s.frame parent).info.program, (s.frame parent).info.level + 1⟩
        parent := some parent } := by
  simp [push, frame, Array.getD_eq_getD_getElem?]

/-- The name of a frame that is made without one. -/
def childName (s : Store) (parent : FrameId) : String :=
  (s.frame parent).info.name ++ "-child"

/-- The parent of a frame, if it is older, as parents are. -/
def parent? (s : Store) (id : FrameId) : Option FrameId :=
  (s.frame id).parent.filter (· < id)

theorem lt_of_parent? {s : Store} {id parent : FrameId} (h : s.parent? id = some parent) :
    parent < id := by
  simp only [parent?, Option.filter_eq_some_iff, decide_eq_true_eq] at h
  exact h.2

/-- The bindings of a frame and of the frames above it, the nearest first. -/
def chain (s : Store) (id : FrameId) : List Bindings :=
  match h : s.parent? id with
  | some parent =>
    have := lt_of_parent? h
    (s.frame id).bindings :: s.chain parent
  | none => [(s.frame id).bindings]
termination_by id

/-- A frame's own bindings come first, then those seen from its parent. -/
theorem chain_eq (s : Store) (id : FrameId) :
    s.chain id = (s.frame id).bindings :: (s.parent? id).elim [] s.chain := by
  rw [chain]
  split <;> rename_i h <;> simp [h]

/-- The nearest binding of a name. -/
def find? (s : Store) (id : FrameId) (name : String) : Option Node :=
  (s.chain id).findSome? (·.lookup name)

/-- A frame's own binding hides those of the frames above. -/
theorem find?_eq (s : Store) (id : FrameId) (name : String) :
    s.find? id name = ((s.frame id).bindings.lookup name).or
      ((s.parent? id).bind fun parent => s.find? parent name) := by
  unfold find?
  rw [chain_eq]
  cases s.parent? id <;> cases h : (s.frame id).bindings.lookup name <;> simp [h]

def lookup (s : Store) (id : FrameId) (name : String) : Except Fault Node :=
  match s.find? id name with
  | some node => .ok node
  | none => .error (.unbound name)

def contains (s : Store) (id : FrameId) (name : String) : Bool :=
  (s.find? id name).isSome

theorem contains_iff {s : Store} {id : FrameId} {name : String} :
    s.contains id name = true ↔ ∃ node, s.lookup id name = .ok node := by
  unfold contains lookup
  cases s.find? id name <;> simp

/-- All bindings that can be seen from a frame, ordered by name. -/
def visible (s : Store) (id : FrameId) : Bindings :=
  let merged : Bindings := (s.chain id).foldr (fun own inherited => inherited.merge own) []
  merged.mergeSort fun a b => a.1 ≤ b.1

/-- Binds a new primitive in a frame. -/
def register (s : Store) (id : FrameId) (name : String) (arity : Arity) (routine : Routine) :
    Store :=
  let node : Node := .primitive .computed ⟨s.serial, name, arity, routine⟩
  { s with serial := s.serial + 1 }.define id name node

/-- Binds a callable of the catalog in the root frame. -/
def install (s : Store) : Builtin → Store
  | .form f => s.define root f.name (.form .computed f)
  | .operation op => s.register root op.name op.arity (.operation op)

/-- A store whose root frame binds the whole catalog. -/
def global (serial : Nat) : Store :=
  catalog.foldl install (empty serial)

end Store

end Sexpr
