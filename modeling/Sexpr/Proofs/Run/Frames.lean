/-
Evaluation writes only to the frame it runs in.

`Store.Writes frame s s'` says that on the way from `s` to `s'` nothing but `frame`
was written to, and that nothing was taken away from it. It is a discipline
(`Discipline.frames`): every binding that evaluation makes lands in the frame at hand,
and calls and `let` go on in a frame that they make themselves. Main statement:
`Interpreter.evalAt_writes`, for evaluation however it ends, with the consequence for
calls and `let` that no frame that was there before changes at all.
-/

import Sexpr.Proofs.Run.Discipline

namespace Sexpr

/-! ### Stores -/

/-- What writing to a frame may do: bind names, and nothing else. -/
structure Frame.Grows (f f' : Frame) : Prop where
  info_eq : f'.info = f.info
  parent_eq : f'.parent = f.parent
  bound : ∀ name, (f.bindings.lookup name).isSome = true → (f'.bindings.lookup name).isSome = true

theorem Frame.Grows.refl (f : Frame) : f.Grows f :=
  ⟨rfl, rfl, fun _ => id⟩

theorem Frame.Grows.trans {f g h : Frame} (first : f.Grows g) (second : g.Grows h) : f.Grows h where
  info_eq := second.info_eq.trans first.info_eq
  parent_eq := second.parent_eq.trans first.parent_eq
  bound := fun name isBound => second.bound name (first.bound name isBound)

theorem Frame.grows_put (f : Frame) (name : String) (node : Node) :
    f.Grows { f with bindings := f.bindings.put name node } where
  info_eq := rfl
  parent_eq := rfl
  bound := by
    intro other isBound
    by_cases same : other = name
    · rw [same, Table.lookup_put_self]
      rfl
    · rwa [Table.lookup_put_of_ne node f.bindings same]

namespace Store

/-- No frame goes away, only `frame` is written to, and it keeps what it binds. -/
structure Writes (frame : FrameId) (s s' : Store) : Prop where
  size_le : s.frames.size ≤ s'.frames.size
  others : ∀ id < s.frames.size, id ≠ frame → s'.frame id = s.frame id
  own : frame < s.frames.size → (s.frame frame).Grows (s'.frame frame)

/-- No frame goes away or is written to. -/
structure Keeps (s s' : Store) : Prop where
  size_le : s.frames.size ≤ s'.frames.size
  frame_eq : ∀ id < s.frames.size, s'.frame id = s.frame id

theorem Keeps.writes {s s' : Store} (h : s.Keeps s') (frame : FrameId) : s.Writes frame s' where
  size_le := h.size_le
  others := fun id old _ => h.frame_eq id old
  own := fun old => h.frame_eq frame old ▸ .refl _

/-- What is written to in no old frame is kept: a frame that does not exist yet may
stand for the frame that is written to. -/
theorem Writes.keeps {s s' : Store} (h : s.Writes s.frames.size s') : s.Keeps s' where
  size_le := h.size_le
  frame_eq := fun id old => h.others id old (Nat.ne_of_lt old)

theorem keeps_of_frames {s s' : Store} (h : s'.frames = s.frames) : s.Keeps s' where
  size_le := Nat.le_of_eq (congrArg Array.size h).symm
  frame_eq := fun id _ => by rw [frame, frame, h]

theorem Writes.refl (s : Store) (frame : FrameId) : s.Writes frame s :=
  (keeps_of_frames rfl).writes frame

theorem Writes.trans {frame : FrameId} {s t u : Store} (h : s.Writes frame t)
    (k : t.Writes frame u) : s.Writes frame u where
  size_le := Nat.le_trans h.size_le k.size_le
  others := fun id old other =>
    (k.others id (Nat.lt_of_lt_of_le old h.size_le) other).trans (h.others id old other)
  own := fun old => (h.own old).trans (k.own (Nat.lt_of_lt_of_le old h.size_le))

theorem writes_define (s : Store) (frame : FrameId) (name : String) (node : Node) :
    s.Writes frame (s.define frame name node) where
  size_le := Nat.le_of_eq (size_define s frame name node).symm
  others := fun id _ other => frame_update_of_ne _ other
  own := fun old => by
    rw [define, frame_update_self _ old]
    exact Frame.grows_put _ name node

/-- What is written to a new frame is written to no old one. -/
theorem MakesFrame.keeps {make : Store → FrameId × Store} (h : MakesFrame make) {s s' : Store}
    (k : (make s).2.Writes (make s).1 s') : s.Keeps s' := by
  obtain ⟨number, larger, old⟩ := h s
  refine ⟨Nat.le_trans (Nat.le_of_lt larger) k.size_le, ?_⟩
  intro id before
  rw [k.others id (Nat.lt_trans before larger) (number ▸ Nat.ne_of_lt before), old id before]

end Store

/-! ### Runs -/

namespace Run

variable {α β : Type}

/-- Wherever the run ends, it has written only to `frame`. -/
def WritesOnly (frame : FrameId) (x : Run α) : Prop :=
  ∀ w : World, w.store.Writes frame (x.final w).store

theorem Still.writesOnly {x : Run α} (h : x.Still) (frame : FrameId) : x.WritesOnly frame :=
  fun w => (Store.keeps_of_frames (h w)).writes frame

theorem final_bind (x : Run α) (f : α → Run β) (w : World) :
    (x >>= f).final w =
      match x w with
      | .ok a w' => (f a).final w'
      | .error _ w' => w' := by
  simp only [final, Bind.bind, EStateM.bind]
  cases x w <;> rfl

theorem WritesOnly.bind {frame : FrameId} {x : Run α} {f : α → Run β} (h : x.WritesOnly frame)
    (k : ∀ a, (f a).WritesOnly frame) : (x >>= f).WritesOnly frame := by
  intro w
  have first := h w
  rw [final] at first
  rw [final_bind]
  cases ended : x w with
  | ok a w' =>
    rw [ended] at first
    exact first.trans (k a w')
  | error stop w' =>
    rw [ended] at first
    exact first

theorem final_traced (p : Place) (x : Run α) (w : World) : (x.traced p).final w = x.final w := by
  simp only [final, traced]
  cases x w with
  | ok a w' => rfl
  | error stop w' => cases stop <;> rfl

theorem final_catching (caught : Signal → Bool) (x : Run α) (w : World) :
    (x.catching caught).final w = x.final w := by
  simp only [final, catching]
  cases x w with
  | ok a w' => rfl
  | error stop w' =>
    cases stop with
    | raised signal => cases h : caught signal <;> simp [h]
    | _ => rfl

theorem writesOnly_tick (limits : Limits) (p : Place) (frame : FrameId) :
    (tick limits p).WritesOnly frame := by
  refine .bind (Still.writesOnly (fun _ => rfl) frame) fun _ => ?_
  split
  · exact (still_pure ()).writesOnly frame
  · refine .bind (still_get.writesOnly frame) fun w => ?_
    split
    · exact (still_fail _ _).writesOnly frame
    · exact (still_pure _).writesOnly frame

end Run

/-- Writing only to the frame at hand is a discipline; it is about one run. -/
def Discipline.frames (limits : Limits) : Discipline limits limits where
  Holds := fun frame x _ => x.WritesOnly frame
  still := fun frame h => h.writesOnly frame
  define := fun frame name value w => Store.writes_define w.store frame name value
  tick := fun frame p => Run.writesOnly_tick limits p frame
  guard := fun depth p h => by
    split
    · exact (Run.still_fail _ p).writesOnly _
    · exact h
  bind := Run.WritesOnly.bind
  traced := fun p h w => by
    rw [Run.final_traced]
    exact h w
  catching := fun _ h w => by
    rw [Run.final_catching]
    exact h w
  scope := fun frame makes h w => (makes.keeps (h _ ⟨_, w.steps, w.output⟩)).writes frame
  outOfFuel := fun frame _ => (Run.still_throw _).writesOnly frame

namespace Interpreter

theorem relates_frames (i : Interpreter) (fuel : Nat) :
    (Discipline.frames i.limits).Relates (i.evalAt fuel) (i.evalAt fuel) :=
  evalAt_holds (.frames i.limits) (Nat.le_refl fuel)

/-- The body of a call may be taken to write to any frame. -/
theorem writesOnly_enter (i : Interpreter) (fuel : Nat) (l : Lambda) (body : Node)
    (args : List Node) (place : Place) (depth : Nat) (frame : FrameId) :
    (enter (i.evalAt fuel) l body args place depth).WritesOnly frame :=
  enter_holds (relates_frames i fuel) frame l body args place depth

/-- A `let` may be taken to write to any frame. -/
theorem writesOnly_letIn (i : Interpreter) (fuel : Nat) (own : FrameId) (depth : Nat)
    (place : Place) (operands : List Node) (frame : FrameId) :
    (i.runForm fuel own depth .letIn place operands).WritesOnly frame := by
  rcases operands with _ | ⟨bindings, _ | ⟨body, _ | ⟨next, more⟩⟩⟩
  · exact (Run.still_fail _ _).writesOnly frame
  · cases bindings <;> exact (Run.still_fail _ _).writesOnly frame
  · cases bindings with
    | vector p pairs =>
      exact @Call.letIn_holds ⟨place, own, depth, i.limits, fuel, i.evalAt fuel⟩ i.limits
        (.frames i.limits) _ fuel (relates_frames i fuel) frame pairs body
    | _ => exact (Run.still_fail _ _).writesOnly frame
  · cases bindings <;> exact (Run.still_fail _ _).writesOnly frame

/-- Evaluation, however it ends, writes only to the frame it runs in, and there it
only binds names. The body of a call and a `let` change no frame that was there
before. -/
theorem evalAt_writes (i : Interpreter) (fuel : Nat) (frame : FrameId) (depth : Nat) (w : World) :
    (∀ node, w.store.Writes frame ((i.evalAt fuel node frame depth).final w).store) ∧
    (∀ l body args place,
      w.store.Keeps ((enter (i.evalAt fuel) l body args place depth).final w).store) ∧
    (∀ place operands,
      w.store.Keeps ((i.runForm fuel frame depth .letIn place operands).final w).store) := by
  refine ⟨fun node => i.relates_frames fuel node frame depth w, ?_, ?_⟩
  · intro l body args place
    exact (i.writesOnly_enter fuel l body args place depth _ w).keeps
  · intro place operands
    exact (i.writesOnly_letIn fuel frame depth place operands _ w).keeps

end Interpreter

end Sexpr
