/-
What is bound stays within the vocabulary.

`Store.All P` says that every binding of every frame has the property `P`. Given a
vocabulary, `Contract.bindings` asks that every binding is a value, and gives in return
that every binding is one at the end, and that the result of a run and the payload of a
signal are values. The checks of the limits never stand in its way.
-/

import Sexpr.Proofs.Run.Contract

namespace Sexpr

namespace Store

/-- A number that is not in use stands for an empty root. -/
theorem frame_of_size_le {s : Store} {id : FrameId} (h : s.frames.size ≤ id) :
    s.frame id = rootFrame := by
  simp [frame, Array.getD_eq_getD_getElem?, Array.getElem?_eq_none h]

/-- A change of one frame, if the frame is in use. -/
theorem frame_update (s : Store) (id other : FrameId) (f : Frame → Frame) :
    (s.update id f).frame other =
      if other = id ∧ id < s.frames.size then f (s.frame other) else s.frame other := by
  by_cases own : other = id
  · subst own
    by_cases inUse : other < s.frames.size
    · rw [if_pos ⟨rfl, inUse⟩, frame_update_self f inUse]
    · have unused := Nat.le_of_not_lt inUse
      rw [if_neg fun h => inUse h.2, frame_of_size_le unused,
        frame_of_size_le (by rwa [size_update])]
  · rw [if_neg fun h => own h.1, frame_update_of_ne f own]

/-- A new frame leaves the others as they are. -/
theorem frame_push (s : Store) (parent id : FrameId) (name : String) :
    (s.push parent name).2.frame id =
      if id = s.frames.size then
        { info := ⟨name, (s.frame parent).info.program, (s.frame parent).info.level + 1⟩
          parent := some parent }
      else s.frame id := by
  by_cases new : id = s.frames.size
  · subst new
    rw [if_pos rfl]
    exact frame_push_self s parent name
  · rw [if_neg new]
    by_cases old : id < s.frames.size
    · exact frame_push_of_lt name old
    · have unused : s.frames.size ≤ id := Nat.le_of_not_lt old
      have beyond : (s.push parent name).2.frames.size ≤ id := by
        rw [push, Array.size_push]
        exact Nat.lt_of_le_of_ne unused (Ne.symm new)
      rw [frame_of_size_le unused, frame_of_size_le beyond]

/-- Every binding of every frame has the property. -/
def All (P : Node → Prop) (s : Store) : Prop :=
  ∀ id, ∀ entry ∈ (s.frame id).bindings, P entry.2

variable {P : Node → Prop} {s : Store}

theorem all_empty (serial : Nat) : (empty serial).All P := by
  intro id entry mem
  have none : ((empty serial).frame id).bindings = [] := by
    cases id <;> rfl
  rw [none] at mem
  cases mem

theorem All.define (h : s.All P) (frame : FrameId) (name : String) {v : Node} (hv : P v) :
    (s.define frame name v).All P := by
  intro id entry mem
  by_cases own : id = frame ∧ frame < s.frames.size
  · obtain ⟨rfl, inUse⟩ := own
    rw [Store.define, frame_update_self _ inUse] at mem
    rcases Table.mem_put mem with rfl | mem
    · exact hv
    · exact h id entry mem
  · have same : (s.define frame name v).frame id = s.frame id := by
      by_cases other : id = frame
      · have unused : s.frames.size ≤ id := Nat.le_of_not_lt fun inUse => own ⟨other, other ▸ inUse⟩
        rw [frame_of_size_le unused, frame_of_size_le (by rwa [size_define])]
      · exact frame_update_of_ne _ other
    rw [same] at mem
    exact h id entry mem

theorem All.push (h : s.All P) (parent : FrameId) (name : String) :
    (s.push parent name).2.All P := by
  intro id entry mem
  by_cases old : id < s.frames.size
  · rw [frame_push_of_lt name old] at mem
    exact h id entry mem
  · have empty : ((s.push parent name).2.frame id).bindings = [] := by
      rcases Nat.eq_or_lt_of_not_lt old with rfl | beyond
      · exact congrArg Frame.bindings (frame_push_self s parent name)
      · have unused : (s.push parent name).2.frames.size ≤ id := by
          simpa [Store.push] using Nat.succ_le_of_lt beyond
        rw [frame_of_size_le unused, rootFrame]
    rw [empty] at mem
    cases mem

theorem All.find (h : s.All P) {frame : FrameId} {name : String} {v : Node}
    (found : s.find? frame name = some v) : P v := by
  induction frame using Nat.strongRecOn with
  | _ frame ih =>
    rw [find?_eq] at found
    rcases Option.or_eq_some_iff.mp found with own | ⟨_, above⟩
    · exact h frame _ (Table.mem_of_lookup own)
    · obtain ⟨parent, isParent, found⟩ := Option.bind_eq_some_iff.mp above
      exact ih parent (lt_of_parent? isParent) found

theorem All.number (h : s.All P) (serial : Nat) : Store.All P { s with serial := serial } := h

/-- What holds of an empty store and is kept by installing callables holds of the store
that a program starts with. -/
theorem global_induction {motive : Store → Prop} {serial : Nat} (base : motive (empty serial))
    (install : ∀ s builtin, motive s → motive (s.install builtin)) : motive (global serial) := by
  have installAll (builtins : List Builtin) {s : Store} (h : motive s) :
      motive (builtins.foldl Store.install s) := by
    induction builtins generalizing s with
    | nil => exact h
    | cons builtin builtins ih => exact ih (install s builtin h)
  exact installAll catalog base

/-- What holds of all callables that are computed holds of all that a program starts with. -/
theorem all_global_computed (forms : ∀ f, P (.form .computed f))
    (primitives : ∀ v, P (.primitive .computed v)) (serial : Nat) : (global serial).All P := by
  refine global_induction (motive := All P) (all_empty serial) fun s builtin h => ?_
  cases builtin with
  | form f => exact h.define root f.name (forms f)
  | operation op => exact (h.number _).define root op.name (primitives _)

/-- What holds of all builtin callables holds of all that a program starts with. -/
theorem all_global (forms : ∀ p f, P (.form p f)) (primitives : ∀ p v, P (.primitive p v))
    (serial : Nat) : (global serial).All P :=
  all_global_computed (forms _) (primitives _) serial

end Store

theorem Signal.payload_through (s : Signal) (p : Place) : (s.through p).payload = s.payload := by
  simp only [payload, control_through, origin_through]

/-- How a run stops with all bindings within the vocabulary: by a signal with a value for
its payload, or otherwise as far as that is tolerated. -/
def Vocabulary.Settled (v : Vocabulary) (tolerates : Stop → Prop) (stop : Stop) (w : World) :
    Prop :=
  w.store.All v.Value ∧
    match stop with
    | .raised s => v.Value s.payload
    | other => tolerates other

/-- Every binding is a value. -/
def Contract.bindings (v : Vocabulary) (tolerates : Stop → Prop) : Contract where
  toVocabulary := v
  Good := fun w => w.store.All v.Value
  Ends := v.Settled tolerates
  find := fun good found => good.find found
  define := fun frame name _ good isValue => good.define frame name isValue
  push := fun parent name good => good.push parent name
  number := fun good => good.number _
  write := fun _ good => good
  fault := fun _ good _ => ⟨good, v.hereditary.atom _ _⟩
  leave := fun good _ isValue => ⟨good, isValue⟩
  through := fun {w s} p h => ⟨h.1, by
    show v.Value (s.through p).payload
    rw [Signal.payload_through]
    exact h.2⟩
  caught := fun h _ => h

namespace Contract

variable {α : Type} {v : Vocabulary} {tolerates : Stop → Prop} {Q : α → Prop}

/-- The faults of the limits are faults like any other. -/
theorem bindings_fail (fault : Fault) (p : Place) :
    (bindings v tolerates).Keeps Q (Run.fail fault p) :=
  fun _ good => ⟨good, v.hereditary.atom _ _⟩

theorem bindings_tick (limits : Limits) (p : Place) :
    (bindings v tolerates).Keeps (fun _ => True) (Run.tick limits p) := by
  intro w good
  cases given : limits.budget with
  | none =>
    rw [Run.tick_of_none given]
    exact ⟨good, trivial⟩
  | some budget =>
    rw [Run.tick_of_some given]
    by_cases beyond : budget < w.steps + 1
    · rw [if_pos beyond]
      exact ⟨good, v.hereditary.atom _ _⟩
    · rw [if_neg beyond]
      exact ⟨good, trivial⟩

/-- What a run that keeps the bindings within the vocabulary ends with. -/
theorem bindings_outcome {x : Run α} (h : (bindings v tolerates).Keeps Q x) {w : World}
    (bound : w.store.All v.Value) :
    (x.final w).store.All v.Value ∧ (∀ a w', x w = .ok a w' → Q a) ∧
      ∀ s w', x w = .error (.raised s) w' → v.Value s.payload := by
  have ends := h w bound
  unfold Run.final
  cases ended : x w with
  | ok a w' =>
    rw [ended] at ends
    refine ⟨ends.1, ?_, fun s w'' other => (nomatch other)⟩
    rintro a w' ⟨⟩
    exact ends.2
  | error stop w' =>
    rw [ended] at ends
    refine ⟨ends.1, fun a w'' other => (nomatch other), ?_⟩
    rintro s w' ⟨⟩
    exact ends.2

theorem bindings_outOfFuel (tolerant : tolerates .outOfFuel) :
    (bindings v tolerates).Keeps Q (throw .outOfFuel : Run α) :=
  fun _ good => ⟨good, tolerant⟩

end Contract

/-! ### Whoever may run out of fuel -/

namespace Call

variable {c : Call} {v : Vocabulary} {tolerates : Stop → Prop}

theorem unwrap_keeps_bindings (tolerant : tolerates .outOfFuel)
    (h : (Contract.bindings v tolerates).Serves c.eval (c.depth + 1)) (fuel : Nat) {node : Node}
    (isValue : v.Value node) :
    (Contract.bindings v tolerates).Keeps v.Value (c.unwrap fuel node) := by
  induction fuel generalizing node with
  | zero => exact Contract.bindings_outOfFuel tolerant
  | succ fuel ih =>
    cases node with
    | quoted p inner =>
      apply (run_keeps h (v.value_quoted_iff.mp isValue)).bind
      intro next isValue
      split
      · exact .pure isValue
      · exact ih isValue
    | _ => exact .pure isValue

theorem iterate_keeps_bindings (tolerant : tolerates .outOfFuel)
    (h : (Contract.bindings v tolerates).Serves c.eval (c.depth + 1)) {body : List Node}
    (code : ∀ n ∈ body, v.Code n) (fuel : Nat) :
    (Contract.bindings v tolerates).Keeps v.Value (c.iterate body fuel) := by
  induction fuel with
  | zero => exact Contract.bindings_outOfFuel tolerant
  | succ fuel ih =>
    apply (Contract.bindings_tick c.limits c.place).bindAny
    intro _
    apply (Contract.Keeps.catching Signal.fault?_of_isBreak (runAll_keeps h code)).bind
    intro left isValue
    cases left with
    | inl payload => exact .pure isValue
    | inr _ => exact ih

end Call

namespace Interpreter

variable {i : Interpreter} {v : Vocabulary} {tolerates : Stop → Prop}

/-- One step keeps the bindings within the vocabulary, if evaluating one level further
down does, in case the depth allows it. -/
theorem step_keeps_bindings (hosts : ∀ host ∈ i.hosts, (Contract.bindings v tolerates).Admits host)
    {fuel depth : Nat} {e : Evaluator}
    (h : depth < i.limits.depth → (Contract.bindings v tolerates).Serves e (depth + 1))
    (repeats : depth < i.limits.depth →
      i.RepeatsKeep (Contract.bindings v tolerates) fuel e depth) :
    (Contract.bindings v tolerates).Serves (i.step fuel e) depth := by
  intro node frame code
  rw [step_eq]
  split
  · exact Contract.bindings_fail _ _
  · rename_i allowed
    have room : depth < i.limits.depth := Nat.lt_of_not_le allowed
    apply (Contract.bindings_tick i.limits node.place).bindAny
    intro _
    exact visit_keeps hosts (h room) (repeats room) frame code

/-- Evaluation keeps the bindings within the vocabulary, whatever its fuel. -/
theorem evalAt_serves_bindings (tolerant : tolerates .outOfFuel)
    (hosts : ∀ host ∈ i.hosts, (Contract.bindings v tolerates).Admits host) (fuel depth : Nat) :
    (Contract.bindings v tolerates).Serves (i.evalAt fuel) depth := by
  induction fuel generalizing depth with
  | zero => exact fun _ _ => Contract.bindings_outOfFuel tolerant
  | succ fuel ih =>
    apply step_keeps_bindings hosts
    · exact fun _ => ih (depth + 1)
    · intro _
      constructor
      · intro _ place frame body code
        exact Call.iterate_keeps_bindings tolerant (ih (depth + 1)) code fuel
      · intro _ place frame node isValue
        exact Call.unwrap_keeps_bindings tolerant (ih (depth + 1)) fuel isValue

end Interpreter

/-- What the function answers has the property, if its arguments have it. -/
def Host.Preserves (P : Node → Prop) (host : Host) : Prop :=
  ∀ args, (∀ a ∈ args, P a) → ∀ v, host args = .value v → P v

theorem Host.Preserves.admits {v : Vocabulary} {tolerates : Stop → Prop} {host : Host}
    (h : host.Preserves v.Value) (exits : ∀ args status, host args = .exit status →
      tolerates (.exited status)) : (Contract.bindings v tolerates).Admits host := by
  intro args values
  cases replied : host args with
  | value node => exact h args values node replied
  | fault fault => exact fun p w good => ⟨good, v.hereditary.atom _ _⟩
  | exit status => exact fun w good => ⟨good, exits args status replied⟩

end Sexpr
