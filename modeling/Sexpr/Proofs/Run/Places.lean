/-
Places never influence evaluation.

Erasing a world takes the places out of all its bindings and keeps of the description of
each frame what it is told to keep; erasing an outcome also forgets where a signal was
raised and what it passed through. Worlds are equal once erased exactly when they are alike
in the likeness for which all places are the same (`Likeness.erasing_worlds_iff`). Since
evaluation respects every likeness, what is equal without places is evaluated to what is
equal without places. Main statement: `Interpreter.evalAt_unplaced`.
-/

import Sexpr.Proofs.Run.Likeness

namespace Sexpr

/-! ### Erasure -/

/-- The bindings without the places of their nodes. -/
def Bindings.unplaced (bindings : Bindings) : Bindings :=
  bindings.map fun (name, node) => (name, node.unplaced)

/-- The frame without places; `keep` says what is left of its description. -/
def Frame.erased (keep : FrameInfo → FrameInfo) (f : Frame) : Frame where
  info := keep f.info
  parent := f.parent
  bindings := Bindings.unplaced f.bindings

def Store.erased (keep : FrameInfo → FrameInfo) (s : Store) : Store :=
  { s with frames := s.frames.map (·.erased keep) }

theorem Store.erased_frame (keep : FrameInfo → FrameInfo) (s : Store) (id : FrameId) :
    (s.frame id).erased keep =
      (s.frames.map (·.erased keep)).getD id (Store.rootFrame.erased keep) := by
  simp only [Store.frame, Array.getD_eq_getD_getElem?, Array.getElem?_map]
  cases s.frames[id]? <;> rfl

def World.erased (keep : FrameInfo → FrameInfo) (w : World) : World :=
  { w with store := w.store.erased keep }

/-- The world without places. -/
abbrev World.unplaced : World → World :=
  World.erased id

def Control.unplaced : Control → Control
  | .leaveLoop payload => .leaveLoop (payload.map Node.unplaced)
  | .leaveCall payload => .leaveCall payload.unplaced
  | .fail fault => .fail fault

/-- The stop without places: of a signal, only what it does. -/
def Stop.unplaced : Stop → Stop
  | .raised signal => .raised ⟨signal.control.unplaced, .computed, []⟩
  | .exited status => .exited status
  | .outOfFuel => .outOfFuel

/-- How a run ended and in which world, without places. -/
def Run.erased (keep : FrameInfo → FrameInfo) :
    EStateM.Result Stop World Node → EStateM.Result Stop World Node
  | .ok node w => .ok node.unplaced (w.erased keep)
  | .error stop w => .error stop.unplaced (w.erased keep)

abbrev Run.unplaced : EStateM.Result Stop World Node → EStateM.Result Stop World Node :=
  Run.erased id

def Reply.unplaced : Reply → Reply
  | .value node => .value node.unplaced
  | other => other

/-- The function of the embedding program answers arguments that are equal without places
with what is equal without places. -/
def Host.IgnoresPlaces (host : Host) : Prop :=
  ∀ ns ms, Node.unplacedAll ns = Node.unplacedAll ms → (host ns).unplaced = (host ms).unplaced

/-! ### Erasure as a likeness -/

/-- What is left of the description of a frame decides what is left of its child's. -/
def FrameInfo.Inherited (keep : FrameInfo → FrameInfo) : Prop :=
  ∀ (a b : FrameInfo) (name : String), keep a = keep b →
    keep ⟨name, a.program, a.level + 1⟩ = keep ⟨name, b.program, b.level + 1⟩

theorem FrameInfo.inherited_id : Inherited id := by
  rintro a _ name rfl
  rfl

namespace Likeness

variable {keep : FrameInfo → FrameInfo} (inherited : FrameInfo.Inherited keep)

/-- Any place may stand for any other, and descriptions that are equal once erased. -/
def erasing (inherited : FrameInfo.Inherited keep) : Likeness where
  place _ _ := True
  info a b := keep a = keep b
  computed := trivial
  root := rfl
  child name same := inherited _ _ name same

theorem erasing_nodes_iff {n m : Node} :
    (erasing inherited).Nodes n m ↔ n.unplaced = m.unplaced :=
  Node.alike_iff_unplaced fun _ _ => trivial

theorem erasing_bindings_iff {a b : Bindings} :
    Table.Alike (erasing inherited).place a b ↔ Bindings.unplaced a = Bindings.unplaced b := by
  rw [Bindings.unplaced, Bindings.unplaced, ← List.forall₂_eq_eq_eq, List.forall₂_map_left_iff,
    List.forall₂_map_right_iff]
  simp only [Prod.mk.injEq, ← erasing_nodes_iff inherited]
  rfl

theorem erasing_frames_iff {f g : Frame} :
    (erasing inherited).Frames f g ↔ f.erased keep = g.erased keep := by
  rw [Frame.erased, Frame.erased, Frame.mk.injEq, ← erasing_bindings_iff inherited]
  constructor
  · intro h
    exact ⟨h.info, h.parent, h.bindings⟩
  · rintro ⟨info, parent, bindings⟩
    exact ⟨info, parent, bindings⟩

theorem erasing_stores_iff {s t : Store} :
    (erasing inherited).Stores s t ↔ s.erased keep = t.erased keep := by
  rw [Store.erased, Store.erased, Store.mk.injEq]
  constructor
  · intro h
    refine ⟨Array.ext (by simpa using h.size) fun id inUse inUse' => ?_, h.serial⟩
    rw [Array.size_map] at inUse inUse'
    have same := (erasing_frames_iff inherited).mp (h.frame id)
    simpa [Store.frame, Array.getD, inUse, inUse'] using same
  · rintro ⟨frames, serial⟩
    refine ⟨by simpa using congrArg Array.size frames, serial, fun id => ?_⟩
    rw [erasing_frames_iff, Store.erased_frame, Store.erased_frame, frames]

/-- Worlds are alike exactly when they are equal once erased. -/
theorem erasing_worlds_iff {w v : World} :
    (erasing inherited).Worlds w v ↔ w.erased keep = v.erased keep := by
  rw [World.erased, World.erased, World.mk.injEq, ← erasing_stores_iff inherited]
  constructor
  · intro h
    exact ⟨h.store, h.steps, h.output⟩
  · rintro ⟨store, steps, output⟩
    exact ⟨store, steps, output⟩

theorem Controls.unplaced_eq {L : Likeness} {a b : Control} (h : L.Controls a b) :
    a.unplaced = b.unplaced := by
  cases h with
  | leaveLoop payload =>
    cases payload with
    | none => rfl
    | some alike => simp only [Control.unplaced, Option.map_some, alike.unplaced_eq]
  | leaveCall alike => simp only [Control.unplaced, alike.unplaced_eq]
  | fail fault => rfl

theorem Stops.unplaced_eq {L : Likeness} {s t : Stop} (h : L.Stops s t) :
    s.unplaced = t.unplaced := by
  cases h with
  | raised signals => simp only [Stop.unplaced, signals.control.unplaced_eq]
  | exited status => rfl
  | outOfFuel => rfl

/-- Runs that end alike end equally once erased. -/
theorem erasing_ends {r r' : EStateM.Result Stop World Node}
    (h : (erasing inherited).Ends (erasing inherited).Nodes r r') :
    Run.erased keep r = Run.erased keep r' := by
  cases h with
  | ok nodes worlds =>
    simp only [Run.erased, (erasing_nodes_iff inherited).mp nodes,
      (erasing_worlds_iff inherited).mp worlds]
  | error stops worlds =>
    simp only [Run.erased, stops.unplaced_eq, (erasing_worlds_iff inherited).mp worlds]

theorem erasing_respectedBy {host : Host} (h : host.IgnoresPlaces) :
    (erasing inherited).RespectedBy host := by
  intro ns ms alike
  have same := h ns ms (Node.unplacedAll_eq_of_alike alike)
  generalize host ns = a at *
  generalize host ms = b at *
  cases a <;> cases b <;> simp only [Reply.unplaced, reduceCtorEq] at same
  case value.value =>
    exact .value ((erasing_nodes_iff inherited).mpr (Reply.value.inj same))
  case fault.fault => cases same; exact .fault _
  case exit.exit => cases same; exact .exit _

end Likeness

/-! ### Evaluation -/

/-- The run that evaluates what is equal without places ends, if it ends, equally. -/
theorem Run.ends_eq_of_erased {keep : FrameInfo → FrameInfo} {x y : Run Node} {w v : World}
    (h : Run.erased keep (x w) = Run.erased keep (y v)) : x.ends w = y.ends v := by
  unfold Run.ends
  generalize x w = r at *
  generalize y v = r' at *
  rcases r with ⟨_, _⟩ | ⟨_ | _ | _, _⟩ <;> rcases r' with ⟨_, _⟩ | ⟨_ | _ | _, _⟩ <;>
    simp [Run.erased, Stop.unplaced] at h ⊢

/-- The run that evaluates what is equal without places raises the same faults. -/
theorem Run.raises_eq_of_erased {keep : FrameInfo → FrameInfo} {x y : Run Node} {w v : World}
    (h : Run.erased keep (x w) = Run.erased keep (y v)) (fault : Fault) :
    x.raises fault w = y.raises fault v := by
  have isFault (stop : Stop) : stop.unplaced.isFault fault = stop.isFault fault := by
    rcases stop with ⟨⟨control, origin, trace⟩⟩ | _ | _
    · cases control <;> rfl
    · rfl
    · rfl
  unfold Run.raises
  generalize x w = r at *
  generalize y v = r' at *
  rcases r with ⟨_, _⟩ | ⟨stop, _⟩ <;> rcases r' with ⟨_, _⟩ | ⟨stop', _⟩ <;>
    simp only [erased, reduceCtorEq, EStateM.Result.error.injEq] at h
  · rfl
  · dsimp only
    rw [← isFault stop, ← isFault stop', h.1]

/-- The run that evaluates what is equal without places gives an equal value. -/
theorem Run.ok_of_erased {keep : FrameInfo → FrameInfo} {r : EStateM.Result Stop World Node}
    {value : Node} {u : World} (h : Run.erased keep r = Run.erased keep (.ok value u)) :
    ∃ value' u', r = .ok value' u' ∧ value'.unplaced = value.unplaced ∧
      u'.erased keep = u.erased keep := by
  cases r with
  | ok value' u' =>
    obtain ⟨values, worlds⟩ := EStateM.Result.ok.inj h
    exact ⟨value', u', rfl, values, worlds⟩
  | error stop u' => cases h

namespace Interpreter

/-- The evaluation of the node ends so, with some fuel. -/
def EndsIn (i : Interpreter) (node : Node) (frame : FrameId) (depth : Nat) (w : World)
    (r : EStateM.Result Stop World Node) : Prop :=
  ∃ fuel, (i.evalAt fuel node frame depth).ends w = true ∧ i.evalAt fuel node frame depth w = r

/-- No fuel is enough to evaluate the node. -/
def Diverges (i : Interpreter) (node : Node) (frame : FrameId) (depth : Nat) (w : World) : Prop :=
  ∀ fuel, (i.evalAt fuel node frame depth).ends w = false

/-- With every fuel, nodes that are equal without places end equally, once erased, in worlds
that are equal once erased. -/
theorem erased_evalAt {keep : FrameInfo → FrameInfo} (inherited : FrameInfo.Inherited keep)
    {i : Interpreter} (hosts : ∀ host ∈ i.hosts, Host.IgnoresPlaces host) {n m : Node}
    {w v : World} (nodes : n.unplaced = m.unplaced) (worlds : w.erased keep = v.erased keep)
    (frame : FrameId) (depth fuel : Nat) :
    Run.erased keep (i.evalAt fuel n frame depth w) =
      Run.erased keep (i.evalAt fuel m frame depth v) := by
  refine Likeness.erasing_ends inherited ?_
  have respects : (Likeness.erasing inherited).Respected (i.evalAt fuel) :=
    evalAt_respects (fun host mem => Likeness.erasing_respectedBy inherited (hosts host mem)) fuel
  exact respects frame depth ((Likeness.erasing_nodes_iff inherited).mpr nodes) w v
    ((Likeness.erasing_worlds_iff inherited).mpr worlds)

/-- Nodes that are equal without places, evaluated in worlds that are equal without places,
in the same frame and at the same depth, have outcomes that are equal without places: with
every fuel, and so either both diverge, or both end, with values, stops and worlds that
differ in nothing but places. -/
theorem evalAt_unplaced (i : Interpreter) (hosts : ∀ host ∈ i.hosts, Host.IgnoresPlaces host)
    (n m : Node) (frame : FrameId) (depth : Nat) (w v : World) (nodes : n.unplaced = m.unplaced)
    (worlds : w.unplaced = v.unplaced) :
    (∀ fuel, Run.unplaced (i.evalAt fuel n frame depth w)
      = Run.unplaced (i.evalAt fuel m frame depth v)) ∧
    (i.Diverges n frame depth w ∧ i.Diverges m frame depth v ∨
      ∃ r r', i.EndsIn n frame depth w r ∧ i.EndsIn m frame depth v r' ∧
        Run.unplaced r = Run.unplaced r') := by
  have same := erased_evalAt FrameInfo.inherited_id hosts nodes worlds frame depth
  refine ⟨same, ?_⟩
  by_cases ends : ∃ fuel, (i.evalAt fuel n frame depth).ends w = true
  · obtain ⟨fuel, ends⟩ := ends
    have ends' := Run.ends_eq_of_erased (same fuel) ▸ ends
    exact .inr ⟨_, _, ⟨fuel, ends, rfl⟩, ⟨fuel, ends', rfl⟩, same fuel⟩
  · have diverges : i.Diverges n frame depth w := by simpa [Diverges] using ends
    refine .inl ⟨diverges, fun fuel => ?_⟩
    rw [← Run.ends_eq_of_erased (same fuel)]
    exact diverges fuel

/-- A call of a function that packs its arguments, once read from a source and once
computed. -/
theorem pack_unplaced :
    let pack : Host := fun args => .value (.vector .computed args)
    let i : Interpreter := { hosts := #[pack] }
    let program (p : Place) : Node :=
      .call p [.primitive p ⟨0, "pack", .any, .host 0⟩, .symbol p "x"]
    let world (p : Place) : World :=
      ⟨(Store.empty 1).define Store.root "x" (.number p (.int 1)), 0, ""⟩
    let p : Place := .within "a" 0 8
    Run.unplaced (i.evalAt 4 (program p) Store.root 0 (world p)) =
      Run.unplaced (i.evalAt 4 (program .computed) Store.root 0 (world .computed)) := by
  intro pack i program world p
  have hosts : ∀ host ∈ i.hosts, host.IgnoresPlaces := by
    intro host isHost ns ms same
    rw [List.mem_singleton.mp (Array.mem_def.mp isHost)]
    exact congrArg (Reply.value ∘ Node.vector .computed) same
  have nodes : (program p).unplaced = (program .computed).unplaced := rfl
  have worlds : (world p).unplaced = (world .computed).unplaced := by
    have inherited := FrameInfo.inherited_id
    have empty := (Likeness.erasing_stores_iff inherited).mpr (Eq.refl ((Store.empty 1).erased id))
    refine (Likeness.erasing_worlds_iff inherited).mp ⟨?_, rfl, rfl⟩
    exact empty.define Store.root "x" (.number (.int 1) trivial)
  exact (evalAt_unplaced i hosts _ _ Store.root 0 _ _ nodes worlds).1 4

end Interpreter

end Sexpr
