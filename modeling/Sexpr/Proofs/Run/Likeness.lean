/-
Evaluation respects likeness.

A `Likeness` says which places may stand for one another, and which descriptions of
frames. It extends from places to nodes, stores, worlds, signals and runs: two runs are
alike if from alike worlds they end in the same way, with results, signals and worlds that
are alike. Faults, output and steps must be the same; of the calls that a signal passed
through it is only asked that their places are like some place. What evaluation does is
gone through here once, form by form. Main statement: `Interpreter.evalAt_respects`, the
evaluation of alike nodes is alike.
-/

import Sexpr.Proofs.Operation.Likeness
import Sexpr.Proofs.Run.Bindings

namespace Sexpr

/-- Which places may stand for one another, and which descriptions of frames. -/
structure Likeness where
  place : Place → Place → Prop
  info : FrameInfo → FrameInfo → Prop
  computed : place .computed .computed
  root : info Store.rootFrame.info Store.rootFrame.info
  child : ∀ {a b : FrameInfo} (name : String), info a b →
    info ⟨name, a.program, a.level + 1⟩ ⟨name, b.program, b.level + 1⟩

namespace Likeness

variable {α β γ δ : Type} {L : Likeness}

/-- The nodes have the same structure and places that are alike. -/
abbrev Nodes (L : Likeness) : Node → Node → Prop :=
  Node.Alike L.place

/-! ### Stores -/

structure Frames (L : Likeness) (f g : Frame) : Prop where
  info : L.info f.info g.info
  parent : f.parent = g.parent
  bindings : Table.Alike L.place f.bindings g.bindings

structure Stores (L : Likeness) (s t : Store) : Prop where
  size : s.frames.size = t.frames.size
  serial : s.serial = t.serial
  frame : ∀ id, L.Frames (s.frame id) (t.frame id)

structure Worlds (L : Likeness) (w v : World) : Prop where
  store : L.Stores w.store v.store
  steps : w.steps = v.steps
  output : w.output = v.output

namespace Stores

variable {s t : Store}

/-- The nearest bindings of a name are alike. -/
theorem find (h : L.Stores s t) (id : FrameId) (name : String) :
    Option.Rel L.Nodes (s.find? id name) (t.find? id name) := by
  induction id using Nat.strongRecOn with
  | ind id ih =>
    have parents : s.parent? id = t.parent? id := by
      rw [Store.parent?, Store.parent?, (h.frame id).parent]
    have own := (h.frame id).bindings.lookup name
    rw [Store.find?_eq, Store.find?_eq, parents]
    generalize (s.frame id).bindings.lookup name = a at *
    generalize (t.frame id).bindings.lookup name = b at *
    cases own with
    | some alike => exact .some alike
    | none =>
      cases isParent : t.parent? id with
      | none => exact .none
      | some parent => exact ih parent (Store.lt_of_parent? isParent)

theorem lookup (h : L.Stores s t) (id : FrameId) (name : String) :
    Matches L.Nodes (s.lookup id name) (t.lookup id name) := by
  have found := h.find id name
  unfold Store.lookup
  generalize s.find? id name = a at *
  generalize t.find? id name = b at *
  cases found with
  | none => exact .error _
  | some alike => exact .ok alike

theorem define (h : L.Stores s t) (frame : FrameId) (name : String) {n m : Node}
    (alike : L.Nodes n m) : L.Stores (s.define frame name n) (t.define frame name m) where
  size := by rw [Store.size_define, Store.size_define, h.size]
  serial := h.serial
  frame id := by
    have old := h.frame id
    rw [Store.define, Store.define, Store.frame_update, Store.frame_update, h.size]
    split
    · exact ⟨old.info, old.parent, old.bindings.put name alike⟩
    · exact old

theorem push (h : L.Stores s t) (parent : FrameId) (name : String) :
    L.Stores (s.push parent name).2 (t.push parent name).2 where
  size := by simp only [Store.push, Array.size_push, h.size]
  serial := h.serial
  frame id := by
    rw [Store.frame_push, Store.frame_push, h.size]
    split
    · exact ⟨L.child name (h.frame parent).info, rfl, .nil⟩
    · exact h.frame id

theorem number (h : L.Stores s t) :
    L.Stores { s with serial := s.serial + 1 } { t with serial := t.serial + 1 } where
  size := h.size
  serial := congrArg (· + 1) h.serial
  frame := h.frame

theorem defineAll (h : L.Stores s t) (frame : FrameId) {bindings bindings' : Bindings}
    (alike : Table.Alike L.place bindings bindings') :
    L.Stores (s.defineAll frame bindings) (t.defineAll frame bindings') := by
  induction alike generalizing s t with
  | nil => exact h
  | @cons a b _ _ first _ ih =>
    obtain ⟨name, n⟩ := a
    obtain ⟨_, m⟩ := b
    obtain ⟨rfl, alike⟩ := first
    exact ih (h.define frame name alike)

end Stores

/-! ### Signals and runs -/

inductive Controls (L : Likeness) : Control → Control → Prop where
  | leaveLoop {a b : Option Node} : Option.Rel L.Nodes a b →
      Controls L (.leaveLoop a) (.leaveLoop b)
  | leaveCall {a b : Node} : L.Nodes a b → Controls L (.leaveCall a) (.leaveCall b)
  | fail (fault : Fault) : Controls L (.fail fault) (.fail fault)

/-- The signals are the same but for places. The calls that they passed through may be
others, and only those of the first are looked at. -/
structure Signals (L : Likeness) (s t : Signal) : Prop where
  control : L.Controls s.control t.control
  origin : L.place s.origin t.origin
  trace : ∀ p ∈ s.trace, ∃ q, L.place p q

inductive Stops (L : Likeness) : Stop → Stop → Prop where
  | raised {s t : Signal} : L.Signals s t → Stops L (.raised s) (.raised t)
  | exited (status : Int) : Stops L (.exited status) (.exited status)
  | outOfFuel : Stops L .outOfFuel .outOfFuel

/-- The runs ended in the same way and in worlds that are alike. -/
inductive Ends (L : Likeness) (Q : α → β → Prop) :
    EStateM.Result Stop World α → EStateM.Result Stop World β → Prop where
  | ok {a : α} {b : β} {w v : World} : Q a b → L.Worlds w v → Ends L Q (.ok a w) (.ok b v)
  | error {s t : Stop} {w v : World} : L.Stops s t → L.Worlds w v →
      Ends L Q (.error s w) (.error t v)

/-- From alike worlds the runs end in the same way, with results that are related. -/
def Runs (L : Likeness) (Q : α → β → Prop) (x : Run α) (y : Run β) : Prop :=
  ∀ w v, L.Worlds w v → L.Ends Q (x w) (y v)

namespace Signals

variable {s t : Signal}

theorem through (h : L.Signals s t) {p q : Place} (here : L.place p q) :
    L.Signals (s.through p) (t.through q) where
  control := by
    rw [Signal.control_through, Signal.control_through]
    exact h.control
  origin := by
    rw [Signal.origin_through, Signal.origin_through]
    exact h.origin
  trace := by
    intro place mem
    unfold Signal.through at mem
    split at mem
    · exact h.trace place mem
    · rcases List.mem_append.mp mem with mem | mem
      · exact h.trace place mem
      · exact ⟨q, List.mem_singleton.mp mem ▸ here⟩

theorem isBreak_eq (h : L.Signals s t) : s.isBreak = t.isBreak := by
  have control := h.control
  unfold Signal.isBreak
  generalize s.control = a at *
  generalize t.control = b at *
  cases control <;> rfl

theorem isReturn_eq (h : L.Signals s t) : s.isReturn = t.isReturn := by
  have control := h.control
  unfold Signal.isReturn
  generalize s.control = a at *
  generalize t.control = b at *
  cases control <;> rfl

theorem payload (h : L.Signals s t) : L.Nodes s.payload t.payload := by
  have control := h.control
  have empty : L.Nodes (.nil s.origin) (.nil t.origin) := .atom _ h.origin
  unfold Signal.payload
  generalize s.control = a at *
  generalize t.control = b at *
  cases control with
  | leaveLoop payload =>
    cases payload with
    | none => exact empty
    | some alike => exact alike
  | leaveCall alike => exact alike
  | fail fault => exact empty

/-- Nothing is left to catch the signals. -/
theorem escaped (h : L.Signals s t) : L.Signals s.escaped t.escaped := by
  have fault : s.fault = t.fault := by
    have control := h.control
    unfold Signal.fault
    generalize s.control = a at *
    generalize t.control = b at *
    cases control <;> rfl
  refine ⟨?_, h.origin, h.trace⟩
  rw [Signal.escaped, Signal.escaped, fault]
  exact .fail _

end Signals

namespace Runs

variable {Q : α → β → Prop} {S : γ → δ → Prop} {x : Run α} {y : Run β} {p q : Place}

theorem pure {a : α} {b : β} (h : Q a b) : L.Runs Q (Pure.pure a) (Pure.pure b) :=
  fun _ _ worlds => .ok h worlds

theorem bind {f : α → Run γ} {g : β → Run δ} (h : L.Runs Q x y)
    (next : ∀ a b, Q a b → L.Runs S (f a) (g b)) : L.Runs S (x >>= f) (y >>= g) := by
  intro w v worlds
  have first := h w v worlds
  simp only [Bind.bind, EStateM.bind]
  generalize x w = r at *
  generalize y v = r' at *
  cases first with
  | ok related worlds => exact next _ _ related _ _ worlds
  | error stops worlds => exact .error stops worlds

theorem throw {s t : Stop} (h : L.Stops s t) :
    L.Runs Q (MonadExcept.throw s : Run α) (MonadExcept.throw t : Run β) :=
  fun _ _ worlds => .error h worlds

theorem raise {s t : Signal} (h : L.Signals s t) : L.Runs Q (Run.raise s) (Run.raise t) :=
  throw (.raised h)

theorem fail (fault : Fault) (here : L.place p q) :
    L.Runs Q (Run.fail fault p) (Run.fail fault q) :=
  raise ⟨.fail fault, here, by simp [Signal.ofFault]⟩

theorem ofExcept {e : Except Fault α} {e' : Except Fault β} (here : L.place p q)
    (h : Matches Q e e') : L.Runs Q (Run.ofExcept p e) (Run.ofExcept q e') := by
  cases h with
  | ok related => exact pure related
  | error fault => exact fail fault here

/-- Alike arguments are as many. -/
theorem check (expected : Arity) (callee : String) (here : L.place p q) {ns ms : List Node}
    (h : List.Forall₂ L.Nodes ns ms) :
    L.Runs Eq (Run.ofExcept p (expected.check callee ns.length))
      (Run.ofExcept q (expected.check callee ms.length)) := by
  rw [h.length_eq]
  exact ofExcept here (.refl (fun _ => rfl) _)

theorem write (s : String) : L.Runs (fun _ _ => True) (Run.write s) (Run.write s) :=
  fun _ _ worlds => .ok trivial ⟨worlds.store, worlds.steps, congrArg (· ++ s) worlds.output⟩

theorem define (frame : FrameId) (name : String) {n m : Node} (h : L.Nodes n m) :
    L.Runs (fun _ _ => True) (Run.modifyStore (·.define frame name n))
      (Run.modifyStore (·.define frame name m)) :=
  fun _ _ worlds => .ok trivial ⟨worlds.store.define frame name h, worlds.steps, worlds.output⟩

/-- Changes of alike stores that give the same. -/
theorem update {f g : Store → α × Store} (h : ∀ s t, L.Stores s t → (f s).1 = (g t).1 ∧
    L.Stores (f s).2 (g t).2) : L.Runs Eq (Run.updateStore f) (Run.updateStore g) :=
  fun _ _ worlds =>
    .ok (h _ _ worlds.store).1 ⟨(h _ _ worlds.store).2, worlds.steps, worlds.output⟩

theorem tick (limits : Limits) (here : L.place p q) :
    L.Runs (fun _ _ => True) (Run.tick limits p) (Run.tick limits q) := by
  intro w v worlds
  have counted : L.Worlds { w with steps := w.steps + 1 } { v with steps := v.steps + 1 } :=
    ⟨worlds.store, congrArg (· + 1) worlds.steps, worlds.output⟩
  cases given : limits.budget with
  | none =>
    rw [Run.tick_of_none given, Run.tick_of_none given]
    exact .ok trivial counted
  | some budget =>
    rw [Run.tick_of_some given, Run.tick_of_some given, worlds.steps]
    rw [worlds.steps] at counted
    split
    · exact .error (.raised ⟨.fail _, here, by simp [Signal.ofFault]⟩) counted
    · exact .ok trivial counted

theorem lookup (frame : FrameId) (name : String) (here : L.place p q) :
    L.Runs L.Nodes (do Run.ofExcept p ((← get).store.lookup frame name))
      (do Run.ofExcept q ((← get).store.lookup frame name)) :=
  fun w v worlds => ofExcept here (worlds.store.lookup frame name) w v worlds

theorem traced (here : L.place p q) (h : L.Runs Q x y) :
    L.Runs Q (x.traced p) (y.traced q) := by
  intro w v worlds
  have inner := h w v worlds
  unfold Run.traced
  generalize x w = r at *
  generalize y v = r' at *
  cases inner with
  | ok related worlds => exact .ok related worlds
  | error stops worlds =>
    cases stops with
    | raised signals => exact .error (.raised (signals.through here)) worlds
    | exited status => exact .error (.exited status) worlds
    | outOfFuel => exact .error .outOfFuel worlds

theorem catching {caught : Signal → Bool} (same : ∀ s t, L.Signals s t → caught s = caught t)
    (h : L.Runs Q x y) :
    L.Runs (Sum.LiftRel L.Nodes Q) (x.catching caught) (y.catching caught) := by
  intro w v worlds
  have inner := h w v worlds
  unfold Run.catching
  generalize x w = r at *
  generalize y v = r' at *
  cases inner with
  | ok related worlds => exact .ok (.inr related) worlds
  | error stops worlds =>
    cases stops with
    | @raised s t signals =>
      dsimp only
      rw [same s t signals]
      split
      · exact .ok (.inl signals.payload) worlds
      · exact .error (.raised signals) worlds
    | exited status => exact .error (.exited status) worlds
    | outOfFuel => exact .error .outOfFuel worlds

end Runs

/-- Evaluating alike nodes gives runs that are alike. -/
def Respected (L : Likeness) (e : Evaluator) : Prop :=
  ∀ {n m : Node} (frame : FrameId) (depth : Nat), L.Nodes n m →
    L.Runs L.Nodes (e n frame depth) (e m frame depth)

end Likeness

/-! ### Forms -/

namespace Params

variable {R : Place → Place → Prop} {ns ms : List Node}

theorem readRest_eq_of_alike (names : List String) (h : List.Forall₂ (Node.Alike R) ns ms) :
    readRest names ns = readRest names ms := by
  rcases h with _ | ⟨first, _ | ⟨second, others⟩⟩
  · rfl
  · cases first <;> rfl
  · cases first <;> rfl

theorem readFrom_eq_of_alike (names : List String) (h : List.Forall₂ (Node.Alike R) ns ms) :
    readFrom names ns = readFrom names ms := by
  induction h generalizing names with
  | nil => rfl
  | cons first others ih =>
    have mention := first.mention_eq
    cases first with
    | symbol name =>
      rw [readFrom, readFrom, readRest_eq_of_alike names others]
      simp only [ih]
    | _ => simp only [readFrom, mention]

theorem ofNode_eq_of_alike (callee : String) {n m : Node} (h : Node.Alike R n m) :
    ofNode callee n = ofNode callee m := by
  have mention := h.mention_eq
  cases h with
  | vector _ items => exact readFrom_eq_of_alike [] items
  | _ => simp only [ofNode, mention]

/-- Alike arguments are bound to the same names. -/
theorem alike_bindings (params : Params) {p q : Place} (here : R p q)
    (h : List.Forall₂ (Node.Alike R) ns ms) :
    Table.Alike R (params.bindings p ns) (params.bindings q ms) := by
  have positional (names : List String) : Table.Alike R (names.zip ns) (names.zip ms) := by
    induction h generalizing names with
    | nil =>
      rw [List.zip_nil_right]
      exact .nil
    | cons first _ ih =>
      cases names with
      | nil => exact .nil
      | cons name names => exact .cons ⟨rfl, first⟩ (ih names)
  unfold bindings
  split
  · refine List.rel_append (positional _) (.cons ⟨rfl, .vector here ?_⟩ .nil)
    exact List.forall₂_drop _ h
  · exact positional _

end Params

namespace Likeness

variable {L : Likeness}

theorem runs_push (parent : FrameId) (name : String) :
    L.Runs Eq (Run.updateStore (·.push parent name)) (Run.updateStore (·.push parent name)) :=
  .update fun _ _ stores => ⟨stores.size, stores.push parent name⟩

/-- A call starts in new frames that are alike. -/
theorem runs_enter (l : Lambda) {p q : Place} (here : L.place p q) {ns ms : List Node}
    (h : List.Forall₂ L.Nodes ns ms) :
    L.Runs Eq (Run.updateStore (·.enter l p ns)) (Run.updateStore (·.enter l q ms)) := by
  refine .update fun s t stores => ⟨stores.size, ?_⟩
  have bindings := l.params.alike_bindings here h
  have number : (s.push l.frame l.name).1 = (t.push l.frame l.name).1 := stores.size
  simp only [Store.enter, number]
  exact (stores.push l.frame l.name).defineAll _ bindings

end Likeness

namespace Call

/-- The call as it would be made at another place. -/
def elsewhere (c : Call) (place : Place) : Call :=
  { c with place := place }

variable {α β : Type} {L : Likeness} {c : Call} {q : Place} {n m : Node} {ns ms : List Node}

theorem run_alike (h : L.Respected c.eval) (alike : L.Nodes n m) :
    L.Runs L.Nodes (c.run n) ((c.elsewhere q).run m) :=
  h c.frame (c.depth + 1) alike

theorem runAll_alike (h : L.Respected c.eval) (alike : List.Forall₂ L.Nodes ns ms) :
    L.Runs (fun _ _ => True) (c.runAll ns) ((c.elsewhere q).runAll ms) := by
  induction alike with
  | nil => exact .pure trivial
  | cons first _ ih => exact (run_alike h first).bind fun _ _ _ => ih

theorem fail_alike {Q : α → β → Prop} {fault fault' : Fault} (same : fault = fault')
    (here : L.place c.place q) : L.Runs Q (c.fail fault) ((c.elsewhere q).fail fault') := by
  rw [same]
  exact .fail fault' here

theorem define_alike (name : String) (alike : L.Nodes n m) :
    L.Runs L.Nodes (c.define name n) ((c.elsewhere q).define name m) :=
  (Likeness.Runs.define c.frame name alike).bind fun _ _ _ => .pure alike

theorem name_alike (f : Form) (here : L.place c.place q) (alike : L.Nodes n m) :
    L.Runs Eq (c.name f n) ((c.elsewhere q).name f m) := by
  have mention := alike.mention_eq
  cases alike with
  | symbol name => exact .pure rfl
  | _ => exact fail_alike (by rw [mention]) here

theorem closure_alike (f : Form) (kind : ClosureKind) (name : String) (here : L.place c.place q)
    {params params' : Node} (hparams : L.Nodes params params') (hbody : L.Nodes n m) :
    L.Runs L.Nodes (c.closure f kind name params n)
      ((c.elsewhere q).closure f kind name params' m) := by
  have read : Matches Eq (Params.ofNode f.name params) (Params.ofNode f.name params') := by
    rw [Params.ofNode_eq_of_alike f.name hparams]
    exact .refl (fun _ => rfl) _
  refine (Likeness.Runs.ofExcept here read).bind ?_
  rintro params _ rfl
  refine (Likeness.Runs.update fun _ _ stores => ⟨stores.serial, stores.number⟩).bind ?_
  rintro serial _ rfl
  exact .pure (.closure _ here hbody)

theorem bindPairs_alike (h : L.Respected c.eval) (here : L.place c.place q) (frame : FrameId)
    (index : Nat) (alike : List.Forall₂ L.Nodes ns ms) :
    L.Runs (fun _ _ => True) (c.bindPairs frame index ns)
      ((c.elsewhere q).bindPairs frame index ms) := by
  induction alike generalizing index with
  | nil => exact .pure trivial
  | cons first _ ih =>
    have printed := first.print_eq
    cases first with
    | vector _ items =>
      rcases items with _ | ⟨binder, _ | ⟨value, _ | _⟩⟩
      · exact fail_alike (by rw [printed]) here
      · cases binder <;> exact fail_alike (by rw [printed]) here
      · have spelled := binder.print_eq
        cases binder with
        | symbol name =>
          refine (h frame (c.depth + 1) value).bind fun _ _ bound => ?_
          exact (Likeness.Runs.define frame name bound).bind fun _ _ _ => ih (index + 1)
        | _ => exact fail_alike (by rw [spelled]) here
      · cases binder <;> exact fail_alike (by rw [printed]) here
    | _ => exact fail_alike (by rw [printed]) here

theorem unwrap_alike (h : L.Respected c.eval) (fuel : Nat) (alike : L.Nodes n m) :
    L.Runs L.Nodes (c.unwrap fuel n) ((c.elsewhere q).unwrap fuel m) := by
  induction fuel generalizing n m with
  | zero => exact .throw .outOfFuel
  | succ fuel ih =>
    cases alike with
    | quoted place inner =>
      refine (run_alike h inner).bind fun next next' new => ?_
      rw [new.same_eq (.quoted place inner)]
      split
      · exact .pure new
      · exact ih new
    | number value place => exact .pure (.number value place)
    | symbol name place => exact .pure (.symbol name place)
    | text value place => exact .pure (.text value place)
    | atom name place => exact .pure (.atom name place)
    | call place items => exact .pure (.call place items)
    | vector place items => exact .pure (.vector place items)
    | closure l place body => exact .pure (.closure l place body)
    | primitive value place => exact .pure (.primitive value place)
    | form f place => exact .pure (.form f place)

theorem iterate_alike (h : L.Respected c.eval) (here : L.place c.place q)
    (alike : List.Forall₂ L.Nodes ns ms) (fuel : Nat) :
    L.Runs L.Nodes (c.iterate ns fuel) ((c.elsewhere q).iterate ms fuel) := by
  induction fuel with
  | zero => exact .throw .outOfFuel
  | succ fuel ih =>
    refine (Likeness.Runs.tick c.limits here).bind fun _ _ _ => ?_
    refine (Likeness.Runs.catching (fun _ _ signals => signals.isBreak_eq)
      (runAll_alike h alike)).bind fun _ _ left => ?_
    cases left with
    | inl payload => exact .pure payload
    | inr _ => exact ih

theorem runLast_alike (h : L.Respected c.eval) {last last' : Node} (hlast : L.Nodes last last')
    (alike : List.Forall₂ L.Nodes ns ms) :
    L.Runs L.Nodes (c.runLast last ns) ((c.elsewhere q).runLast last' ms) := by
  induction alike generalizing last last' with
  | nil => exact .pure hlast
  | cons first _ ih => exact (run_alike h first).bind fun _ _ value => ih value

theorem runCases_alike (h : L.Respected c.eval) (here : L.place c.place q)
    (alike : List.Forall₂ L.Nodes ns ms) :
    L.Runs L.Nodes (c.runCases ns) ((c.elsewhere q).runCases ms) := by
  induction alike with
  | nil => exact .pure (.atom _ here)
  | cons first _ ih =>
    have printed := first.print_eq
    cases first with
    | vector _ items =>
      rcases items with _ | ⟨predicate, _ | ⟨expression, _ | _⟩⟩
      case cons.cons.nil =>
        refine (run_alike h predicate).bind fun _ _ value => ?_
        rw [value.isTruthy_eq]
        split
        · exact run_alike h expression
        · exact ih
      all_goals exact fail_alike (by rw [printed]) here
    | _ => exact fail_alike (by rw [printed]) here

theorem runUntil_alike (h : L.Respected c.eval) (here : L.place c.place q) (wanted : Bool)
    (alike : List.Forall₂ L.Nodes ns ms) :
    L.Runs L.Nodes (c.runUntil wanted ns) ((c.elsewhere q).runUntil wanted ms) := by
  induction alike with
  | nil => exact .pure (.atom _ here)
  | cons first _ ih =>
    refine (run_alike h first).bind fun _ _ value => ?_
    rw [value.isTruthy_eq]
    split
    · exact .pure (.atom _ here)
    · exact ih

/-- A condition, and what is run if it is true or false. -/
theorem branch_alike (h : L.Respected c.eval) (condition : L.Nodes n m)
    {yes no yes' no' : Run Node} (hyes : L.Runs L.Nodes yes yes') (hno : L.Runs L.Nodes no no') :
    L.Runs L.Nodes (do if (← c.run n).isTruthy then yes else no)
      (do if (← (c.elsewhere q).run m).isTruthy then yes' else no') := by
  refine (run_alike h condition).bind fun _ _ value => ?_
  rw [value.isTruthy_eq]
  split
  · exact hyes
  · exact hno

/-- Evaluates an operand and binds its value. -/
theorem bind_alike (h : L.Respected c.eval) (name : String) (value : L.Nodes n m) :
    L.Runs L.Nodes (do c.define name (← c.run n))
      (do (c.elsewhere q).define name (← (c.elsewhere q).run m)) :=
  (run_alike h value).bind fun _ _ bound => define_alike name bound

theorem bindTo_alike (h : L.Respected c.eval) (here : L.place c.place q)
    {target target' : Node} (htarget : L.Nodes target target') (value : L.Nodes n m) :
    L.Runs L.Nodes (Form.bindTo.run c [target, n])
      (Form.bindTo.run (c.elsewhere q) [target', m]) := by
  refine (run_alike h htarget).bind fun _ _ named => ?_
  have mention := named.mention_eq
  cases named with
  | symbol name => exact bind_alike h name value
  | quoted _ inner =>
    cases inner with
    | symbol name => exact bind_alike h name value
    | _ => exact fail_alike (by rw [mention]) here
  | _ => exact fail_alike (by rw [mention]) here

theorem unquote_alike (h : L.Respected c.eval) (here : L.place c.place q) (node : L.Nodes n m) :
    L.Runs L.Nodes (Form.unquote.run c [n]) (Form.unquote.run (c.elsewhere q) [m]) := by
  refine (run_alike h node).bind fun _ _ value => ?_
  have mention := value.mention_eq
  cases value with
  | quoted _ inner => exact run_alike h inner
  | _ => exact fail_alike (by rw [mention]) here

/-- A closure is made and bound under its name. -/
theorem named_alike (f : Form) (kind : ClosureKind) (here : L.place c.place q)
    {target target' params params' : Node} (htarget : L.Nodes target target')
    (hparams : L.Nodes params params') (body : L.Nodes n m) :
    L.Runs L.Nodes
      (do
        let name ← c.name f target
        c.define name (← c.closure f kind name params n))
      (do
        let name ← (c.elsewhere q).name f target'
        (c.elsewhere q).define name (← (c.elsewhere q).closure f kind name params' m)) := by
  refine (name_alike f here htarget).bind ?_
  rintro name _ rfl
  refine (closure_alike f kind name here hparams body).bind fun _ _ made => ?_
  exact define_alike name made

theorem letIn_alike (h : L.Respected c.eval) (here : L.place c.place q) {pairs pairs' : Node}
    (hpairs : L.Nodes pairs pairs') (body : L.Nodes n m) :
    L.Runs L.Nodes (Form.letIn.run c [pairs, n]) (Form.letIn.run (c.elsewhere q) [pairs', m]) := by
  have mention := hpairs.mention_eq
  cases hpairs with
  | vector _ items =>
    refine (Likeness.runs_push c.frame "let").bind ?_
    rintro frame _ rfl
    refine (bindPairs_alike h here frame 0 items).bind fun _ _ _ => ?_
    exact h frame (c.depth + 1) body
  | _ => exact fail_alike (by rw [mention]) here

/-- A form does the same to alike operands. -/
theorem form_alike (h : L.Respected c.eval) (here : L.place c.place q) (f : Form)
    (alike : List.Forall₂ L.Nodes ns ms) :
    L.Runs L.Nodes (f.run c ns) (f.run (c.elsewhere q) ms) := by
  have refused : L.Runs L.Nodes (c.fail (.arity f.name f.arity ns.length))
      ((c.elsewhere q).fail (.arity f.name f.arity ms.length)) :=
    fail_alike (by rw [alike.length_eq]) here
  have nil : L.Nodes (.nil c.place) (.nil q) := .atom _ here
  -- operands in any other number are refused
  cases f
  case quote =>
    rcases alike with _ | ⟨node, _ | _⟩
    · exact refused
    · exact .pure (.quoted here node)
    · exact refused
  case bind =>
    rcases alike with _ | ⟨target, _ | ⟨value, _ | _⟩⟩
    · exact refused
    · exact refused
    · refine (name_alike .bind here target).bind ?_
      rintro name _ rfl
      exact bind_alike h name value
    · exact refused
  case bindTo =>
    rcases alike with _ | ⟨target, _ | ⟨value, _ | _⟩⟩
    · exact refused
    · exact refused
    · exact bindTo_alike h here target value
    · exact refused
  case unquote =>
    rcases alike with _ | ⟨node, _ | _⟩
    · exact refused
    · exact unquote_alike h here node
    · exact refused
  case evaluate =>
    rcases alike with _ | ⟨node, _ | _⟩
    · exact refused
    · exact (run_alike h node).bind fun _ _ value => unwrap_alike h c.fuel value
    · exact refused
  case lambda =>
    rcases alike with _ | ⟨params, _ | ⟨body, _ | _⟩⟩
    · exact refused
    · exact refused
    · exact closure_alike .lambda .function anonymous here params body
    · exact refused
  case function =>
    rcases alike with _ | ⟨target, _ | ⟨params, _ | ⟨body, _ | _⟩⟩⟩
    · exact refused
    · exact refused
    · exact refused
    · exact named_alike .function .function here target params body
    · exact refused
  case expander =>
    rcases alike with _ | ⟨target, _ | ⟨params, _ | ⟨body, _ | _⟩⟩⟩
    · exact refused
    · exact refused
    · exact refused
    · exact named_alike .expander .expander here target params body
    · exact refused
  case letIn =>
    rcases alike with _ | ⟨pairs, _ | ⟨body, _ | _⟩⟩
    · exact refused
    · cases pairs <;> exact refused
    · exact letIn_alike h here pairs body
    · cases pairs <;> exact refused
  case sequence => exact runLast_alike h nil alike
  case loop => exact iterate_alike h here alike c.fuel
  case leaveLoop =>
    rcases alike with _ | ⟨node, _⟩
    · exact .raise ⟨.leaveLoop .none, here, by simp⟩
    · refine (run_alike h node).bind fun _ _ value => ?_
      exact .raise ⟨.leaveLoop (.some value), here, by simp⟩
  case leaveCall =>
    rcases alike with _ | ⟨node, _⟩
    · exact .raise ⟨.leaveCall nil, here, by simp⟩
    · refine (run_alike h node).bind fun _ _ value => ?_
      exact .raise ⟨.leaveCall value, here, by simp⟩
  case branch =>
    rcases alike with _ | ⟨condition, _ | ⟨yes, _ | ⟨no, _ | _⟩⟩⟩
    · exact refused
    · exact refused
    · exact branch_alike h condition (run_alike h yes) (.pure nil)
    · exact branch_alike h condition (run_alike h yes) (run_alike h no)
    · exact refused
  case guarded =>
    rcases alike with _ | ⟨condition, _ | ⟨body, _ | _⟩⟩
    · exact refused
    · exact refused
    · exact branch_alike h condition (run_alike h body) (.pure nil)
    · exact refused
  case cases => exact runCases_alike h here alike
  case conjunction => exact runUntil_alike h here false alike
  case disjunction => exact runUntil_alike h here true alike

end Call

/-! ### Evaluation -/

namespace Likeness

variable {L : Likeness}

inductive Replies (L : Likeness) : Reply → Reply → Prop where
  | value {n m : Node} : L.Nodes n m → Replies L (.value n) (.value m)
  | fault (fault : Fault) : Replies L (.fault fault) (.fault fault)
  | exit (status : Int) : Replies L (.exit status) (.exit status)

/-- The function of the embedding program answers alike arguments alike. -/
def RespectedBy (L : Likeness) (host : Host) : Prop :=
  ∀ {ns ms : List Node}, List.Forall₂ L.Nodes ns ms → L.Replies (host ns) (host ms)

end Likeness

namespace Interpreter

variable {i : Interpreter} {L : Likeness} {e : Evaluator} {n m : Node} {ns ms : List Node}
  {p q : Place}

theorem perform_alike (hosts : ∀ host ∈ i.hosts, L.RespectedBy host) (value : Primitive)
    (alike : List.Forall₂ L.Nodes ns ms) (here : L.place p q) :
    L.Runs L.Nodes (i.perform value ns p) (i.perform value ms q) := by
  unfold perform
  split
  · rename_i op _
    refine (Likeness.Runs.ofExcept here (op.matches_value L.computed alike)).bind
      fun _ _ result => ?_
    rw [op.echo_eq_of_alike alike]
    exact (Likeness.Runs.write _).bind fun _ _ _ => .pure result
  · split
    · exact .fail _ here
    · rename_i host found
      have answers := hosts host (Array.mem_of_getElem? found) alike
      generalize host ns = a at *
      generalize host ms = b at *
      cases answers with
      | value result => exact .pure result
      | fault fault => exact .fail fault here
      | exit status => exact .throw (.exited status)

theorem evalAll_alike (h : L.Respected e) (frame : FrameId) (depth : Nat)
    (alike : List.Forall₂ L.Nodes ns ms) :
    L.Runs (List.Forall₂ L.Nodes) (evalAll e frame depth ns) (evalAll e frame depth ms) := by
  unfold evalAll
  induction alike with
  | nil => exact .pure .nil
  | cons first _ ih =>
    rw [List.mapM_cons, List.mapM_cons]
    refine (h frame depth first).bind fun _ _ value => ih.bind fun _ _ values => ?_
    exact .pure (.cons value values)

theorem enter_alike (h : L.Respected e) (l : Lambda) (body : L.Nodes n m)
    (args : List.Forall₂ L.Nodes ns ms) (here : L.place p q) (depth : Nat) :
    L.Runs L.Nodes (enter e l n ns p depth) (enter e l m ms q depth) := by
  refine (Likeness.Runs.check l.params.arity l.name here args).bind fun _ _ _ => ?_
  refine (Likeness.runs_enter l here args).bind ?_
  rintro frame _ rfl
  refine (Likeness.Runs.catching (fun _ _ signals => signals.isReturn_eq)
    (h frame (depth + 1) body)).bind fun _ _ left => ?_
  cases left with
  | inl payload => exact .pure payload
  | inr value => exact .pure value

theorem apply_alike (hosts : ∀ host ∈ i.hosts, L.RespectedBy host) (h : L.Respected e)
    (fuel : Nat) (here : L.place p q) (frame : FrameId) (depth : Nat) (head : L.Nodes n m)
    {callee callee' : Node} (hcallee : L.Nodes callee callee')
    (args : List.Forall₂ L.Nodes ns ms) :
    L.Runs L.Nodes (i.apply fuel e p frame depth n callee ns)
      (i.apply fuel e q frame depth m callee' ms) := by
  have refused : L.Runs L.Nodes (Run.fail (.notCallable n.print) n.place)
      (Run.fail (.notCallable m.print) m.place) := by
    rw [head.print_eq]
    exact .fail _ head.place
  cases hcallee with
  | form f =>
    refine (Likeness.Runs.check f.arity f.name here args).bind fun _ _ _ => ?_
    exact @Call.form_alike L ⟨p, frame, depth, i.limits, fuel, e⟩ q _ _ h here f args
  | closure l _ body =>
    simp only [apply]
    cases l.kind with
    | function =>
      refine (evalAll_alike h frame (depth + 1) args).bind fun _ _ values => ?_
      exact enter_alike h l body values here depth
    | expander =>
      have quoted : List.Forall₂ L.Nodes (ns.map .quote) (ms.map .quote) :=
        List.rel_map (fun _ _ alike => alike.quote) args
      refine (enter_alike h l body quoted here depth).bind fun _ _ expansion => ?_
      exact h frame (depth + 1) expansion
  | primitive value =>
    refine (evalAll_alike h frame (depth + 1) args).bind fun _ _ values => ?_
    refine (Likeness.Runs.check value.arity value.name here values).bind fun _ _ _ => ?_
    refine (perform_alike hosts value values here).bind fun _ _ result => ?_
    exact .pure (result.moveTo here)
  | _ => exact refused

/-- Visiting alike nodes gives runs that are alike, if evaluating what is below does. -/
theorem visit_respected (hosts : ∀ host ∈ i.hosts, L.RespectedBy host) (h : L.Respected e)
    (fuel : Nat) : L.Respected (i.visit fuel e) := by
  intro n m frame depth alike
  cases alike with
  | symbol name here => exact .lookup frame name here
  | vector here items =>
    refine (evalAll_alike h frame (depth + 1) items).bind fun _ _ values => ?_
    exact .pure (.vector here values)
  | call here items =>
    cases items with
    | nil => exact .fail _ here
    | cons head args =>
      refine .traced here ?_
      refine (h frame (depth + 1) head).bind fun _ _ callee => ?_
      exact apply_alike hosts h fuel here frame depth head callee args
  | number value here => exact .pure (.number value here)
  | text value here => exact .pure (.text value here)
  | atom name here => exact .pure (.atom name here)
  | quoted here inner => exact .pure (.quoted here inner)
  | closure l here body => exact .pure (.closure l here body)
  | primitive value here => exact .pure (.primitive value here)
  | form f here => exact .pure (.form f here)

theorem step_respected (hosts : ∀ host ∈ i.hosts, L.RespectedBy host) (h : L.Respected e)
    (fuel : Nat) : L.Respected (i.step fuel e) := by
  intro n m frame depth alike
  rw [step_eq, step_eq]
  split
  · exact .fail _ alike.place
  · refine (Likeness.Runs.tick i.limits alike.place).bind fun _ _ _ => ?_
    exact visit_respected hosts h fuel frame depth alike

/-- Evaluating alike nodes in alike worlds gives runs that are alike, if the functions of
the embedding program respect that. -/
theorem evalAt_respects (hosts : ∀ host ∈ i.hosts, L.RespectedBy host) (fuel : Nat) :
    L.Respected (i.evalAt fuel) := by
  induction fuel with
  | zero => exact fun _ _ _ => .throw .outOfFuel
  | succ fuel ih => exact step_respected hosts ih fuel

end Interpreter

end Sexpr
