/-
Invariants: what evaluation keeps of a store that grows.

A `Scope` says which frames may be captured, given how many there are, and which
primitives are offered; a node fits if this holds of all closures and primitives in it.
An `Invariant` adds which stores are good. Evaluation is gone through once, form by form,
in two runs that go alongside each other (`Invariant.Alongside`). The first may be ahead
by a number of steps and of levels (`Lead`); the second may perform primitives in its own
way, as long as that makes no difference for arguments that they accept. Unless the first
one gets too deep for being ahead, both end in the same way, in good stores, with results
and payloads that fit. Main statement: `Interpreter.evalAt_alongside`.
-/

import Sexpr.Proofs.Node.Parts
import Sexpr.Proofs.Run.Bindings

namespace Sexpr

/-- The world with `k` more steps on its count. -/
def World.later (k : Nat) (w : World) : World :=
  { w with steps := w.steps + k }

@[simp] theorem World.later_zero (w : World) : w.later 0 = w := rfl

/-! ### Scopes -/

/-- Which frames may be captured, given how many there are, and which primitives may
occur. -/
structure Scope where
  Captures : Nat → FrameId → Prop
  Offers : Primitive → Prop
  captures_mono : ∀ {m n : Nat} {id : FrameId}, m ≤ n → Captures m id → Captures n id
  captures_new : ∀ n, Captures (n + 1) n

namespace Scope

/-- The node itself is within the scope, whatever is inside of it. -/
def Admits (v : Scope) (n : Nat) : Node → Prop
  | .closure _ l _ => v.Captures n l.frame
  | .primitive _ p => v.Offers p
  | _ => True

/-- The node and all nodes inside of it are within the scope. -/
def Fits (v : Scope) (n : Nat) : Node → Prop :=
  Node.Everywhere (v.Admits n)

variable {v : Scope} {m n : Nat} {p : Place}

theorem admits_of_isPlain {node : Node} (h : node.isPlain = true) : v.Admits n node := by
  cases node with
  | closure p l body => cases h
  | primitive p value => cases h
  | _ => trivial

theorem Fits.mono (le : m ≤ n) {node : Node} (h : v.Fits m node) : v.Fits n node := by
  refine Node.Everywhere.mono h fun part admitted => ?_
  cases part with
  | closure p l body => exact v.captures_mono le admitted
  | _ => exact admitted

theorem hereditary (v : Scope) (n : Nat) : Node.Hereditary (v.Fits n) := by
  apply Node.Everywhere.hereditary fun _ => admits_of_isPlain
  intro p node admitted
  cases node <;> exact admitted

theorem fits_call_iff {ns : List Node} : v.Fits n (.call p ns) ↔ ∀ node ∈ ns, v.Fits n node :=
  Node.Everywhere.call_iff.trans (and_iff_right trivial)

theorem fits_vector_iff {ns : List Node} : v.Fits n (.vector p ns) ↔ ∀ node ∈ ns, v.Fits n node :=
  (v.hereditary n).vector p ns

theorem fits_quoted_iff {node : Node} : v.Fits n (.quoted p node) ↔ v.Fits n node :=
  Node.Everywhere.quoted_iff.trans (and_iff_right trivial)

theorem fits_closure_iff {l : Lambda} {body : Node} :
    v.Fits n (.closure p l body) ↔ v.Captures n l.frame ∧ v.Fits n body :=
  Node.Everywhere.closure_iff

theorem fits_primitive_iff {value : Primitive} :
    v.Fits n (.primitive p value) ↔ v.Offers value :=
  List.forall_mem_singleton

theorem fits_nil : v.Fits n (.nil p) :=
  (v.hereditary n).atom p _

theorem Fits.quote {node : Node} (h : v.Fits n node) : v.Fits n node.quote :=
  fits_quoted_iff.mpr h

end Scope

/-! ### Leads -/

/-- Evaluation would have nested too deeply. -/
def Stop.isTooDeep : Stop → Bool
  | .raised s =>
    match s.fault? with
    | some (.depthExceeded _) => true
    | _ => false
  | _ => false

/-- How far one run is ahead of another. -/
structure Lead where
  /-- How many more steps it has counted. -/
  steps : Nat := 0
  /-- How many levels deeper it takes place. -/
  levels : Nat := 0

/-- The run that is ahead may stop so where the other one goes on. -/
def Lead.Excuses (o : Lead) (stop : Stop) : Prop :=
  0 < o.levels ∧ stop.isTooDeep = true

theorem Lead.Excuses.through {o : Lead} {s : Signal} (h : o.Excuses (.raised s)) (p : Place) :
    o.Excuses (.raised (s.through p)) := by
  refine ⟨h.1, ?_⟩
  rw [Stop.isTooDeep, Signal.fault?_through]
  exact h.2

/-- A fault is not what is caught. -/
theorem Lead.Excuses.not_caught {o : Lead} {s : Signal} (h : o.Excuses (.raised s))
    {caught : Signal → Bool} (spares : ∀ s, caught s = true → s.fault? = none) :
    caught s = false := by
  cases isCaught : caught s with
  | false => rfl
  | true =>
    have tooDeep := h.2
    rw [Stop.isTooDeep, spares s isCaught] at tooDeep
    cases tooDeep

/-! ### Invariants -/

/-- The node that a stop carries fits. -/
def Scope.Carries (v : Scope) (n : Nat) : Stop → Prop
  | .raised s => v.Fits n s.payload
  | _ => True

/-- Which stores are good, for a scope. -/
structure Invariant extends Scope where
  Good : Store → Prop
  find : ∀ {s frame name node}, Good s → s.find? frame name = some node →
    toScope.Fits s.frames.size node
  define : ∀ {s} (frame : FrameId) (name : String) {node}, Good s →
    toScope.Fits s.frames.size node → Good (s.define frame name node)
  push : ∀ {s} {parent : FrameId} (name : String), Good s → Captures s.frames.size parent →
    Good (s.push parent name).2
  number : ∀ {s : Store}, Good s → Good { s with serial := s.serial + 1 }

namespace Invariant

variable {α β : Type} {v : Invariant} {o : Lead} {m n : Nat} {Q : Nat → α → Prop}
  {R : Nat → β → Prop}

/-- The store is good and has at least `n` frames. -/
structure Holds (v : Invariant) (n : Nat) (w : World) : Prop where
  good : v.Good w.store
  size_le : n ≤ w.store.frames.size

/-- The runs ended in the same way, the first one as many steps later as it is ahead, or
the first one has an excuse. -/
inductive Ends (v : Invariant) (o : Lead) (n : Nat) (Q : Nat → α → Prop) :
    EStateM.Result Stop World α → EStateM.Result Stop World α → Prop where
  | ok {a : α} {w w' : World} : w' = w.later o.steps → v.Holds n w → Q w.store.frames.size a →
      Ends v o n Q (.ok a w') (.ok a w)
  | error {stop : Stop} {w w' : World} : w' = w.later o.steps → v.Holds n w →
      v.Carries w.store.frames.size stop → Ends v o n Q (.error stop w') (.error stop w)
  | excused {stop : Stop} {w : World} {r : EStateM.Result Stop World α} : o.Excuses stop →
      Ends v o n Q (.error stop w) r

/-- From good worlds with at least `n` frames, the first of them later, the runs end in the
same way, and the result has the property for the frames that there are then. -/
def Alongside (v : Invariant) (o : Lead) (n : Nat) (Q : Nat → α → Prop) (x y : Run α) : Prop :=
  ∀ w, v.Holds n w → v.Ends o n Q (x (w.later o.steps)) (y w)

/-- The evaluators go alongside each other wherever they are given what fits. -/
def Serves (v : Invariant) (o : Lead) (e e' : Evaluator) : Prop :=
  ∀ {n node frame} depth, v.Captures n frame → v.Fits n node →
    v.Alongside o n v.Fits (e node frame (o.levels + depth)) (e' node frame depth)

theorem Ends.mono (le : m ≤ n) {r r' : EStateM.Result Stop World α} (h : v.Ends o n Q r r') :
    v.Ends o m Q r r' := by
  cases h with
  | ok later holds has => exact .ok later ⟨holds.good, Nat.le_trans le holds.size_le⟩ has
  | error later holds carries =>
    exact .error later ⟨holds.good, Nat.le_trans le holds.size_le⟩ carries
  | excused excuse => exact .excused excuse

namespace Alongside

theorem pure {a : α} (h : ∀ m, n ≤ m → Q m a) : v.Alongside o n Q (Pure.pure a) (Pure.pure a) :=
  fun _ holds => .ok rfl holds (h _ holds.size_le)

theorem pureFits {node : Node} (h : v.Fits n node) :
    v.Alongside o n v.Fits (Pure.pure node) (Pure.pure node) :=
  pure fun _ le => h.mono le

theorem bind {x y : Run α} {f g : α → Run β} (h : v.Alongside o n Q x y)
    (next : ∀ m a, n ≤ m → Q m a → v.Alongside o m R (f a) (g a)) :
    v.Alongside o n R (x >>= f) (y >>= g) := by
  intro w holds
  have first := h w holds
  simp only [Bind.bind, EStateM.bind]
  generalize x (w.later o.steps) = r at *
  generalize y w = r' at *
  cases first with
  | @ok a w w' later holds has =>
    subst later
    exact (next _ a holds.size_le has w ⟨holds.good, Nat.le_refl _⟩).mono holds.size_le
  | error later holds carries => exact .error later holds carries
  | excused excuse => exact .excused excuse

/-- Runs whose result does not matter. -/
theorem bindAny {x y : Run α} {f g : α → Run β} (h : v.Alongside o n Q x y)
    (next : ∀ m a, n ≤ m → v.Alongside o m R (f a) (g a)) :
    v.Alongside o n R (x >>= f) (y >>= g) :=
  h.bind fun m a le _ => next m a le

theorem throw {stop : Stop} (h : v.Carries n stop) :
    v.Alongside o n Q (MonadExcept.throw stop) (MonadExcept.throw stop) := by
  intro w holds
  refine .error rfl holds ?_
  cases stop with
  | raised s => exact Scope.Fits.mono holds.size_le h
  | _ => trivial

theorem raise {s : Signal} (h : v.Fits n s.payload) :
    v.Alongside o n Q (Run.raise s) (Run.raise s) :=
  throw h

theorem fail (fault : Fault) (p : Place) :
    v.Alongside o n Q (Run.fail fault p) (Run.fail fault p) :=
  raise Scope.fits_nil

theorem ofExcept {x : Except Fault α} (p : Place) (h : ∀ m, n ≤ m → Yields (Q m) x) :
    v.Alongside o n Q (Run.ofExcept p x) (Run.ofExcept p x) := by
  cases x with
  | ok a => exact pure h
  | error fault => exact fail fault p

theorem write (s : String) : v.Alongside o n (fun _ _ => True) (Run.write s) (Run.write s) :=
  fun _ holds => .ok rfl ⟨holds.good, holds.size_le⟩ trivial

theorem define (frame : FrameId) (name : String) {node : Node} (h : v.Fits n node) :
    v.Alongside o n (fun _ _ => True) (Run.modifyStore (·.define frame name node))
      (Run.modifyStore (·.define frame name node)) := by
  intro w holds
  have good := v.define frame name holds.good (h.mono holds.size_le)
  refine .ok rfl ⟨good, ?_⟩ trivial
  exact (Store.size_define w.store frame name node).symm ▸ holds.size_le

/-- A change of the store that makes a good one and takes no frame away. -/
theorem update {f : Store → α × Store}
    (h : ∀ s, v.Good s → n ≤ s.frames.size → v.Good (f s).2 ∧
      s.frames.size ≤ (f s).2.frames.size ∧ Q (f s).2.frames.size (f s).1) :
    v.Alongside o n Q (Run.updateStore f) (Run.updateStore f) := by
  intro w holds
  obtain ⟨good, larger, has⟩ := h w.store holds.good holds.size_le
  exact .ok rfl ⟨good, Nat.le_trans holds.size_le larger⟩ has

theorem tick {limits : Limits} (untimed : limits.budget = none ∨ o.steps = 0) (p : Place) :
    v.Alongside o n (fun _ _ => True) (Run.tick limits p) (Run.tick limits p) := by
  intro w holds
  have counted : v.Holds n { w with steps := w.steps + 1 } := ⟨holds.good, holds.size_le⟩
  have later : { w.later o.steps with steps := (w.later o.steps).steps + 1 }
      = World.later o.steps { w with steps := w.steps + 1 } := by
    simp only [World.later, Nat.add_right_comm]
  cases given : limits.budget with
  | none =>
    rw [Run.tick_of_none given, Run.tick_of_none given]
    exact .ok later counted trivial
  | some budget =>
    have together : o.steps = 0 := untimed.resolve_left fun none => nomatch given.symm.trans none
    have same : (w.later o.steps).steps = w.steps := by
      rw [together]
      rfl
    rw [Run.tick_of_some given, Run.tick_of_some given]
    by_cases beyond : budget < w.steps + 1
    · rw [if_pos beyond, if_pos (same ▸ beyond)]
      exact .error later counted Scope.fits_nil
    · rw [if_neg beyond, if_neg (same ▸ beyond)]
      exact .ok later counted trivial

theorem lookup (place : Place) (frame : FrameId) (name : String) :
    v.Alongside o n v.Fits (do Run.ofExcept place ((← get).store.lookup frame name))
      (do Run.ofExcept place ((← get).store.lookup frame name)) := by
  intro w holds
  show v.Ends o n v.Fits (Run.ofExcept place (w.store.lookup frame name) (w.later o.steps))
    (Run.ofExcept place (w.store.lookup frame name) w)
  unfold Store.lookup
  split
  · rename_i bound
    exact .ok rfl holds (v.find holds.good bound)
  · exact .error rfl holds Scope.fits_nil

theorem traced {x y : Run α} (p : Place) (h : v.Alongside o n Q x y) :
    v.Alongside o n Q (x.traced p) (y.traced p) := by
  intro w holds
  have inner := h w holds
  simp only [Run.traced]
  generalize x (w.later o.steps) = r at *
  generalize y w = r' at *
  cases inner with
  | ok later holds has => exact .ok later holds has
  | @error stop _ _ later holds carries =>
    cases stop with
    | raised s =>
      refine .error later holds ?_
      rw [Scope.Carries, Signal.payload_through]
      exact carries
    | _ => exact .error later holds carries
  | @excused stop w r excuse =>
    cases stop with
    | raised s => exact .excused (excuse.through p)
    | _ => exact .excused excuse

theorem catching {x y : Run α} {caught : Signal → Bool}
    (spares : ∀ s, caught s = true → s.fault? = none) (h : v.Alongside o n Q x y) :
    v.Alongside o n (fun m left => Sum.elim (v.Fits m) (Q m) left) (x.catching caught)
      (y.catching caught) := by
  intro w holds
  have inner := h w holds
  simp only [Run.catching]
  generalize x (w.later o.steps) = r at *
  generalize y w = r' at *
  cases inner with
  | ok later holds has => exact .ok later holds has
  | @error stop _ _ later holds carries =>
    cases stop with
    | raised s =>
      dsimp only
      split
      · exact .ok later holds carries
      · exact .error later holds carries
    | _ => exact .error later holds carries
  | @excused stop w r excuse =>
    cases stop with
    | raised s =>
      dsimp only
      rw [excuse.not_caught spares]
      exact .excused excuse
    | _ => exact .excused excuse

/-- The first run may get too deep where the second one does not. -/
theorem guard {x y : Run α} (limits : Limits) (depth : Nat) (p : Place)
    (h : v.Alongside o n Q x y) :
    v.Alongside o n Q
      (if limits.depth ≤ o.levels + depth then Run.fail (.depthExceeded limits.depth) p else x)
      (if limits.depth ≤ depth then Run.fail (.depthExceeded limits.depth) p else y) := by
  by_cases deep : limits.depth ≤ depth
  · rw [if_pos deep, if_pos (Nat.le_add_left_of_le deep)]
    exact fail _ p
  · rw [if_neg deep]
    split
    · exact fun _ _ => .excused ⟨by omega, rfl⟩
    · exact h

/-- Runs of which none is ahead end in the same way. -/
theorem eq {x y : Run α} (h : v.Alongside {} n Q x y) {w : World} (holds : v.Holds n w) :
    x w = y w := by
  have ends := h w holds
  rw [World.later_zero] at ends
  generalize x w = r at *
  generalize y w = r' at *
  cases ends with
  | ok later holds has => rw [later, World.later_zero]
  | error later holds carries => rw [later, World.later_zero]
  | excused excuse => exact absurd excuse.1 (Nat.lt_irrefl 0)

/-- What a run ends with that goes alongside itself. -/
theorem outcome {x : Run α} (h : v.Alongside {} n Q x x) {w : World} (holds : v.Holds n w) :
    v.Holds n (x.final w) ∧ (∀ a w', x w = .ok a w' → Q w'.store.frames.size a) ∧
      ∀ stop w', x w = .error stop w' → v.Carries w'.store.frames.size stop := by
  have ends := h w holds
  rw [World.later_zero] at ends
  unfold Run.final
  cases ended : x w with
  | ok a w' =>
    rw [ended] at ends
    cases ends with
    | ok later holds has =>
      refine ⟨holds, ?_, fun stop w'' other => nomatch other⟩
      rintro a w' ⟨⟩
      exact has
  | error stop w' =>
    rw [ended] at ends
    cases ends with
    | error later holds carries =>
      refine ⟨holds, fun a w'' other => (nomatch other), ?_⟩
      rintro stop w' ⟨⟩
      exact carries
    | excused excuse => exact absurd excuse.1 (Nat.lt_irrefl 0)

end Alongside

theorem good_defineAll {s : Store} (frame : FrameId) (bindings : Bindings) (good : v.Good s)
    (h : ∀ entry ∈ bindings, v.Fits s.frames.size entry.2) :
    v.Good (s.defineAll frame bindings) := by
  induction bindings generalizing s with
  | nil => exact good
  | cons entry bindings ih =>
    obtain ⟨first, others⟩ := List.forall_mem_cons.mp h
    apply ih (v.define frame entry.1 good first)
    rw [Store.size_define]
    exact others

theorem fits_of_mem_bindings {params : Params} {p : Place} {args : List Node}
    (h : ∀ a ∈ args, v.Fits n a) : ∀ entry ∈ params.bindings p args, v.Fits n entry.2 := by
  have positional : ∀ entry ∈ params.names.zip args, v.Fits n entry.2 :=
    fun entry mem => h entry.2 (List.of_mem_zip mem).2
  unfold Params.bindings
  dsimp only
  split
  · intro entry mem
    rcases List.mem_append.mp mem with mem | mem
    · exact positional entry mem
    · rw [List.mem_singleton.mp mem]
      exact Scope.fits_vector_iff.mpr fun a mem => h a (List.mem_of_mem_drop mem)
  · exact positional

/-- A frame that has just been made may be captured. -/
theorem alongside_push {parent : FrameId} (name : String) (h : v.Captures n parent) :
    v.Alongside o n v.Captures (Run.updateStore (·.push parent name))
      (Run.updateStore (·.push parent name)) := by
  apply Alongside.update
  intro s good le
  have size : (s.push parent name).2.frames.size = s.frames.size + 1 := Array.size_push _
  refine ⟨v.push name good (v.captures_mono le h), ?_⟩
  rw [size]
  exact ⟨Nat.le_succ _, v.captures_new s.frames.size⟩

/-- A call starts in a new frame that binds its arguments. -/
theorem alongside_enter {l : Lambda} (h : v.Captures n l.frame) (p : Place) {args : List Node}
    (hargs : ∀ a ∈ args, v.Fits n a) :
    v.Alongside o n v.Captures (Run.updateStore (·.enter l p args))
      (Run.updateStore (·.enter l p args)) := by
  apply Alongside.update
  intro s good le
  have size : (s.push l.frame l.name).2.frames.size = s.frames.size + 1 := Array.size_push _
  have pushed := v.push l.name good (v.captures_mono le h)
  have fits : ∀ a ∈ args, v.Fits (s.push l.frame l.name).2.frames.size a := by
    rw [size]
    exact fun a mem => (hargs a mem).mono (Nat.le_succ_of_le le)
  refine ⟨good_defineAll s.frames.size _ pushed (fits_of_mem_bindings fits), ?_⟩
  rw [show (s.enter l p args).2.frames.size = s.frames.size + 1 from
    (Store.size_defineAll _ _ _).trans size]
  exact ⟨Nat.le_succ _, v.captures_new s.frames.size⟩

end Invariant

/-! ### Forms -/

namespace Call

/-- The call as it is ahead, with an evaluator of its own. -/
def ahead (c : Call) (o : Lead) (e : Evaluator) : Call :=
  { c with depth := o.levels + c.depth, eval := e }

variable {c : Call} {v : Invariant} {o : Lead} {n : Nat} {e : Evaluator}

theorem run_alongside (h : v.Serves o e c.eval) (captures : v.Captures n c.frame) {node : Node}
    (fits : v.Fits n node) : v.Alongside o n v.Fits ((c.ahead o e).run node) (c.run node) :=
  h (c.depth + 1) captures fits

theorem runAll_alongside (h : v.Serves o e c.eval) (captures : v.Captures n c.frame)
    {nodes : List Node} (fits : ∀ node ∈ nodes, v.Fits n node) :
    v.Alongside o n (fun _ _ => True) ((c.ahead o e).runAll nodes) (c.runAll nodes) := by
  induction nodes generalizing n with
  | nil => exact .pure fun _ _ => trivial
  | cons node nodes ih =>
    obtain ⟨first, others⟩ := List.forall_mem_cons.mp fits
    apply (run_alongside h captures first).bindAny
    intro m _ le
    exact ih (v.captures_mono le captures) fun node mem => (others node mem).mono le

theorem define_alongside (name : String) {value : Node} (fits : v.Fits n value) :
    v.Alongside o n v.Fits ((c.ahead o e).define name value) (c.define name value) :=
  (Invariant.Alongside.define c.frame name fits).bindAny fun _ _ le => .pureFits (fits.mono le)

theorem name_alongside (f : Form) (node : Node) :
    v.Alongside o n (fun _ _ => True) ((c.ahead o e).name f node) (c.name f node) := by
  cases node with
  | symbol p name => exact .pure fun _ _ => trivial
  | _ => exact .fail _ _

theorem closure_alongside (captures : v.Captures n c.frame) (f : Form) (kind : ClosureKind)
    (name : String) (params : Node) {body : Node} (fits : v.Fits n body) :
    v.Alongside o n v.Fits ((c.ahead o e).closure f kind name params body)
      (c.closure f kind name params body) := by
  apply (Invariant.Alongside.ofExcept c.place
    fun _ _ => Params.yields_ofNode f.name params).bindAny
  intro m params le
  have serial : v.Alongside o m (fun _ _ => True)
      (Run.updateStore fun s => (s.serial, { s with serial := s.serial + 1 }))
      (Run.updateStore fun s => (s.serial, { s with serial := s.serial + 1 })) :=
    .update fun _ good _ => ⟨v.number good, Nat.le_refl _, trivial⟩
  apply serial.bindAny
  intro m' serial le'
  have le := Nat.le_trans le le'
  exact .pureFits (Scope.fits_closure_iff.mpr ⟨v.captures_mono le captures, fits.mono le⟩)

theorem bindPairs_alongside (h : v.Serves o e c.eval) {frame : FrameId}
    (captures : v.Captures n frame) (index : Nat) {pairs : List Node}
    (fits : ∀ node ∈ pairs, v.Fits n node) :
    v.Alongside o n (fun _ _ => True) ((c.ahead o e).bindPairs frame index pairs)
      (c.bindPairs frame index pairs) := by
  fun_induction c.bindPairs frame index pairs generalizing n with
  | case1 => exact .pure fun _ _ => trivial
  | case2 index p q name value pairs ih =>
    obtain ⟨pair, others⟩ := List.forall_mem_cons.mp fits
    apply (h (c.depth + 1) captures (Scope.fits_vector_iff.mp pair value (by simp))).bind
    intro m value le fits
    apply (Invariant.Alongside.define frame name fits).bindAny
    intro m' _ le'
    have le := Nat.le_trans le le'
    exact ih (v.captures_mono le captures) fun node mem => (others node mem).mono le
  | case3 index p other value pairs notSymbol =>
    rw [bindPairs.eq_3 _ _ _ _ _ _ _ notSymbol]
    exact .fail _ _
  | case4 index other pairs notPair notVector =>
    rw [bindPairs.eq_4 _ _ _ _ _ notPair notVector]
    exact .fail _ _

theorem unwrap_alongside (h : v.Serves o e c.eval) (captures : v.Captures n c.frame)
    (fuel : Nat) {node : Node} (fits : v.Fits n node) :
    v.Alongside o n v.Fits ((c.ahead o e).unwrap fuel node) (c.unwrap fuel node) := by
  induction fuel generalizing n node with
  | zero => exact .throw trivial
  | succ fuel ih =>
    cases node with
    | quoted p inner =>
      apply (run_alongside h captures (Scope.fits_quoted_iff.mp fits)).bind
      intro m next le fits
      split
      · exact .pureFits fits
      · exact ih (v.captures_mono le captures) fits
    | _ => exact .pureFits fits

theorem iterate_alongside (h : v.Serves o e c.eval) (untimed : c.limits.budget = none ∨ o.steps = 0)
    (captures : v.Captures n c.frame) {body : List Node} (fits : ∀ node ∈ body, v.Fits n node)
    (fuel : Nat) :
    v.Alongside o n v.Fits ((c.ahead o e).iterate body fuel) (c.iterate body fuel) := by
  induction fuel generalizing n with
  | zero => exact .throw trivial
  | succ fuel ih =>
    apply (Invariant.Alongside.tick untimed c.place).bindAny
    intro m _ le
    have captures := v.captures_mono le captures
    have fits := fun node mem => (fits node mem).mono le
    have all := runAll_alongside h captures fits
    apply (Invariant.Alongside.catching Signal.fault?_of_isBreak all).bind
    intro m' left le' payloadFits
    cases left with
    | inl payload => exact .pureFits payloadFits
    | inr _ => exact ih (v.captures_mono le' captures) fun node mem => (fits node mem).mono le'

theorem runLast_alongside (h : v.Serves o e c.eval) (captures : v.Captures n c.frame)
    {last : Node} (lastFits : v.Fits n last) {nodes : List Node}
    (fits : ∀ node ∈ nodes, v.Fits n node) :
    v.Alongside o n v.Fits ((c.ahead o e).runLast last nodes) (c.runLast last nodes) := by
  induction nodes generalizing n last with
  | nil => exact .pureFits lastFits
  | cons node nodes ih =>
    obtain ⟨first, others⟩ := List.forall_mem_cons.mp fits
    apply (run_alongside h captures first).bind
    intro m value le valueFits
    exact ih (v.captures_mono le captures) valueFits fun node mem => (others node mem).mono le

theorem runCases_alongside (h : v.Serves o e c.eval) (captures : v.Captures n c.frame)
    {clauses : List Node} (fits : ∀ node ∈ clauses, v.Fits n node) :
    v.Alongside o n v.Fits ((c.ahead o e).runCases clauses) (c.runCases clauses) := by
  fun_induction c.runCases clauses generalizing n with
  | case1 => exact .pureFits Scope.fits_nil
  | case2 p predicate expression clauses ih =>
    obtain ⟨clause, others⟩ := List.forall_mem_cons.mp fits
    have parts := Scope.fits_vector_iff.mp clause
    apply (run_alongside h captures (parts predicate (by simp))).bindAny
    intro m value le
    have captures := v.captures_mono le captures
    split
    · exact run_alongside h captures ((parts expression (by simp)).mono le)
    · exact ih captures fun node mem => (others node mem).mono le
  | case3 other clauses notClause =>
    rw [runCases.eq_3 _ _ _ notClause]
    exact .fail _ _

theorem runUntil_alongside (h : v.Serves o e c.eval) (captures : v.Captures n c.frame)
    (wanted : Bool) {nodes : List Node} (fits : ∀ node ∈ nodes, v.Fits n node) :
    v.Alongside o n v.Fits ((c.ahead o e).runUntil wanted nodes) (c.runUntil wanted nodes) := by
  have truth (m : Nat) (b : Bool) : v.Fits m (.ofBool c.place b) := (v.hereditary m).atom _ _
  induction nodes generalizing n with
  | nil => exact .pureFits (truth n _)
  | cons node nodes ih =>
    obtain ⟨first, others⟩ := List.forall_mem_cons.mp fits
    apply (run_alongside h captures first).bindAny
    intro m value le
    split
    · exact .pureFits (truth m _)
    · exact ih (v.captures_mono le captures) fun node mem => (others node mem).mono le

/-- A condition, and what is run if it is true or false. -/
theorem branch_alongside (h : v.Serves o e c.eval) (captures : v.Captures n c.frame)
    {condition : Node} (fits : v.Fits n condition) {yes no yes' no' : Run Node}
    (hyes : ∀ m, n ≤ m → v.Alongside o m v.Fits yes yes')
    (hno : ∀ m, n ≤ m → v.Alongside o m v.Fits no no') :
    v.Alongside o n v.Fits (do if (← (c.ahead o e).run condition).isTruthy then yes else no)
      (do if (← c.run condition).isTruthy then yes' else no') := by
  apply (run_alongside h captures fits).bindAny
  intro m value le
  split
  · exact hyes m le
  · exact hno m le

/-- The bindings and the body of a `let` run in a frame of their own. -/
theorem letIn_alongside (h : v.Serves o e c.eval) (captures : v.Captures n c.frame)
    {pairs : List Node} (pairsFit : ∀ node ∈ pairs, v.Fits n node) {body : Node}
    (fits : v.Fits n body) :
    v.Alongside o n v.Fits
      (do
        let inner ← Run.updateStore (·.push c.frame "let")
        (c.ahead o e).bindPairs inner 0 pairs
        (c.ahead o e).runIn inner body)
      (do
        let inner ← Run.updateStore (·.push c.frame "let")
        c.bindPairs inner 0 pairs
        c.runIn inner body) := by
  apply (Invariant.alongside_push "let" captures).bind
  intro m inner le captures
  apply (bindPairs_alongside h captures 0 fun node mem => (pairsFit node mem).mono le).bindAny
  intro m' _ le'
  exact h (c.depth + 1) (v.captures_mono le' captures) (fits.mono (Nat.le_trans le le'))

/-- A form goes alongside itself, if its evaluators go alongside each other. -/
theorem form_alongside (h : v.Serves o e c.eval) (untimed : c.limits.budget = none ∨ o.steps = 0)
    (captures : v.Captures n c.frame) (f : Form) {operands : List Node}
    (fits : ∀ node ∈ operands, v.Fits n node) :
    v.Alongside o n v.Fits (f.run (c.ahead o e) operands) (f.run c operands) := by
  have runs {m : Nat} (le : n ≤ m) {node : Node} (mem : node ∈ operands) :
      v.Alongside o m v.Fits ((c.ahead o e).run node) (c.run node) :=
    run_alongside h (v.captures_mono le captures) ((fits node mem).mono le)
  unfold Form.run
  -- the cases are the equations of `Form.run`, in their order there
  split
  case h_1 => exact .pureFits (Scope.fits_quoted_iff.mpr (fits _ (by simp)))
  case h_2 =>
    exact (name_alongside _ _).bindAny fun _ _ le => (runs le (by simp)).bind
      fun _ _ _ fits => define_alongside _ fits
  case h_3 =>
    apply (runs (Nat.le_refl n) (by simp)).bindAny
    intro m target le
    have value := runs le (List.mem_cons_of_mem _ List.mem_cons_self)
    split
    · exact value.bind fun _ _ _ fits => define_alongside _ fits
    · exact value.bind fun _ _ _ fits => define_alongside _ fits
    · exact .fail _ _
  case h_4 =>
    apply (runs (Nat.le_refl n) (by simp)).bind
    intro m value le fits
    split
    · exact run_alongside h (v.captures_mono le captures) (Scope.fits_quoted_iff.mp fits)
    · exact .fail _ _
  case h_5 =>
    exact (runs (Nat.le_refl n) (by simp)).bind fun _ _ le fits =>
      unwrap_alongside h (v.captures_mono le captures) _ fits
  case h_6 => exact closure_alongside captures _ _ _ _ (fits _ (by simp))
  case h_7 =>
    exact (name_alongside _ _).bindAny fun _ _ le =>
      (closure_alongside (v.captures_mono le captures) _ _ _ _ ((fits _ (by simp)).mono le)).bind
        fun _ _ _ fits => define_alongside _ fits
  case h_8 =>
    exact (name_alongside _ _).bindAny fun _ _ le =>
      (closure_alongside (v.captures_mono le captures) _ _ _ _ ((fits _ (by simp)).mono le)).bind
        fun _ _ _ fits => define_alongside _ fits
  case h_9 =>
    have pairs := Scope.fits_vector_iff.mp (fits _ List.mem_cons_self)
    exact letIn_alongside h captures pairs (fits _ (by simp))
  case h_10 => exact .fail _ _
  case h_11 => exact runLast_alongside h captures Scope.fits_nil fits
  case h_12 => exact iterate_alongside h untimed captures fits _
  case h_13 => exact .raise Scope.fits_nil
  case h_14 => exact (runs (Nat.le_refl n) (by simp)).bind fun _ _ _ fits => .raise fits
  case h_15 => exact .raise Scope.fits_nil
  case h_16 => exact (runs (Nat.le_refl n) (by simp)).bind fun _ _ _ fits => .raise fits
  case h_17 =>
    exact branch_alongside h captures (fits _ (by simp)) (fun _ le => runs le (by simp))
      fun _ _ => .pureFits Scope.fits_nil
  case h_18 =>
    exact branch_alongside h captures (fits _ (by simp)) (fun _ le => runs le (by simp))
      fun _ le => runs le (by simp)
  case h_19 =>
    exact branch_alongside h captures (fits _ (by simp)) (fun _ le => runs le (by simp))
      fun _ _ => .pureFits Scope.fits_nil
  case h_20 => exact runCases_alongside h captures fits
  case h_21 => exact runUntil_alongside h captures false fits
  case h_22 => exact runUntil_alongside h captures true fits
  case h_23 => exact .fail _ _

end Call

/-! ### Evaluation -/

/-- What the function answers to arguments that fit a good store fits it. -/
def Invariant.AdmitsHost (v : Invariant) (host : Host) : Prop :=
  ∀ (s : Store) args node, v.Good s → (∀ a ∈ args, v.Fits s.frames.size a) →
    host args = .value node → v.Fits s.frames.size node

/-- How primitives are performed, at a place. -/
abbrev Performer := Primitive → List Node → Place → Run Node

/-- The way to perform makes no difference for arguments that a primitive of the scope
accepts. -/
def Invariant.Tolerates (v : Invariant) (i : Interpreter) (perform : Performer) : Prop :=
  ∀ p args place, v.Offers p → p.arity.accepts args.length = true →
    perform p args place = i.perform p args place

theorem Arity.yields_accepts (expected : Arity) (callee : String) (given : Nat) :
    Yields (fun _ => expected.accepts given = true) (expected.check callee given) := by
  unfold check
  split
  · assumption
  · rfl

namespace Interpreter

variable {i : Interpreter} {v : Invariant} {o : Lead} {n fuel : Nat} {e e' : Evaluator}
  {perform : Performer}

/-- Applies a head that has been evaluated, and performs primitives as told. -/
def applyWith (i : Interpreter) (perform : Performer) (fuel : Nat) (eval : Evaluator)
    (place : Place) (frame : FrameId) (depth : Nat) (head : Node) (callee : Node)
    (args : List Node) : Run Node :=
  match callee with
  | .primitive _ p => do
    let values ← evalAll eval frame (depth + 1) args
    Run.ofExcept place (p.arity.check p.name values.length)
    return (← perform p values place).moveTo place
  | other => i.apply fuel eval place frame depth head other args

/-- What evaluating a node does once its depth has been checked and its step counted, if
primitives are performed as told. -/
def visitWith (i : Interpreter) (perform : Performer) (fuel : Nat) (eval : Evaluator) :
    Evaluator :=
  fun node frame depth =>
    match node with
    | .call place (head :: args) => Run.traced place do
      let callee ← eval head frame (depth + 1)
      i.applyWith perform fuel eval place frame depth head callee args
    | other => i.visit fuel eval other frame depth

/-- Evaluates a node in a frame, at a depth, and performs primitives as told. -/
def evalWith (i : Interpreter) (perform : Performer) : (fuel : Nat) → Evaluator
  | 0 => fun _ _ _ => throw .outOfFuel
  | fuel + 1 => fun node frame depth => do
    if i.limits.depth ≤ depth then Run.fail (.depthExceeded i.limits.depth) node.place
    else
      Run.tick i.limits node.place
      i.visitWith perform fuel (i.evalWith perform fuel) node frame depth

theorem applyWith_perform (i : Interpreter) (fuel : Nat) (e : Evaluator) (place : Place)
    (frame : FrameId) (depth : Nat) (head callee : Node) (args : List Node) :
    i.applyWith i.perform fuel e place frame depth head callee args
      = i.apply fuel e place frame depth head callee args := by
  cases callee <;> rfl

theorem visitWith_perform (i : Interpreter) (fuel : Nat) (e : Evaluator) :
    i.visitWith i.perform fuel e = i.visit fuel e := by
  funext node frame depth
  unfold visitWith
  split
  · simp only [applyWith_perform]
    rfl
  · rfl

/-- Evaluation performs primitives in the way of the interpreter. -/
theorem evalWith_perform (i : Interpreter) (fuel : Nat) :
    i.evalWith i.perform fuel = i.evalAt fuel := by
  induction fuel with
  | zero => rfl
  | succ fuel ih =>
    rw [evalWith, ih, visitWith_perform]
    rfl

theorem perform_alongside (hosts : ∀ host ∈ i.hosts, v.AdmitsHost host) (p : Primitive)
    {args : List Node} (fits : ∀ a ∈ args, v.Fits n a) (place : Place) :
    v.Alongside o n v.Fits (i.perform p args place) (i.perform p args place) := by
  unfold Interpreter.perform
  split
  · rename_i op _
    apply (Invariant.Alongside.ofExcept place fun m le =>
      op.yields_value (v.hereditary m) fun a mem => (fits a mem).mono le).bind
    intro m node _ nodeFits
    exact (Invariant.Alongside.write (op.echo args)).bindAny fun _ _ le =>
      .pureFits (nodeFits.mono le)
  · split
    · exact .fail _ _
    · rename_i host found
      have admitted := hosts host (Array.mem_of_getElem? found)
      split
      · rename_i node replied
        intro w holds
        refine .ok rfl holds (admitted w.store args node holds.good ?_ replied)
        exact fun a mem => (fits a mem).mono holds.size_le
      · exact .fail _ _
      · exact .throw trivial

theorem evalAll_alongside (h : v.Serves o e e') {frame : FrameId} (captures : v.Captures n frame)
    (depth : Nat) {nodes : List Node} (fits : ∀ node ∈ nodes, v.Fits n node) :
    v.Alongside o n (fun m values => ∀ value ∈ values, v.Fits m value)
      (evalAll e frame (o.levels + depth) nodes) (evalAll e' frame depth nodes) := by
  unfold evalAll
  induction nodes generalizing n with
  | nil => exact .pure fun _ _ value mem => nomatch mem
  | cons node nodes ih =>
    obtain ⟨first, others⟩ := List.forall_mem_cons.mp fits
    rw [List.mapM_cons, List.mapM_cons]
    apply (h depth captures first).bind
    intro m value le valueFits
    apply (ih (v.captures_mono le captures) fun node mem => (others node mem).mono le).bind
    intro m' values le' valuesFit
    refine .pure fun l le'' => List.forall_mem_cons.mpr ⟨?_, ?_⟩
    · exact valueFits.mono (Nat.le_trans le' le'')
    · exact fun value mem => (valuesFit value mem).mono le''

theorem enter_alongside (h : v.Serves o e e') {l : Lambda} (captures : v.Captures n l.frame)
    {body : Node} (fits : v.Fits n body) {args : List Node} (argsFit : ∀ a ∈ args, v.Fits n a)
    (place : Place) (depth : Nat) :
    v.Alongside o n v.Fits (enter e l body args place (o.levels + depth))
      (enter e' l body args place depth) := by
  apply (Invariant.Alongside.ofExcept place fun _ _ => Arity.yields_check _ _ _).bindAny
  intro m _ le
  apply (Invariant.alongside_enter (v.captures_mono le captures) place
    fun a mem => (argsFit a mem).mono le).bind
  intro m' frame le' captures
  have fits := fits.mono (Nat.le_trans le le')
  apply (Invariant.Alongside.catching Signal.fault?_of_isReturn (h (depth + 1) captures fits)).bind
  intro m'' left _ fits
  cases left with
  | inl payload => exact .pureFits fits
  | inr value => exact .pureFits fits

/-- Applying what fits goes alongside itself, whichever way primitives are performed. -/
theorem apply_alongside (hosts : ∀ host ∈ i.hosts, v.AdmitsHost host)
    (tolerant : v.Tolerates i perform) (untimed : i.limits.budget = none ∨ o.steps = 0)
    (h : v.Serves o e e') {frame : FrameId} (captures : v.Captures n frame) (place : Place)
    (depth : Nat) (head : Node) {callee : Node} (fits : v.Fits n callee) {args : List Node}
    (argsFit : ∀ a ∈ args, v.Fits n a) :
    v.Alongside o n v.Fits (i.apply fuel e place frame (o.levels + depth) head callee args)
      (i.applyWith perform fuel e' place frame depth head callee args) := by
  cases callee with
  | form p f =>
    apply (Invariant.Alongside.ofExcept place fun _ _ => Arity.yields_check _ _ _).bindAny
    intro m _ le
    have captures := v.captures_mono le captures
    exact @Call.form_alongside ⟨place, frame, depth, i.limits, fuel, e'⟩ v o m e h untimed captures
      f args fun a mem => (argsFit a mem).mono le
  | closure p l body =>
    obtain ⟨capturesOwn, bodyFits⟩ := Scope.fits_closure_iff.mp fits
    unfold applyWith apply
    dsimp only
    split
    · apply (evalAll_alongside h captures (depth + 1) argsFit).bind
      intro m values le valuesFit
      exact enter_alongside h (v.captures_mono le capturesOwn) (bodyFits.mono le) valuesFit place
        depth
    · have quoted : ∀ a ∈ args.map Node.quote, v.Fits n a := by
        intro a mem
        obtain ⟨node, isArg, rfl⟩ := List.mem_map.mp mem
        exact (argsFit node isArg).quote
      apply (enter_alongside h capturesOwn bodyFits quoted place depth).bind
      intro m expansion le expansionFits
      exact h (depth + 1) (v.captures_mono le captures) expansionFits
  | primitive p value =>
    apply (evalAll_alongside h captures (depth + 1) argsFit).bind
    intro m values le valuesFit
    apply (Invariant.Alongside.ofExcept place fun _ _ => Arity.yields_accepts _ _ _).bind
    intro m' _ le' accepted
    rw [tolerant value values place (Scope.fits_primitive_iff.mp fits) accepted]
    apply (perform_alongside hosts value (fun a mem => (valuesFit a mem).mono le') place).bind
    intro m'' node _ nodeFits
    exact .pureFits ((v.hereditary m'').moveTo place nodeFits)
  | _ => exact .fail _ _

theorem visit_alongside (hosts : ∀ host ∈ i.hosts, v.AdmitsHost host)
    (tolerant : v.Tolerates i perform) (untimed : i.limits.budget = none ∨ o.steps = 0)
    (h : v.Serves o e e') : v.Serves o (i.visit fuel e) (i.visitWith perform fuel e') := by
  intro n node frame depth captures fits
  cases node with
  | symbol place name => exact .lookup place frame name
  | vector place nodes =>
    apply (evalAll_alongside h captures (depth + 1) (Scope.fits_vector_iff.mp fits)).bind
    intro m values le valuesFit
    exact .pureFits (Scope.fits_vector_iff.mpr valuesFit)
  | call place items =>
    cases items with
    | nil => exact .fail _ _
    | cons head args =>
      obtain ⟨headFits, argsFit⟩ := List.forall_mem_cons.mp (Scope.fits_call_iff.mp fits)
      apply Invariant.Alongside.traced
      apply (h (depth + 1) captures headFits).bind
      intro m callee le calleeFits
      exact apply_alongside hosts tolerant untimed h (v.captures_mono le captures) place depth head
        calleeFits fun a mem => (argsFit a mem).mono le
  | _ => exact .pureFits fits

/-- Evaluating what fits, in a good store, goes alongside itself: from a later count of
steps, unless there is a budget, and whichever way primitives are performed. -/
theorem evalAt_alongside (hosts : ∀ host ∈ i.hosts, v.AdmitsHost host)
    (tolerant : v.Tolerates i perform) (untimed : i.limits.budget = none ∨ o.steps = 0)
    (fuel : Nat) : v.Serves o (i.evalAt fuel) (i.evalWith perform fuel) := by
  induction fuel with
  | zero =>
    intro n node frame depth captures fits
    exact .throw trivial
  | succ fuel ih =>
    intro n node frame depth captures fits
    apply Invariant.Alongside.guard i.limits depth node.place
    apply (Invariant.Alongside.tick untimed node.place).bindAny
    intro m _ le
    exact visit_alongside hosts tolerant untimed ih depth (v.captures_mono le captures)
      (fits.mono le)

/-- Evaluation goes alongside itself. -/
theorem evalAt_serves (hosts : ∀ host ∈ i.hosts, v.AdmitsHost host)
    (untimed : i.limits.budget = none ∨ o.steps = 0) (fuel : Nat) :
    v.Serves o (i.evalAt fuel) (i.evalAt fuel) := by
  have own : v.Tolerates i i.perform := fun _ _ _ _ _ => rfl
  have serves : v.Serves o (i.evalAt fuel) (i.evalWith i.perform fuel) :=
    evalAt_alongside hosts own untimed fuel
  rwa [evalWith_perform] at serves

theorem expander?_eq_some {store : Store} {frame : FrameId} {head : Node} {l : Lambda} {body : Node}
    (h : expander? store frame head = some (l, body)) :
    ∃ name p, store.find? frame name = some (.closure p l body) := by
  unfold expander? at h
  split at h
  · rename_i q name
    split at h
    · rename_i p l body found
      split at h
      · cases h
        exact ⟨name, p, found⟩
      · cases h
    · cases h
  · cases h

/-- Expanding is entering the expander that the store has for the head, if it has one. -/
theorem expand_call (i : Interpreter) (fuel : Nat) (frame : FrameId) (place : Place) (head : Node)
    (args : List Node) (w : World) :
    i.expand fuel frame (.call place (head :: args)) w =
      match expander? w.store frame head with
      | some (l, body) =>
        Run.traced place (enter (i.evalAt fuel) l body (args.map .quote) place 0) w
      | none => .ok (.call place (head :: args)) w := by
  show (match expander? w.store frame head with
    | some (l, body) => Run.traced place (enter (i.evalAt fuel) l body (args.map .quote) place 0)
    | none => pure (.call place (head :: args)) : Run Node) w = _
  cases expander? w.store frame head <;> rfl

/-- Expanding what fits goes alongside itself. -/
theorem expand_alongside (hosts : ∀ host ∈ i.hosts, v.AdmitsHost host) (fuel : Nat)
    {frame : FrameId} {node : Node} (fits : v.Fits n node) :
    v.Alongside {} n v.Fits (i.expand fuel frame node) (i.expand fuel frame node) := by
  cases node with
  | call place items =>
    cases items with
    | nil => exact .pureFits fits
    | cons head args =>
      intro w holds
      rw [World.later_zero, expand_call]
      have fits := fits.mono holds.size_le
      have argsFit := (List.forall_mem_cons.mp (Scope.fits_call_iff.mp fits)).2
      have quoted : ∀ a ∈ args.map Node.quote, v.Fits w.store.frames.size a := by
        intro a mem
        obtain ⟨node, isArg, rfl⟩ := List.mem_map.mp mem
        exact (argsFit node isArg).quote
      cases found : expander? w.store frame head with
      | none => exact .ok rfl holds fits
      | some expander =>
        obtain ⟨l, body⟩ := expander
        obtain ⟨name, p, bound⟩ := expander?_eq_some found
        obtain ⟨captures, bodyFits⟩ := Scope.fits_closure_iff.mp (v.find holds.good bound)
        have serves : v.Serves {} (i.evalAt fuel) (i.evalAt fuel) :=
          evalAt_serves hosts (.inr rfl) fuel
        have entered := enter_alongside serves captures bodyFits quoted place 0
        exact ((entered.traced place) w ⟨holds.good, Nat.le_refl _⟩).mono holds.size_le
  | _ => exact .pureFits fits

end Interpreter

end Sexpr
