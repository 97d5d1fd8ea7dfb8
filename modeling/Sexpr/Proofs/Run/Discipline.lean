/-
Disciplines: relations between runs that evaluation respects.

Two interpreters may differ in their limits and in their fuel. A `Discipline`
relates a run of the one to a run of the other, given the frame that the run may
write to, and is closed under every way in which evaluation composes runs. What
evaluation does is gone through here once, form by form and then for a whole step.
Main statement: `Interpreter.evalAt_holds`, every discipline holds between the two
evaluators.
-/

import Sexpr.Run.Eval

namespace Sexpr

namespace Run

variable {α : Type}

/-- The world in which a run ends, with a result or without. -/
def final (x : Run α) (w : World) : World :=
  match x w with
  | .ok _ w => w
  | .error _ w => w

/-- The run leaves all frames as they are. -/
def Still (x : Run α) : Prop :=
  ∀ w, (x.final w).store.frames = w.store.frames

theorem still_pure (a : α) : Still (pure a : Run α) := fun _ => rfl

theorem still_throw (stop : Stop) : Still (throw stop : Run α) := fun _ => rfl

theorem still_fail (fault : Fault) (origin : Place) : Still (fail fault origin : Run α) :=
  still_throw _

theorem still_ofExcept (origin : Place) (x : Except Fault α) : Still (ofExcept origin x) := by
  cases x with
  | ok a => exact still_pure a
  | error fault => exact still_fail fault origin

theorem still_write (s : String) : Still (write s) := fun _ => rfl

theorem still_get : Still (get : Run World) := fun _ => rfl

/-- Taking a serial number changes no frame. -/
theorem still_serial : Still (updateStore fun s => (s.serial, { s with serial := s.serial + 1 })) :=
  fun _ => rfl

end Run

/-- What makes a new frame and leaves the others as they are. -/
def Store.MakesFrame (make : Store → FrameId × Store) : Prop :=
  ∀ s, (make s).1 = s.frames.size ∧ s.frames.size < (make s).2.frames.size ∧
    ∀ id < s.frames.size, (make s).2.frame id = s.frame id

namespace Store

theorem makesFrame_push (parent : FrameId) (name : String) : MakesFrame (·.push parent name) := by
  intro s
  exact ⟨rfl, by simp [push], fun id old => frame_push_of_lt name old⟩

@[simp] theorem size_define (s : Store) (id : FrameId) (name : String) (node : Node) :
    (s.define id name node).frames.size = s.frames.size :=
  size_update s id _

theorem size_defineAll (s : Store) (id : FrameId) (bindings : Bindings) :
    (s.defineAll id bindings).frames.size = s.frames.size := by
  induction bindings generalizing s with
  | nil => rfl
  | cons binding bindings ih => exact (ih _).trans (size_define s id _ _)

theorem frame_defineAll_of_ne {s : Store} {id other : FrameId} (bindings : Bindings)
    (h : other ≠ id) : (s.defineAll id bindings).frame other = s.frame other := by
  induction bindings generalizing s with
  | nil => rfl
  | cons binding bindings ih => exact ih.trans (frame_update_of_ne _ h)

theorem makesFrame_enter (l : Lambda) (p : Place) (args : List Node) :
    MakesFrame (·.enter l p args) := by
  intro s
  obtain ⟨number, larger, old⟩ := makesFrame_push l.frame l.name s
  refine ⟨number, ?_, ?_⟩
  · exact Nat.lt_of_lt_of_eq larger (size_defineAll _ _ _).symm
  · intro id h
    exact (frame_defineAll_of_ne _ (number ▸ Nat.ne_of_lt h)).trans (old id h)

end Store

/-- A relation between the runs of two interpreters with different limits. `Holds`
is given the frame in which the runs take place. -/
structure Discipline (limits limits' : Limits) where
  Holds : {α : Type} → FrameId → Run α → Run α → Prop
  still : ∀ {α : Type} {x : Run α} (frame : FrameId), x.Still → Holds frame x x
  define : ∀ (frame : FrameId) (name : String) (value : Node),
    Holds frame (Run.modifyStore (·.define frame name value))
      (Run.modifyStore (·.define frame name value))
  tick : ∀ (frame : FrameId) (p : Place), Holds frame (Run.tick limits p) (Run.tick limits' p)
  guard : ∀ {α : Type} {frame : FrameId} {x y : Run α} (depth : Nat) (p : Place), Holds frame x y →
    Holds frame
      (if limits.depth ≤ depth then Run.fail (.depthExceeded limits.depth) p else x)
      (if limits'.depth ≤ depth then Run.fail (.depthExceeded limits'.depth) p else y)
  bind : ∀ {α β : Type} {frame : FrameId} {x y : Run α} {f g : α → Run β}, Holds frame x y →
    (∀ a, Holds frame (f a) (g a)) → Holds frame (x >>= f) (y >>= g)
  traced : ∀ {α : Type} {frame : FrameId} {x y : Run α} (p : Place), Holds frame x y →
    Holds frame (x.traced p) (y.traced p)
  /-- Only signals that are not faults may be caught. -/
  catching : ∀ {α : Type} {frame : FrameId} {x y : Run α} {caught : Signal → Bool},
    (∀ s, caught s = true → s.fault? = none) → Holds frame x y →
    Holds frame (x.catching caught) (y.catching caught)
  /-- A run in a new frame is a run in any frame. -/
  scope : ∀ {α : Type} {make : Store → FrameId × Store} {f g : FrameId → Run α} (frame : FrameId),
    Store.MakesFrame make → (∀ inner, Holds inner (f inner) (g inner)) →
    Holds frame (Run.updateStore make >>= f) (Run.updateStore make >>= g)
  /-- The second run has at least the fuel of the first. -/
  outOfFuel : ∀ {α : Type} (frame : FrameId) (y : Run α), Holds frame (throw .outOfFuel) y

theorem Signal.fault?_of_isBreak (s : Signal) (h : s.isBreak = true) : s.fault? = none := by
  unfold isBreak at h
  split at h
  · rename_i leaves
    simp [fault?, leaves]
  · cases h

theorem Signal.fault?_of_isReturn (s : Signal) (h : s.isReturn = true) : s.fault? = none := by
  unfold isReturn at h
  split at h
  · rename_i leaves
    simp [fault?, leaves]
  · cases h

namespace Discipline

variable {limits limits' : Limits}

/-- The discipline holds between two evaluators at every node, frame and depth. -/
def Relates (d : Discipline limits limits') (e e' : Evaluator) : Prop :=
  ∀ node frame depth, d.Holds frame (e node frame depth) (e' node frame depth)

theorem pure (d : Discipline limits limits') {α : Type} (frame : FrameId) (a : α) :
    d.Holds frame (Pure.pure a) (Pure.pure a) :=
  d.still frame (Run.still_pure a)

theorem fail (d : Discipline limits limits') {α : Type} (frame : FrameId) (fault : Fault)
    (origin : Place) :
    d.Holds frame (Run.fail fault origin : Run α) (Run.fail fault origin) :=
  d.still frame (Run.still_fail fault origin)

theorem ofExcept (d : Discipline limits limits') {α : Type} (frame : FrameId) (origin : Place)
    (x : Except Fault α) : d.Holds frame (Run.ofExcept origin x) (Run.ofExcept origin x) :=
  d.still frame (Run.still_ofExcept origin x)

end Discipline

/-! ### Forms -/

namespace Call

/-- The call as the other interpreter makes it. -/
def moved (c : Call) (limits : Limits) (fuel : Nat) (e : Evaluator) : Call :=
  { c with limits := limits, fuel := fuel, eval := e }

variable {c : Call} {limits : Limits} {d : Discipline c.limits limits} {e : Evaluator} {n : Nat}

theorem run_holds (h : d.Relates c.eval e) (node : Node) :
    d.Holds c.frame (c.run node) ((c.moved limits n e).run node) :=
  h node c.frame (c.depth + 1)

theorem runAll_holds (h : d.Relates c.eval e) (nodes : List Node) :
    d.Holds c.frame (c.runAll nodes) ((c.moved limits n e).runAll nodes) := by
  induction nodes with
  | nil => exact d.pure _ _
  | cons node nodes ih => exact d.bind (run_holds h node) fun _ => ih

theorem define_holds (d : Discipline c.limits limits) (name : String) (value : Node) :
    d.Holds c.frame (c.define name value) ((c.moved limits n e).define name value) :=
  d.bind (d.define c.frame name value) fun _ => d.pure _ _

theorem name_holds (d : Discipline c.limits limits) (f : Form) (node : Node) :
    d.Holds c.frame (c.name f node) ((c.moved limits n e).name f node) := by
  cases node with
  | symbol p name => exact d.pure _ _
  | _ => exact d.fail _ _ _

theorem closure_holds (d : Discipline c.limits limits) (f : Form) (kind : ClosureKind)
    (name : String) (params body : Node) :
    d.Holds c.frame (c.closure f kind name params body)
      ((c.moved limits n e).closure f kind name params body) :=
  d.bind (d.ofExcept _ _ _) fun _ => d.bind (d.still _ Run.still_serial) fun _ => d.pure _ _

theorem bindPairs_holds (h : d.Relates c.eval e) (frame : FrameId) (index : Nat)
    (pairs : List Node) :
    d.Holds frame (c.bindPairs frame index pairs)
      ((c.moved limits n e).bindPairs frame index pairs) := by
  fun_induction c.bindPairs frame index pairs with
  | case1 => exact d.pure _ _
  | case2 index p q name value pairs ih =>
    apply d.bind (h value frame (c.depth + 1))
    intro value
    exact d.bind (d.define frame name value) fun _ => ih
  | case3 index p other value pairs notSymbol =>
    rw [bindPairs.eq_3 _ _ _ _ _ _ _ notSymbol]
    exact d.fail _ _ _
  | case4 index other pairs notPair notVector =>
    rw [bindPairs.eq_4 _ _ _ _ _ notPair notVector]
    exact d.fail _ _ _

/-- The bindings and the body of a `let` run in a frame of their own. -/
theorem letIn_holds (h : d.Relates c.eval e) (frame : FrameId) (pairs : List Node) (body : Node) :
    d.Holds frame
      (do
        let inner ← Run.updateStore (·.push c.frame "let")
        c.bindPairs inner 0 pairs
        c.runIn inner body)
      (do
        let inner ← Run.updateStore (·.push c.frame "let")
        (c.moved limits n e).bindPairs inner 0 pairs
        (c.moved limits n e).runIn inner body) := by
  apply d.scope frame (Store.makesFrame_push c.frame "let")
  intro inner
  exact d.bind (bindPairs_holds h inner 0 pairs) fun _ => h body inner (c.depth + 1)

theorem unwrap_holds (h : d.Relates c.eval e) {fuel fuel' : Nat} (le : fuel ≤ fuel')
    (node : Node) :
    d.Holds c.frame (c.unwrap fuel node) ((c.moved limits n e).unwrap fuel' node) := by
  induction fuel generalizing fuel' node with
  | zero => exact d.outOfFuel _ _
  | succ fuel ih =>
    obtain ⟨fuel', rfl⟩ : ∃ k, fuel' = k + 1 := ⟨fuel' - 1, by omega⟩
    cases node with
    | quoted p inner =>
      apply d.bind (run_holds h inner)
      intro next
      split
      · exact d.pure _ _
      · exact ih (by omega) next
    | _ => exact d.pure _ _

theorem iterate_holds (h : d.Relates c.eval e) (body : List Node) {fuel fuel' : Nat}
    (le : fuel ≤ fuel') :
    d.Holds c.frame (c.iterate body fuel) ((c.moved limits n e).iterate body fuel') := by
  induction fuel generalizing fuel' with
  | zero => exact d.outOfFuel _ _
  | succ fuel ih =>
    obtain ⟨fuel', rfl⟩ : ∃ k, fuel' = k + 1 := ⟨fuel' - 1, by omega⟩
    apply d.bind (d.tick _ _)
    intro _
    apply d.bind (d.catching Signal.fault?_of_isBreak (runAll_holds h body))
    intro left
    cases left with
    | inl payload => exact d.pure _ _
    | inr _ => exact ih (by omega)

theorem runLast_holds (h : d.Relates c.eval e) (last : Node) (nodes : List Node) :
    d.Holds c.frame (c.runLast last nodes) ((c.moved limits n e).runLast last nodes) := by
  induction nodes generalizing last with
  | nil => exact d.pure _ _
  | cons node nodes ih => exact d.bind (run_holds h node) ih

theorem runCases_holds (h : d.Relates c.eval e) (clauses : List Node) :
    d.Holds c.frame (c.runCases clauses) ((c.moved limits n e).runCases clauses) := by
  fun_induction c.runCases clauses with
  | case1 => exact d.pure _ _
  | case2 p predicate expression clauses ih =>
    apply d.bind (run_holds h predicate)
    intro value
    split
    · exact run_holds h expression
    · exact ih
  | case3 other clauses notClause =>
    rw [runCases.eq_3 _ _ _ notClause]
    exact d.fail _ _ _

theorem runUntil_holds (h : d.Relates c.eval e) (wanted : Bool) (nodes : List Node) :
    d.Holds c.frame (c.runUntil wanted nodes) ((c.moved limits n e).runUntil wanted nodes) := by
  induction nodes with
  | nil => exact d.pure _ _
  | cons node nodes ih =>
    apply d.bind (run_holds h node)
    intro value
    split
    · exact d.pure _ _
    · exact ih

/-- A condition, and what is run if it is true or false. -/
theorem branch_holds (h : d.Relates c.eval e) (condition : Node) {yes no yes' no' : Run Node}
    (hyes : d.Holds c.frame yes yes') (hno : d.Holds c.frame no no') :
    d.Holds c.frame (do if (← c.run condition).isTruthy then yes else no)
      (do if (← (c.moved limits n e).run condition).isTruthy then yes' else no') := by
  apply d.bind (run_holds h condition)
  intro value
  split
  · exact hyes
  · exact hno

/-- A form passes on what holds of its evaluator. -/
theorem form_holds (h : d.Relates c.eval e) (le : c.fuel ≤ n) (f : Form) (operands : List Node) :
    d.Holds c.frame (f.run c operands) (f.run (c.moved limits n e) operands) := by
  unfold Form.run
  -- the cases are the equations of `Form.run`, in their order there
  split
  case h_1 => exact d.pure _ _
  case h_2 =>
    exact d.bind (name_holds d _ _) fun _ => d.bind (run_holds h _) fun _ => define_holds d _ _
  case h_3 =>
    apply d.bind (run_holds h _)
    intro target
    split
    · exact d.bind (run_holds h _) fun _ => define_holds d _ _
    · exact d.bind (run_holds h _) fun _ => define_holds d _ _
    · exact d.fail _ _ _
  case h_4 =>
    apply d.bind (run_holds h _)
    intro value
    split
    · exact run_holds h _
    · exact d.fail _ _ _
  case h_5 => exact d.bind (run_holds h _) fun value => unwrap_holds h le value
  case h_6 => exact closure_holds d _ _ _ _ _
  case h_7 =>
    exact d.bind (name_holds d _ _) fun _ =>
      d.bind (closure_holds d _ _ _ _ _) fun _ => define_holds d _ _
  case h_8 =>
    exact d.bind (name_holds d _ _) fun _ =>
      d.bind (closure_holds d _ _ _ _ _) fun _ => define_holds d _ _
  case h_9 => exact letIn_holds h c.frame _ _
  case h_10 => exact d.fail _ _ _
  case h_11 => exact runLast_holds h _ _
  case h_12 => exact iterate_holds h _ le
  case h_13 => exact d.still _ (Run.still_throw _)
  case h_14 => exact d.bind (run_holds h _) fun _ => d.still _ (Run.still_throw _)
  case h_15 => exact d.still _ (Run.still_throw _)
  case h_16 => exact d.bind (run_holds h _) fun _ => d.still _ (Run.still_throw _)
  case h_17 => exact branch_holds h _ (run_holds h _) (d.pure _ _)
  case h_18 => exact branch_holds h _ (run_holds h _) (run_holds h _)
  case h_19 => exact branch_holds h _ (run_holds h _) (d.pure _ _)
  case h_20 => exact runCases_holds h _
  case h_21 => exact runUntil_holds h false _
  case h_22 => exact runUntil_holds h true _
  case h_23 => exact d.fail _ _ _

end Call

/-! ### Evaluation -/

namespace Interpreter

/-- The interpreter with other limits. -/
def withLimits (i : Interpreter) (limits : Limits) : Interpreter :=
  { i with limits := limits }

variable {i : Interpreter} {limits : Limits} {d : Discipline i.limits limits} {e e' : Evaluator}

theorem perform_holds (d : Discipline i.limits limits) (frame : FrameId) (p : Primitive)
    (args : List Node) (place : Place) :
    d.Holds frame (i.perform p args place) ((i.withLimits limits).perform p args place) := by
  unfold perform
  split
  · apply d.bind (d.ofExcept _ _ _)
    intro node
    exact d.bind (d.still _ (Run.still_write _)) fun _ => d.pure _ _
  · dsimp only [withLimits]
    split
    · exact d.fail _ _ _
    · split
      · exact d.pure _ _
      · exact d.fail _ _ _
      · exact d.still _ (Run.still_throw _)

theorem evalAll_holds (h : d.Relates e e') (frame : FrameId) (depth : Nat) (nodes : List Node) :
    d.Holds frame (evalAll e frame depth nodes) (evalAll e' frame depth nodes) := by
  unfold evalAll
  induction nodes with
  | nil => exact d.pure _ _
  | cons node nodes ih =>
    simp only [List.mapM_cons]
    exact d.bind (h node frame depth) fun _ => d.bind ih fun _ => d.pure _ _

/-- The body of a call runs in a frame of its own. -/
theorem enter_holds (h : d.Relates e e') (frame : FrameId) (l : Lambda) (body : Node)
    (args : List Node) (place : Place) (depth : Nat) :
    d.Holds frame (enter e l body args place depth) (enter e' l body args place depth) := by
  apply d.bind (d.ofExcept _ _ _)
  intro _
  apply d.scope frame (Store.makesFrame_enter l place args)
  intro inner
  apply d.bind (d.catching Signal.fault?_of_isReturn (h body inner (depth + 1)))
  intro left
  cases left <;> exact d.pure _ _

theorem apply_holds (h : d.Relates e e') {n n' : Nat} (le : n ≤ n') (place : Place)
    (frame : FrameId) (depth : Nat) (head callee : Node) (args : List Node) :
    d.Holds frame (i.apply n e place frame depth head callee args)
      ((i.withLimits limits).apply n' e' place frame depth head callee args) := by
  unfold apply
  split
  · apply d.bind (d.ofExcept _ _ _)
    intro _
    exact @Call.form_holds ⟨place, frame, depth, i.limits, n, e⟩ limits d e' n' h le _ args
  · split
    · exact d.bind (evalAll_holds h frame (depth + 1) args) fun _ => enter_holds h frame _ _ _ _ _
    · exact d.bind (enter_holds h frame _ _ _ _ _) fun expansion => h expansion frame (depth + 1)
  · apply d.bind (evalAll_holds h frame (depth + 1) args)
    intro values
    apply d.bind (d.ofExcept _ _ _)
    intro _
    exact d.bind (perform_holds d frame _ _ _) fun _ => d.pure _ _
  · exact d.fail _ _ _

theorem step_holds (h : d.Relates e e') {n n' : Nat} (le : n ≤ n') :
    d.Relates (i.step n e) ((i.withLimits limits).step n' e') := by
  intro node frame depth
  apply d.guard depth node.place
  apply d.bind (d.tick _ _)
  intro _
  split
  · exact d.bind (d.still _ Run.still_get) fun _ => d.ofExcept _ _ _
  · exact d.bind (evalAll_holds h frame (depth + 1) _) fun _ => d.pure _ _
  · exact d.fail _ _ _
  · exact d.traced _ (d.bind (h _ frame (depth + 1)) fun callee =>
      apply_holds h le _ frame depth _ callee _)
  · exact d.pure _ _

/-- Every discipline holds between the evaluators, if the second has no less fuel. -/
theorem evalAt_holds (d : Discipline i.limits limits) {n n' : Nat} (le : n ≤ n') :
    d.Relates (i.evalAt n) ((i.withLimits limits).evalAt n') := by
  induction n generalizing n' with
  | zero =>
    intro node frame depth
    exact d.outOfFuel frame _
  | succ n ih =>
    obtain ⟨n', rfl⟩ : ∃ k, n' = k + 1 := ⟨n' - 1, by omega⟩
    exact step_holds (ih (by omega)) (by omega)

end Interpreter

end Sexpr
