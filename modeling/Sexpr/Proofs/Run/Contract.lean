/-
Contracts: what evaluation asks of nodes and worlds, and what it gives in return.

A `Vocabulary` says which nodes may be evaluated and which are values. A `Contract`
adds which worlds evaluation may start from and how it may stop. A run keeps the
contract (`Contract.Keeps`) if from a good world it ends in a good world with a fitting
result, or stops as agreed. What evaluation does is gone through here once, form by
form, up to `Interpreter.visit_keeps`: if evaluating keeps the contract one level
further down, then so does visiting a node. Whoever applies a contract has to deal
with the checks of the limits and with the two forms that repeat themselves, since
these are where the contracts differ.
-/

import Sexpr.Proofs.Operation.Results

namespace Sexpr

/-- The stop is the given fault. -/
def Stop.isFault (fault : Fault) : Stop → Bool
  | .raised s => decide (s.fault? = some fault)
  | _ => false

namespace Run

variable {α : Type}

/-- The run ends, with a result or without, before its fuel does. -/
def ends (x : Run α) (w : World) : Bool :=
  match x w with
  | .error .outOfFuel _ => false
  | _ => true

/-- The run ends with the given fault. -/
def raises (fault : Fault) (x : Run α) (w : World) : Bool :=
  match x w with
  | .error stop _ => stop.isFault fault
  | .ok _ _ => false

end Run

/-- The node stands for itself: it is neither looked up nor applied nor taken apart. -/
def Node.isConstant : Node → Bool
  | .symbol _ _ | .call _ _ | .vector _ _ => false
  | _ => true

/-- Which nodes evaluation may be given, and which ones it gives. -/
structure Vocabulary where
  Code : Node → Prop
  Value : Node → Prop
  hereditary : Node.Hereditary Value
  /-- What an expander returns is evaluated. -/
  code_of_value : ∀ {n}, Value n → Code n
  value_of_isConstant : ∀ {n}, Code n → n.isConstant = true → Value n
  code_of_call : ∀ {p ns}, Code (.call p ns) → ∀ n ∈ ns, Code n
  code_of_vector : ∀ {p ns}, Code (.vector p ns) → ∀ n ∈ ns, Code n
  value_quoted_iff : ∀ {p n}, Value (.quoted p n) ↔ Code n
  value_closure_iff : ∀ {p l body}, Value (.closure p l body) ↔ Code body

structure Contract extends Vocabulary where
  /-- The worlds that evaluation may start from and ends in. -/
  Good : World → Prop
  /-- How evaluation may stop, and in which world. -/
  Ends : Stop → World → Prop
  find : ∀ {w frame name v}, Good w → w.store.find? frame name = some v → Value v
  define : ∀ {w} (frame : FrameId) (name : String) {v}, Good w → Value v →
    Good { w with store := w.store.define frame name v }
  push : ∀ {w} (parent : FrameId) (name : String), Good w →
    Good { w with store := (w.store.push parent name).2 }
  number : ∀ {w}, Good w → Good { w with store := { w.store with serial := w.store.serial + 1 } }
  write : ∀ {w} (s : String), Good w → Good { w with output := w.output ++ s }
  fault : ∀ {w} {fault : Fault} (p : Place), Good w → fault.isLimit = false →
    Ends (.raised (.ofFault fault p)) w
  leave : ∀ {w} {s : Signal}, Good w → s.fault? = none → Value s.payload → Ends (.raised s) w
  through : ∀ {w s} (p : Place), Ends (.raised s) w → Ends (.raised (s.through p)) w
  caught : ∀ {w s}, Ends (.raised s) w → s.fault? = none → Good w ∧ Value s.payload

namespace Contract

variable {α β : Type} {k : Contract} {Q : α → Prop}

/-- From a good world the run ends in a good world, with a result that fits, or stops
as the contract allows. -/
def Keeps (k : Contract) (Q : α → Prop) (x : Run α) : Prop :=
  ∀ w, k.Good w →
    match x w with
    | .ok a w' => k.Good w' ∧ Q a
    | .error stop w' => k.Ends stop w'

/-- Evaluation at the given depth keeps the contract. -/
def Serves (k : Contract) (e : Evaluator) (depth : Nat) : Prop :=
  ∀ {node} (frame : FrameId), k.Code node → k.Keeps k.Value (e node frame depth)

/-- Some value is the special form. -/
def Speaks (k : Contract) (f : Form) : Prop :=
  ∃ p, k.Value (.form p f)

namespace Keeps

theorem pure {a : α} (h : Q a) : k.Keeps Q (Pure.pure a) :=
  fun _ good => ⟨good, h⟩

theorem bind {x : Run α} {f : α → Run β} {R : β → Prop} (h : k.Keeps Q x)
    (next : ∀ a, Q a → k.Keeps R (f a)) : k.Keeps R (x >>= f) := by
  intro w good
  have first := h w good
  simp only [Bind.bind, EStateM.bind]
  cases ended : x w with
  | ok a w' =>
    rw [ended] at first
    exact next a first.2 w' first.1
  | error stop w' =>
    rw [ended] at first
    exact first

/-- A run whose result does not matter. -/
theorem bindAny {x : Run α} {f : α → Run β} {R : β → Prop} (h : k.Keeps Q x)
    (next : ∀ a, k.Keeps R (f a)) : k.Keeps R (x >>= f) :=
  h.bind fun a _ => next a

theorem fail {fault : Fault} (p : Place) (h : fault.isLimit = false) :
    k.Keeps Q (Run.fail fault p) :=
  fun _ good => k.fault p good h

theorem ofExcept {x : Except Fault α} (p : Place) (h : Yields Q x) :
    k.Keeps Q (Run.ofExcept p x) := by
  cases x with
  | ok a => exact pure h
  | error fault => exact fail p h

theorem raise {s : Signal} (isFault : s.fault? = none) (h : k.Value s.payload) :
    k.Keeps Q (Run.raise s) :=
  fun _ good => k.leave good isFault h

theorem write (s : String) : k.Keeps (fun _ => True) (Run.write s) :=
  fun _ good => ⟨k.write s good, trivial⟩

theorem modifyDefine (frame : FrameId) (name : String) {v : Node} (h : k.Value v) :
    k.Keeps (fun _ => True) (Run.modifyStore (·.define frame name v)) :=
  fun _ good => ⟨k.define frame name good h, trivial⟩

theorem traced {x : Run α} (p : Place) (h : k.Keeps Q x) : k.Keeps Q (x.traced p) := by
  intro w good
  have inner := h w good
  unfold Run.traced
  cases ended : x w with
  | ok a w' =>
    rw [ended] at inner
    exact inner
  | error stop w' =>
    rw [ended] at inner
    cases stop with
    | raised s => exact k.through p inner
    | _ => exact inner

/-- What is caught carries a value; what is not is passed on. -/
theorem catching {x : Run α} {caught : Signal → Bool}
    (spares : ∀ s, caught s = true → s.fault? = none) (h : k.Keeps Q x) :
    k.Keeps (fun left => Sum.elim k.Value Q left) (x.catching caught) := by
  intro w good
  have inner := h w good
  unfold Run.catching
  cases ended : x w with
  | ok a w' =>
    rw [ended] at inner
    exact inner
  | error stop w' =>
    rw [ended] at inner
    cases stop with
    | raised s =>
      dsimp only
      by_cases isCaught : caught s = true
      · rw [if_pos isCaught]
        exact k.caught inner (spares s isCaught)
      · rw [if_neg isCaught]
        exact inner
    | _ => exact inner

end Keeps

theorem good_defineAll {w : World} (frame : FrameId) (bindings : Bindings) (good : k.Good w)
    (h : ∀ entry ∈ bindings, k.Value entry.2) :
    k.Good { w with store := w.store.defineAll frame bindings } := by
  induction bindings generalizing w with
  | nil => exact good
  | cons entry bindings ih =>
    exact ih (k.define frame entry.1 good (h entry List.mem_cons_self))
      fun other mem => h other (List.mem_cons_of_mem entry mem)

theorem value_of_mem_bindings {params : Params} {p : Place} {args : List Node}
    (h : ∀ a ∈ args, k.Value a) : ∀ entry ∈ params.bindings p args, k.Value entry.2 := by
  have positional : ∀ entry ∈ params.names.zip args, k.Value entry.2 :=
    fun entry mem => h entry.2 (List.of_mem_zip mem).2
  unfold Params.bindings
  dsimp only
  split
  · intro entry mem
    rcases List.mem_append.mp mem with mem | mem
    · exact positional entry mem
    · rw [List.mem_singleton.mp mem]
      exact (k.hereditary.vector p _).mpr fun a mem => h a (List.mem_of_mem_drop mem)
  · exact positional

/-- A call starts in a new frame that binds its arguments. -/
theorem keeps_enter (l : Lambda) (p : Place) {args : List Node} (h : ∀ a ∈ args, k.Value a) :
    k.Keeps (fun _ => True) (Run.updateStore (·.enter l p args)) :=
  fun _ good => ⟨good_defineAll _ _ (k.push l.frame l.name good) (value_of_mem_bindings h), trivial⟩

theorem keeps_push (parent : FrameId) (name : String) :
    k.Keeps (fun _ => True) (Run.updateStore (·.push parent name)) :=
  fun _ good => ⟨k.push parent name good, trivial⟩

end Contract

/-! ### Forms -/

theorem Params.yields_readFrom (names : List String) (items : List Node) :
    Yields (fun _ => True) (readFrom names items) := by
  have fresh (names : List String) (name : String) : Yields (fun _ => True) (fresh names name) := by
    unfold Params.fresh
    split
    · rfl
    · trivial
  fun_induction readFrom names items with
  | case1 => trivial
  | case2 names p items =>
    unfold readRest
    split
    · split
      · rfl
      · exact (fresh names _).bindAny fun rest => trivial
    · rfl
  | case3 names p name items ordinary ih => exact (fresh names name).bindAny ih
  | case4 => rfl

theorem Params.yields_ofNode (callee : String) (n : Node) :
    Yields (fun _ => True) (ofNode callee n) := by
  cases n with
  | vector p items => exact yields_readFrom [] items
  | _ => rfl

namespace Call

variable {c : Call} {k : Contract}

theorem run_keeps (h : k.Serves c.eval (c.depth + 1)) {node : Node} (code : k.Code node) :
    k.Keeps k.Value (c.run node) :=
  h c.frame code

theorem runAll_keeps (h : k.Serves c.eval (c.depth + 1)) {nodes : List Node}
    (code : ∀ n ∈ nodes, k.Code n) : k.Keeps (fun _ => True) (c.runAll nodes) := by
  induction nodes with
  | nil => exact .pure trivial
  | cons node nodes ih =>
    obtain ⟨first, others⟩ := List.forall_mem_cons.mp code
    exact (run_keeps h first).bindAny fun _ => ih others

theorem define_keeps (name : String) {value : Node} (h : k.Value value) :
    k.Keeps k.Value (c.define name value) :=
  (Contract.Keeps.modifyDefine c.frame name h).bindAny fun _ => .pure h

theorem name_keeps (f : Form) (node : Node) : k.Keeps (fun _ => True) (c.name f node) := by
  cases node with
  | symbol p name => exact .pure trivial
  | _ => exact .fail _ rfl

theorem closure_keeps (f : Form) (kind : ClosureKind) (name : String) (params : Node) {body : Node}
    (code : k.Code body) : k.Keeps k.Value (c.closure f kind name params body) := by
  apply (Contract.Keeps.ofExcept c.place (Params.yields_ofNode f.name params)).bindAny
  intro params
  have serial : k.Keeps (fun _ => True)
      (Run.updateStore fun s => (s.serial, { s with serial := s.serial + 1 })) :=
    fun _ good => ⟨k.number good, trivial⟩
  exact serial.bindAny fun serial => .pure (k.value_closure_iff.mpr code)

theorem bindPairs_keeps (h : k.Serves c.eval (c.depth + 1)) (frame : FrameId) (index : Nat)
    {pairs : List Node} (code : ∀ n ∈ pairs, k.Code n) :
    k.Keeps (fun _ => True) (c.bindPairs frame index pairs) := by
  fun_induction c.bindPairs frame index pairs with
  | case1 => exact .pure trivial
  | case2 index p q name value pairs ih =>
    obtain ⟨pair, others⟩ := List.forall_mem_cons.mp code
    apply (h frame (k.code_of_vector pair value (by simp))).bind
    intro value isValue
    exact (Contract.Keeps.modifyDefine frame name isValue).bindAny fun _ => ih others
  | case3 => exact .fail _ rfl
  | case4 => exact .fail _ rfl

theorem runLast_keeps (h : k.Serves c.eval (c.depth + 1)) {last : Node} (hlast : k.Value last)
    {nodes : List Node} (code : ∀ n ∈ nodes, k.Code n) :
    k.Keeps k.Value (c.runLast last nodes) := by
  induction nodes generalizing last with
  | nil => exact .pure hlast
  | cons node nodes ih =>
    obtain ⟨first, others⟩ := List.forall_mem_cons.mp code
    exact (run_keeps h first).bind fun _ isValue => ih isValue others

theorem runCases_keeps (h : k.Serves c.eval (c.depth + 1)) {clauses : List Node}
    (code : ∀ n ∈ clauses, k.Code n) : k.Keeps k.Value (c.runCases clauses) := by
  fun_induction c.runCases clauses with
  | case1 => exact .pure (k.hereditary.atom _ _)
  | case2 p predicate expression clauses ih =>
    obtain ⟨clause, others⟩ := List.forall_mem_cons.mp code
    have parts := k.code_of_vector clause
    apply (run_keeps h (parts predicate (by simp))).bindAny
    intro value
    split
    · exact run_keeps h (parts expression (by simp))
    · exact ih others
  | case3 => exact .fail _ rfl

theorem runUntil_keeps (h : k.Serves c.eval (c.depth + 1)) (wanted : Bool) {nodes : List Node}
    (code : ∀ n ∈ nodes, k.Code n) : k.Keeps k.Value (c.runUntil wanted nodes) := by
  induction nodes with
  | nil => exact .pure (k.hereditary.atom _ _)
  | cons node nodes ih =>
    obtain ⟨first, others⟩ := List.forall_mem_cons.mp code
    apply (run_keeps h first).bindAny
    intro value
    split
    · exact .pure (k.hereditary.atom _ _)
    · exact ih others

/-- A condition, and what is run if it is true or false. -/
theorem branch_keeps (h : k.Serves c.eval (c.depth + 1)) {condition : Node}
    (code : k.Code condition) {yes no : Run Node} (hyes : k.Keeps k.Value yes)
    (hno : k.Keeps k.Value no) :
    k.Keeps k.Value (do if (← c.run condition).isTruthy then yes else no) := by
  apply (run_keeps h code).bindAny
  intro value
  split
  · exact hyes
  · exact hno

/-- A form keeps the contract, if the forms that repeat themselves do, as far as the
vocabulary has them. -/
theorem form_keeps (h : k.Serves c.eval (c.depth + 1)) {f : Form} (known : k.Speaks f)
    (loops : k.Speaks .loop → ∀ body, (∀ n ∈ body, k.Code n) →
      k.Keeps k.Value (c.iterate body c.fuel))
    (unwraps : k.Speaks .evaluate → ∀ {v}, k.Value v → k.Keeps k.Value (c.unwrap c.fuel v))
    {operands : List Node} (code : ∀ n ∈ operands, k.Code n) :
    k.Keeps k.Value (f.run c operands) := by
  have nil : k.Value (.nil c.place) := k.hereditary.atom _ _
  unfold Form.run
  -- the cases are the equations of `Form.run`, in their order there
  split
  case h_1 => exact .pure (k.value_quoted_iff.mpr (code _ (by simp)))
  case h_2 =>
    exact (name_keeps _ _).bindAny fun _ => (run_keeps h (code _ (by simp))).bind
      fun _ isValue => define_keeps _ isValue
  case h_3 =>
    have value := run_keeps h (code _ (List.mem_cons_of_mem _ List.mem_cons_self))
    apply (run_keeps h (code _ (by simp))).bindAny
    intro target
    split
    · exact value.bind fun _ isValue => define_keeps _ isValue
    · exact value.bind fun _ isValue => define_keeps _ isValue
    · exact .fail _ rfl
  case h_4 =>
    apply (run_keeps h (code _ (by simp))).bind
    intro value isValue
    split
    · exact run_keeps h (k.value_quoted_iff.mp isValue)
    · exact .fail _ rfl
  case h_5 =>
    exact (run_keeps h (code _ (by simp))).bind fun _ isValue => unwraps known isValue
  case h_6 => exact closure_keeps _ _ _ _ (code _ (by simp))
  case h_7 =>
    exact (name_keeps _ _).bindAny fun _ => (closure_keeps _ _ _ _ (code _ (by simp))).bind
      fun _ isValue => define_keeps _ isValue
  case h_8 =>
    exact (name_keeps _ _).bindAny fun _ => (closure_keeps _ _ _ _ (code _ (by simp))).bind
      fun _ isValue => define_keeps _ isValue
  case h_9 =>
    apply (Contract.keeps_push c.frame "let").bindAny
    intro frame
    have pairs := k.code_of_vector (code _ List.mem_cons_self)
    exact (bindPairs_keeps h frame 0 pairs).bindAny fun _ => h frame (code _ (by simp))
  case h_10 => exact .fail _ rfl
  case h_11 => exact runLast_keeps h nil code
  case h_12 => exact loops known _ code
  case h_13 => exact .raise rfl nil
  case h_14 => exact (run_keeps h (code _ (by simp))).bind fun _ isValue => .raise rfl isValue
  case h_15 => exact .raise rfl nil
  case h_16 => exact (run_keeps h (code _ (by simp))).bind fun _ isValue => .raise rfl isValue
  case h_17 =>
    exact branch_keeps h (code _ (by simp)) (run_keeps h (code _ (by simp))) (.pure nil)
  case h_18 =>
    exact branch_keeps h (code _ (by simp)) (run_keeps h (code _ (by simp)))
      (run_keeps h (code _ (by simp)))
  case h_19 =>
    exact branch_keeps h (code _ (by simp)) (run_keeps h (code _ (by simp))) (.pure nil)
  case h_20 => exact runCases_keeps h code
  case h_21 => exact runUntil_keeps h false code
  case h_22 => exact runUntil_keeps h true code
  case h_23 => exact .fail _ rfl

end Call

/-! ### Evaluation -/

/-- What a function of the embedding program answers to values is within the contract. -/
def Contract.Admits (k : Contract) (host : Host) : Prop :=
  ∀ args, (∀ a ∈ args, k.Value a) →
    match host args with
    | .value v => k.Value v
    | .fault fault => ∀ p w, k.Good w → k.Ends (.raised (.ofFault fault p)) w
    | .exit status => ∀ w, k.Good w → k.Ends (.exited status) w

namespace Interpreter

variable {i : Interpreter} {k : Contract} {e : Evaluator}

/-- What evaluating a node does once its depth has been checked and its step counted. -/
def visit (i : Interpreter) (fuel : Nat) (eval : Evaluator) : Evaluator :=
  fun node frame depth => do
    match node with
    | .symbol place name => Run.ofExcept place ((← get).store.lookup frame name)
    | .vector place nodes => return .vector place (← evalAll eval frame (depth + 1) nodes)
    | .call place [] => Run.fail (.mismatch .emptyCall) place
    | .call place (head :: args) => Run.traced place do
      let callee ← eval head frame (depth + 1)
      i.apply fuel eval place frame depth head callee args
    | value => return value

theorem step_eq (i : Interpreter) (fuel : Nat) (eval : Evaluator) (node : Node) (frame : FrameId)
    (depth : Nat) :
    i.step fuel eval node frame depth =
      if i.limits.depth ≤ depth then Run.fail (.depthExceeded i.limits.depth) node.place
      else Run.tick i.limits node.place >>= fun _ => i.visit fuel eval node frame depth :=
  rfl

theorem perform_keeps (hosts : ∀ host ∈ i.hosts, k.Admits host) (p : Primitive) {args : List Node}
    (h : ∀ a ∈ args, k.Value a) (place : Place) : k.Keeps k.Value (i.perform p args place) := by
  unfold perform
  split
  · rename_i op _
    apply (Contract.Keeps.ofExcept place (op.yields_value k.hereditary h)).bind
    intro node isValue
    exact (Contract.Keeps.write (op.echo args)).bindAny fun _ => .pure isValue
  · split
    · exact .fail _ rfl
    · rename_i host found
      have answer := hosts host (Array.mem_of_getElem? found) args h
      split
      all_goals
        rename_i replied
        rw [replied] at answer
      · exact .pure answer
      · exact fun w good => answer place w good
      · exact fun w good => answer w good

theorem evalAll_keeps {depth : Nat} (h : k.Serves e depth) (frame : FrameId) {nodes : List Node}
    (code : ∀ n ∈ nodes, k.Code n) :
    k.Keeps (∀ v ∈ ·, k.Value v) (evalAll e frame depth nodes) := by
  unfold evalAll
  induction nodes with
  | nil => exact .pure fun v mem => nomatch mem
  | cons node nodes ih =>
    obtain ⟨first, others⟩ := List.forall_mem_cons.mp code
    rw [List.mapM_cons]
    apply (h frame first).bind
    intro v hv
    apply (ih others).bind
    intro vs hvs
    exact .pure (List.forall_mem_cons.mpr ⟨hv, hvs⟩)

theorem enter_keeps {depth : Nat} (h : k.Serves e (depth + 1)) (l : Lambda) {body : Node}
    (code : k.Code body) {args : List Node} (hargs : ∀ a ∈ args, k.Value a) (place : Place) :
    k.Keeps k.Value (enter e l body args place depth) := by
  apply (Contract.Keeps.ofExcept place (Arity.yields_check _ _ _)).bindAny
  intro _
  apply (Contract.keeps_enter l place hargs).bindAny
  intro frame
  apply (Contract.Keeps.catching Signal.fault?_of_isReturn (h frame code)).bind
  intro left isValue
  cases left with
  | inl payload => exact .pure isValue
  | inr value => exact .pure isValue

/-- The forms that repeat themselves keep the contract, wherever they are called and as
far as the vocabulary has them. -/
structure RepeatsKeep (i : Interpreter) (k : Contract) (fuel : Nat) (e : Evaluator) (depth : Nat) :
    Prop where
  loops : k.Speaks .loop → ∀ place frame body, (∀ n ∈ body, k.Code n) →
    k.Keeps k.Value (Call.iterate ⟨place, frame, depth, i.limits, fuel, e⟩ body fuel)
  unwraps : k.Speaks .evaluate → ∀ place frame {v}, k.Value v →
    k.Keeps k.Value (Call.unwrap ⟨place, frame, depth, i.limits, fuel, e⟩ fuel v)

theorem apply_keeps (hosts : ∀ host ∈ i.hosts, k.Admits host) {fuel depth : Nat}
    (h : k.Serves e (depth + 1)) (repeats : i.RepeatsKeep k fuel e depth) (place : Place)
    (frame : FrameId) (head : Node) {callee : Node} (known : k.Value callee) {args : List Node}
    (code : ∀ n ∈ args, k.Code n) :
    k.Keeps k.Value (i.apply fuel e place frame depth head callee args) := by
  unfold apply
  split
  · rename_i p f
    apply (Contract.Keeps.ofExcept place (Arity.yields_check _ _ _)).bindAny
    intro _
    exact Call.form_keeps h ⟨p, known⟩ (fun speaks => repeats.loops speaks place frame)
      (fun speaks => repeats.unwraps speaks place frame) code
  · have body := k.value_closure_iff.mp known
    split
    · exact (evalAll_keeps h frame code).bind fun _ hargs => enter_keeps h _ body hargs place
    · have quoted : ∀ a ∈ args.map Node.quote, k.Value a := by
        intro a mem
        obtain ⟨n, isArg, rfl⟩ := List.mem_map.mp mem
        exact k.value_quoted_iff.mpr (code n isArg)
      exact (enter_keeps h _ body quoted place).bind
        fun _ expansion => h frame (k.code_of_value expansion)
  · apply (evalAll_keeps h frame code).bind
    intro values hvalues
    apply (Contract.Keeps.ofExcept place (Arity.yields_check _ _ _)).bindAny
    intro _
    exact (perform_keeps hosts _ hvalues place).bind
      fun _ isValue => .pure (k.hereditary.moveTo place isValue)
  · exact .fail _ rfl

theorem lookup_keeps (place : Place) (frame : FrameId) (name : String) :
    k.Keeps k.Value (do Run.ofExcept place ((← get).store.lookup frame name)) := by
  intro w good
  have opened : (do Run.ofExcept place ((← get).store.lookup frame name) : Run Node) w =
      Run.ofExcept place (w.store.lookup frame name) w := rfl
  have found : Yields k.Value (w.store.lookup frame name) := by
    unfold Store.lookup
    split
    · rename_i bound
      exact k.find good bound
    · rfl
  rw [opened]
  exact Contract.Keeps.ofExcept place found w good

/-- Visiting a node keeps the contract, if evaluating one level further down does. -/
theorem visit_keeps (hosts : ∀ host ∈ i.hosts, k.Admits host) {fuel depth : Nat}
    (h : k.Serves e (depth + 1)) (repeats : i.RepeatsKeep k fuel e depth) :
    k.Serves (i.visit fuel e) depth := by
  intro node frame code
  unfold visit
  split
  · exact lookup_keeps _ frame _
  · apply (evalAll_keeps h frame (k.code_of_vector code)).bind
    intro values hvalues
    exact .pure ((k.hereditary.vector _ _).mpr hvalues)
  · exact .fail _ rfl
  · obtain ⟨head, args⟩ := List.forall_mem_cons.mp (k.code_of_call code)
    apply Contract.Keeps.traced
    exact (h frame head).bind fun callee known => apply_keeps hosts h repeats _ frame _ known args
  · rename_i notSymbol notVector notEmpty notCall
    refine .pure (k.value_of_isConstant code ?_)
    cases node with
    | symbol p name => exact absurd rfl (notSymbol p name)
    | vector p ns => exact absurd rfl (notVector p ns)
    | call p ns =>
      cases ns with
      | nil => exact absurd rfl (notEmpty p)
      | cons head args => exact absurd rfl (notCall p head args)
    | _ => rfl

end Interpreter

end Sexpr
