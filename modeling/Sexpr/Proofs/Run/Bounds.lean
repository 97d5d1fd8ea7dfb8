/-
No evaluation reaches beyond what it is given.

`Form.body` is what a special form does if it takes its operands by position and trusts
that they are there, having counted them first if it has to. A node is genuine if the
primitives in it that compute an operation have the arity of that operation; this is so of
everything that a program starts with, and evaluation keeps it so
(`Invariant.genuine`). Main statement: `Interpreter.evalAt_bounds`, evaluation never gives
an operation arguments that it does not accept, and neither operations nor forms ever reach
for a position that is out of range.
-/

import Sexpr.Proofs.Operation.Bounds
import Sexpr.Proofs.Run.Invariant

namespace Sexpr

/-! ### Forms -/

namespace Call

/-- Goes on with the operand at a position that is trusted to be there. -/
def operand (panic : Run Node) (operands : List Node) (i : Nat) (next : Node → Run Node) :
    Run Node :=
  match operands[i]? with
  | some node => next node
  | none => panic

/-- Refuses operands in a number that the form does not take. -/
def count (c : Call) (f : Form) (operands : List Node) : Run Unit :=
  Run.ofExcept c.place (f.arity.check f.name operands.length)

end Call

namespace Form

/-- The form has to count its operands, whoever calls it. -/
def counts : Form → Bool
  | .quote | .bind | .bindTo | .unquote | .evaluate | .lambda | .function | .expander | .letIn
  | .branch | .guarded => true
  | .sequence | .loop | .leaveLoop | .leaveCall | .cases | .conjunction | .disjunction => false

/-- What a form does that trusts in positions. -/
def body (f : Form) (c : Call) (panic : Run Node) (operands : List Node) : Run Node := do
  let operand := Call.operand panic operands
  if f.counts then c.count f operands
  match f with
  | .quote => operand 0 fun node => return .quoted c.place node
  | .bind =>
    operand 0 fun target => do
      let name ← c.name f target
      operand 1 fun value => do c.define name (← c.run value)
  | .bindTo =>
    operand 0 fun target => do
      match ← c.run target with
      | .symbol _ name | .quoted _ (.symbol _ name) =>
        operand 1 fun value => do c.define name (← c.run value)
      | other => c.fail (.mismatch (.target other.mention))
  | .unquote =>
    operand 0 fun node => do
      match ← c.run node with
      | .quoted _ inner => c.run inner
      | other => c.fail (.mismatch (.operand f.name .quoted other.mention))
  | .evaluate => operand 0 fun node => do c.unwrap c.fuel (← c.run node)
  | .lambda =>
    operand 0 fun params => operand 1 fun body => c.closure f .function anonymous params body
  | .function =>
    operand 0 fun target => do
      let name ← c.name f target
      operand 1 fun params => operand 2 fun body => do
        c.define name (← c.closure f .function name params body)
  | .expander =>
    operand 0 fun target => do
      let name ← c.name f target
      operand 1 fun params => operand 2 fun body => do
        c.define name (← c.closure f .expander name params body)
  | .letIn =>
    operand 0 fun
      | .vector _ pairs => do
        let frame ← Run.updateStore (·.push c.frame "let")
        c.bindPairs frame 0 pairs
        operand 1 fun body => c.runIn frame body
      | other => c.fail (.mismatch (.operand f.name .bindings other.mention))
  | .sequence => c.runLast (.nil c.place) operands
  | .loop => c.iterate operands c.fuel
  | .leaveLoop =>
    match operands.head? with
    | none => Run.raise { control := .leaveLoop none, origin := c.place }
    | some node => do
      let value ← c.run node
      Run.raise { control := .leaveLoop (some value), origin := c.place }
  | .leaveCall =>
    match operands.head? with
    | none => Run.raise { control := .leaveCall (.nil c.place), origin := c.place }
    | some node => do
      let value ← c.run node
      Run.raise { control := .leaveCall value, origin := c.place }
  | .branch =>
    operand 0 fun condition => do
      if (← c.run condition).isTruthy then operand 1 c.run
      else
        match operands[2]? with
        | some no => c.run no
        | none => return .nil c.place
  | .guarded =>
    operand 0 fun condition => do
      if (← c.run condition).isTruthy then operand 1 c.run else return .nil c.place
  | .cases => c.runCases operands
  | .conjunction => c.runUntil false operands
  | .disjunction => c.runUntil true operands

variable {f : Form} {operands : List Node}

/-- Operands in a number that does not fit are refused before anything else. -/
theorem run_of_not_accepts (counts : f.counts = true)
    (h : f.arity.accepts operands.length = false) (c : Call) :
    f.run c operands = c.fail (.arity f.name f.arity operands.length) := by
  -- a number that fits contradicts `h`
  cases f with
  | quote | unquote | evaluate =>
    match operands with
    | [] | _ :: _ :: _ => rfl
    | [_] => cases h
  | bind | bindTo | lambda | guarded =>
    match operands with
    | [] | [_] | _ :: _ :: _ :: _ => rfl
    | [_, _] => cases h
  | letIn =>
    match operands with
    | [] => rfl
    | [bindings] | bindings :: _ :: _ :: _ => cases bindings <;> rfl
    | [_, _] => cases h
  | function | expander =>
    match operands with
    | [] | [_] | [_, _] | _ :: _ :: _ :: _ :: _ => rfl
    | [_, _, _] => cases h
  | branch =>
    match operands with
    | [] | [_] | _ :: _ :: _ :: _ :: _ => rfl
    | [_, _] | [_, _, _] => cases h
  | sequence | loop | leaveLoop | leaveCall | cases | conjunction | disjunction => cases counts

/-- No form reaches for an operand that is not there. -/
theorem body_eq (f : Form) (c : Call) (panic : Run Node) (operands : List Node) :
    f.body c panic operands = f.run c operands := by
  -- each number of operands is counted out, or there are as many as are reached for
  cases f with
  | quote | unquote | evaluate =>
    match operands with
    | [] | [_] | _ :: _ :: _ => rfl
  | bind | bindTo | lambda | guarded =>
    match operands with
    | [] | [_] | [_, _] | _ :: _ :: _ :: _ => rfl
  | letIn =>
    match operands with
    | [] => rfl
    | [bindings] | [bindings, _] | bindings :: _ :: _ :: _ => cases bindings <;> rfl
  | function | expander | branch =>
    match operands with
    | [] | [_] | [_, _] | [_, _, _] | _ :: _ :: _ :: _ :: _ => rfl
  | leaveLoop | leaveCall => cases operands <;> rfl
  | sequence | loop | cases | conjunction | disjunction => rfl

end Form

/-! ### Genuine primitives -/

/-- The primitive has the arity of the operation that it computes, if it computes one. -/
def Primitive.IsGenuine (v : Primitive) : Prop :=
  ∀ op, v.routine = .operation op → v.arity = op.arity

/-- All primitives in the node are genuine. -/
def Node.IsGenuine (n : Node) : Prop :=
  ∀ p v, .primitive p v ∈ n.parts → v.IsGenuine

/-- Primitives are genuine, and frames may be captured as you like. -/
def Scope.genuine : Scope where
  Captures _ _ := True
  Offers v := v.IsGenuine
  captures_mono _ _ := trivial
  captures_new _ := trivial

theorem Scope.genuine_fits_iff {n : Nat} {node : Node} :
    Scope.genuine.Fits n node ↔ node.IsGenuine := by
  constructor
  · intro h p v mem
    exact h _ mem
  · intro h part mem
    cases part with
    | primitive p v => exact h p v mem
    | _ => trivial

/-- All that is bound is genuine. -/
def Invariant.genuine : Invariant where
  toScope := .genuine
  Good s := s.All Node.IsGenuine
  find good found := Scope.genuine_fits_iff.mpr (good.find found)
  define frame name _ good fits := good.define frame name (Scope.genuine_fits_iff.mp fits)
  push name good _ := good.push _ name
  number good := good.number _

theorem Host.Preserves.admits_genuine {host : Host} (h : host.Preserves Node.IsGenuine) :
    Invariant.genuine.AdmitsHost host := by
  intro s args node _ fits replied
  apply Scope.genuine_fits_iff.mpr
  exact h args (fun a isArg => Scope.genuine_fits_iff.mp (fits a isArg)) node replied

namespace Store

/-- The store of a new program, or one that evaluating a genuine node leaves behind. -/
inductive Reached (hosts : Array Host) : Store → Prop where
  | global (serial : Nat) : Reached hosts (.global serial)
  | evaluate {w : World} {node : Node} (limits : Limits) (fuel : Nat) (frame : FrameId)
      (depth : Nat) : Reached hosts w.store → node.IsGenuine →
      Reached hosts ((Interpreter.evalAt ⟨limits, hosts⟩ fuel node frame depth).final w).store

/-- What a program starts with is genuine. -/
theorem genuine_global (serial : Nat) : (global serial).All Node.IsGenuine := by
  refine global_induction (motive := All Node.IsGenuine) (all_empty serial) fun s builtin h => ?_
  cases builtin with
  | form f =>
    refine h.define root f.name fun p v mem => ?_
    cases List.mem_singleton.mp mem
  | operation op =>
    refine (h.number _).define root op.name fun p v mem => ?_
    cases List.mem_singleton.mp mem
    rintro other ⟨⟩
    rfl

theorem Reached.genuine {hosts : Array Host}
    (preserve : ∀ host ∈ hosts, host.Preserves Node.IsGenuine) {s : Store}
    (h : s.Reached hosts) : s.All Node.IsGenuine := by
  induction h with
  | global serial => exact genuine_global serial
  | @evaluate w node limits fuel frame depth _ isGenuine ih =>
    let i : Interpreter := ⟨limits, hosts⟩
    have serves : Invariant.genuine.Serves {} (i.evalAt fuel) (i.evalAt fuel) :=
      Interpreter.evalAt_serves (fun host mem => (preserve host mem).admits_genuine) (.inr rfl) fuel
    have captures : Invariant.genuine.Captures 0 frame := trivial
    have runs := serves depth captures (Scope.genuine_fits_iff.mpr isGenuine)
    have good : Invariant.genuine.Holds 0 w := ⟨ih, Nat.zero_le _⟩
    rw [Nat.zero_add] at runs
    exact (runs.outcome good).1.good

end Store

/-! ### Evaluation -/

namespace Interpreter

/-- Performs operations without a look at their arguments. -/
def performUnchecked (i : Interpreter) (panic : Run Node) : Performer := fun p args place =>
  match p.routine with
  | .operation op =>
    match (op.body args).run with
    | some result => do
      let node ← Run.ofExcept place result
      Run.write (op.echo args)
      return node
    | none => panic
  | .host _ => i.perform p args place

variable {i : Interpreter}

/-- Whoever performs operations in a way of its own for arguments that they do not accept
makes no difference. -/
theorem evalWith_eq_of_accepted (preserve : ∀ host ∈ i.hosts, host.Preserves Node.IsGenuine)
    {perform : Performer}
    (own : ∀ p args place,
      (∀ op, p.routine = .operation op → op.arity.accepts args.length = true) →
      perform p args place = i.perform p args place)
    {w : World} (reached : w.store.Reached i.hosts) {node : Node} (isGenuine : node.IsGenuine)
    (fuel : Nat) (frame : FrameId) (depth : Nat) :
    i.evalWith perform fuel node frame depth w = i.evalAt fuel node frame depth w := by
  have tolerant : Invariant.genuine.Tolerates i perform := by
    intro p args place offers accepted
    apply own
    intro op computes
    rw [← offers op computes]
    exact accepted
  have serves : Invariant.genuine.Serves {} (i.evalAt fuel) (i.evalWith perform fuel) :=
    evalAt_alongside (fun host mem => (preserve host mem).admits_genuine) tolerant (.inr rfl) fuel
  have captures : Invariant.genuine.Captures 0 frame := trivial
  have runs := serves depth captures (Scope.genuine_fits_iff.mpr isGenuine)
  have good : Invariant.genuine.Holds 0 w := ⟨reached.genuine preserve, Nat.zero_le _⟩
  rw [Nat.zero_add] at runs
  exact (runs.eq good).symm

/-- Operations that accept their arguments are performed in the same way without a look at
these. -/
theorem performUnchecked_eq (panic : Run Node) (p : Primitive) (args : List Node) (place : Place)
    (accepted : ∀ op, p.routine = .operation op → op.arity.accepts args.length = true) :
    i.performUnchecked panic p args place = i.perform p args place := by
  unfold performUnchecked
  split
  · rename_i op computes
    rw [op.body_eq (accepted op computes), Interpreter.perform, computes]
    rfl
  · rfl

/-- No evaluation reaches beyond what it is given. In a store that genuine nodes were
evaluated in, evaluating a genuine node gives operations only arguments that they accept:
whoever performs them in a way of its own for others makes no difference. For arguments
that it accepts, an operation that trusts in positions has the answer of the operation,
and so nothing that would happen when a position is out of range ever does. Forms that
trust in positions do what forms do, for any operands; and those that count their operands
refuse all numbers that do not fit. -/
theorem evalAt_bounds (i : Interpreter)
    (preserve : ∀ host ∈ i.hosts, host.Preserves Node.IsGenuine) :
    (∀ (w : World) (node : Node), w.store.Reached i.hosts → node.IsGenuine →
      ∀ fuel frame depth,
        (∀ perform : Performer,
          (∀ p args place,
            (∀ op, p.routine = .operation op → op.arity.accepts args.length = true) →
            perform p args place = i.perform p args place) →
          i.evalWith perform fuel node frame depth w = i.evalAt fuel node frame depth w) ∧
        ∀ panic, i.evalWith (i.performUnchecked panic) fuel node frame depth w
          = i.evalAt fuel node frame depth w) ∧
    (∀ (op : Operation) (args : List Node), op.arity.accepts args.length = true →
      (op.body args).run = some (op.value args)) ∧
    (∀ (f : Form) (c : Call) (panic : Run Node) (operands : List Node),
      f.body c panic operands = f.run c operands) ∧
    ∀ (f : Form) (c : Call) (operands : List Node), f.counts = true →
      f.arity.accepts operands.length = false →
      f.run c operands = c.fail (.arity f.name f.arity operands.length) := by
  refine ⟨fun w node reached isGenuine fuel frame depth => ⟨fun perform own => ?_, fun panic => ?_⟩,
    fun op args accepted => Operation.body_eq accepted, Form.body_eq,
    fun f c operands counts refused => Form.run_of_not_accepts counts refused c⟩
  · exact evalWith_eq_of_accepted preserve own reached isGenuine fuel frame depth
  · exact evalWith_eq_of_accepted preserve (performUnchecked_eq panic) reached isGenuine fuel frame
      depth

/-- The second item of a vector, by an operation under another name and reached as a
value. -/
theorem renamed_bounds :
    let i : Interpreter := {}
    let second : Node := .primitive .computed ⟨99, "second", .exactly 2, .operation .index⟩
    let call : Node := .call .computed [second, .number .computed (.int 1),
      .vector .computed [.text .computed "a", .text .computed "b"]]
    let w : World := ⟨.global 0, 0, ""⟩
    ∀ panic, i.evalWith (i.performUnchecked panic) 9 call Store.root 0 w
      = i.evalAt 9 call Store.root 0 w := by
  intro i second call w
  have isGenuine : call.IsGenuine := by
    intro p v mem
    simp only [call, second, Node.parts, Node.partsAll, List.mem_cons, List.mem_append,
      List.not_mem_nil, reduceCtorEq, or_false, false_or, Node.primitive.injEq] at mem
    rw [mem.2]
    rintro op ⟨⟩
    rfl
  have noHosts : ∀ host ∈ i.hosts, host.Preserves Node.IsGenuine := by
    rintro host ⟨mem⟩
    cases mem
  have reached : w.store.Reached i.hosts := .global 0
  exact ((evalAt_bounds i noHosts).1 w call reached isGenuine 9 Store.root 0).2

end Interpreter

end Sexpr
