/-
Evaluation that tells what happens.

`Interpreter.tell` is evaluation carried out in accounts, function by function. Main
statement: `Interpreter.tell_tells`, it tells evaluation. So its journal is a journal of the
evaluation itself.
-/

import Sexpr.Proofs.Run.Account

namespace Sexpr

/-! ### Evaluation in accounts -/

/-- The account of the evaluation of a node in a frame, at a depth. -/
abbrev Teller := Node → FrameId → (depth : Nat) → Account Node

namespace Call

def tell (c : Call) (t : Teller) (node : Node) : Account Node :=
  t node c.frame (c.depth + 1)

def tellAll (c : Call) (t : Teller) : List Node → Account Unit
  | [] => return ()
  | node :: nodes => do
    let _ ← c.tell t node
    c.tellAll t nodes

def tellDefine (c : Call) (name : String) (value : Node) : Account Node := do
  Account.note (.bound c.frame name value)
  return value

def tellName (c : Call) (f : Form) : Node → Account String
  | .symbol _ name => return name
  | other => Account.fail (.mismatch (.operand f.name .name other.mention)) c.place

def tellClosure (c : Call) (f : Form) (kind : ClosureKind) (name : String) (params body : Node) :
    Account Node := do
  let params ← Account.ofExcept c.place (Params.ofNode f.name params)
  let serial ← Account.number
  return .closure c.place ⟨serial, kind, name, params, c.frame⟩ body

def tellPairs (c : Call) (t : Teller) (frame : FrameId) : (index : Nat) → List Node → Account Unit
  | _, [] => return ()
  | index, .vector _ [.symbol _ name, value] :: pairs => do
    let value ← t value frame (c.depth + 1)
    Account.note (.bound frame name value)
    c.tellPairs t frame (index + 1) pairs
  | index, .vector _ [other, _] :: _ =>
    Account.fail (.mismatch (.binder other.print index)) c.place
  | index, other :: _ => Account.fail (.mismatch (.pair other.print index)) c.place

def tellUnwrap (c : Call) (t : Teller) : (fuel : Nat) → Node → Account Node
  | 0, _ => Account.outOfFuel
  | fuel + 1, .quoted p inner => do
    let next ← c.tell t inner
    if next.same (.quoted p inner) then return next else c.tellUnwrap t fuel next
  | _ + 1, other => return other

def tellIterate (c : Call) (t : Teller) (body : List Node) : (fuel : Nat) → Account Node
  | 0 => Account.outOfFuel
  | fuel + 1 => do
    Account.tick c.limits c.place
    match ← Account.within .loop (c.tellAll t body) with
    | .inl payload => return payload
    | .inr () => c.tellIterate t body fuel

def tellLast (c : Call) (t : Teller) (last : Node) : List Node → Account Node
  | [] => return last
  | node :: nodes => do
    let value ← c.tell t node
    c.tellLast t value nodes

def tellCases (c : Call) (t : Teller) : List Node → Account Node
  | [] => return .nil c.place
  | .vector _ [predicate, expression] :: clauses => do
    if (← c.tell t predicate).isTruthy then c.tell t expression else c.tellCases t clauses
  | other :: _ => Account.fail (.mismatch (.clause other.print)) c.place

def tellUntil (c : Call) (t : Teller) (wanted : Bool) : List Node → Account Node
  | [] => return .ofBool c.place !wanted
  | node :: nodes => do
    if (← c.tell t node).isTruthy = wanted then return .ofBool c.place wanted
    else c.tellUntil t wanted nodes

end Call

def Form.tell (f : Form) (c : Call) (t : Teller) (operands : List Node) : Account Node :=
  match f, operands with
  | .quote, [node] => return .quoted c.place node
  | .bind, [target, value] => do
    let name ← c.tellName f target
    c.tellDefine name (← c.tell t value)
  | .bindTo, [target, value] => do
    match ← c.tell t target with
    | .symbol _ name | .quoted _ (.symbol _ name) => c.tellDefine name (← c.tell t value)
    | other => Account.fail (.mismatch (.target other.mention)) c.place
  | .unquote, [node] => do
    match ← c.tell t node with
    | .quoted _ inner => c.tell t inner
    | other => Account.fail (.mismatch (.operand f.name .quoted other.mention)) c.place
  | .evaluate, [node] => do c.tellUnwrap t c.fuel (← c.tell t node)
  | .lambda, [params, body] => c.tellClosure f .function anonymous params body
  | .function, [target, params, body] => do
    let name ← c.tellName f target
    c.tellDefine name (← c.tellClosure f .function name params body)
  | .expander, [target, params, body] => do
    let name ← c.tellName f target
    c.tellDefine name (← c.tellClosure f .expander name params body)
  | .letIn, [.vector _ pairs, body] => do
    let frame ← Account.openFrame c.frame "let" []
    c.tellPairs t frame 0 pairs
    t body frame (c.depth + 1)
  | .letIn, [other, _] =>
    Account.fail (.mismatch (.operand f.name .bindings other.mention)) c.place
  | .sequence, nodes => c.tellLast t (.nil c.place) nodes
  | .loop, body => c.tellIterate t body c.fuel
  | .leaveLoop, [] => Account.raise { control := .leaveLoop none, origin := c.place }
  | .leaveLoop, node :: _ => do
    let value ← c.tell t node
    Account.raise { control := .leaveLoop (some value), origin := c.place }
  | .leaveCall, [] => Account.raise { control := .leaveCall (.nil c.place), origin := c.place }
  | .leaveCall, node :: _ => do
    let value ← c.tell t node
    Account.raise { control := .leaveCall value, origin := c.place }
  | .branch, [condition, yes] => do
    if (← c.tell t condition).isTruthy then c.tell t yes else return .nil c.place
  | .branch, [condition, yes, no] => do
    if (← c.tell t condition).isTruthy then c.tell t yes else c.tell t no
  | .guarded, [condition, body] => do
    if (← c.tell t condition).isTruthy then c.tell t body else return .nil c.place
  | .cases, clauses => c.tellCases t clauses
  | .conjunction, nodes => c.tellUntil t false nodes
  | .disjunction, nodes => c.tellUntil t true nodes
  | f, operands => Account.fail (.arity f.name f.arity operands.length) c.place

namespace Interpreter

def tellPerform (i : Interpreter) (p : Primitive) (args : List Node) (place : Place) :
    Account Node :=
  match p.routine with
  | .operation op => do
    let node ← Account.ofExcept place (op.value args)
    Account.note (.wrote (op.echo args))
    return node
  | .host index =>
    match i.hosts[index]? with
    | none => Account.fail (.notCallable p.name) place
    | some host =>
      match host args with
      | .value node => return node
      | .fault fault => Account.fail fault place
      | .exit status => Account.exit status

def tellArguments (t : Teller) (frame : FrameId) (depth : Nat) : List Node → Account (List Node)
  | [] => return []
  | node :: nodes => do
    let value ← t node frame depth
    let values ← tellArguments t frame depth nodes
    return value :: values

def tellEnter (t : Teller) (l : Lambda) (body : Node) (args : List Node) (place : Place)
    (depth : Nat) : Account Node := do
  Account.ofExcept place (l.params.arity.check l.name args.length)
  let frame ← Account.openFrame l.frame l.name (l.params.bindings place args)
  Account.either (← Account.within .body (t body frame (depth + 1)))

def tellApply (i : Interpreter) (fuel : Nat) (t : Teller) (place : Place) (frame : FrameId)
    (depth : Nat) (head : Node) (callee : Node) (args : List Node) : Account Node :=
  match callee with
  | .form _ f => do
    Account.ofExcept place (f.arity.check f.name args.length)
    f.tell ⟨place, frame, depth, i.limits, fuel, i.evalAt fuel⟩ t args
  | .closure _ l body => do
    match l.kind with
    | .function => tellEnter t l body (← tellArguments t frame (depth + 1) args) place depth
    | .expander =>
      let expansion ← tellEnter t l body (args.map .quote) place depth
      t expansion frame (depth + 1)
  | .primitive _ p => do
    let values ← tellArguments t frame (depth + 1) args
    Account.ofExcept place (p.arity.check p.name values.length)
    return (← i.tellPerform p values place).moveTo place
  | _ => Account.fail (.notCallable head.print) head.place

def tellStep (i : Interpreter) (fuel : Nat) (t : Teller) : Teller :=
  fun node frame depth => do
    if i.limits.depth ≤ depth then Account.fail (.depthExceeded i.limits.depth) node.place
    else
      Account.tick i.limits node.place
      match node with
      | .symbol place name => Account.ofExcept place ((← Account.look).store.lookup frame name)
      | .vector place nodes => return .vector place (← tellArguments t frame (depth + 1) nodes)
      | .call place [] => Account.fail (.mismatch .emptyCall) place
      | .call place (head :: args) => do
        Account.either (← Account.within (.expression place) do
          let callee ← t head frame (depth + 1)
          i.tellApply fuel t place frame depth head callee args)
      | value => return value

/-- The account of evaluation. -/
def tell (i : Interpreter) : (fuel : Nat) → Teller
  | 0 => fun _ _ _ => Account.outOfFuel
  | fuel + 1 => i.tellStep fuel (i.tell fuel)

end Interpreter

/-! ### Evaluation and its account -/

/-- The teller tells the evaluator, at every node, frame and depth. -/
def Teller.Tells (t : Teller) (e : Evaluator) : Prop :=
  ∀ node frame depth, (t node frame depth).Tells (e node frame depth)

namespace Call

open Account (Tells)

variable {c : Call} {t : Teller}

theorem tell_tells (h : t.Tells c.eval) (node : Node) : (c.tell t node).Tells (c.run node) :=
  h node c.frame (c.depth + 1)

theorem tellAll_tells (h : t.Tells c.eval) (nodes : List Node) :
    (c.tellAll t nodes).Tells (c.runAll nodes) := by
  induction nodes with
  | nil => exact .pure _
  | cons node nodes ih => exact (tell_tells h node).bind fun _ => ih

theorem tellDefine_tells (c : Call) (name : String) (value : Node) :
    (c.tellDefine name value).Tells (c.define name value) :=
  (Tells.note rfl).bind fun _ => .pure value

theorem tellName_tells (c : Call) (f : Form) (node : Node) :
    (c.tellName f node).Tells (c.name f node) := by
  cases node with
  | symbol p name => exact .pure name
  | _ => exact .fail _ _

theorem tellClosure_tells (c : Call) (f : Form) (kind : ClosureKind) (name : String)
    (params body : Node) :
    (c.tellClosure f kind name params body).Tells (c.closure f kind name params body) :=
  (Tells.ofExcept _ _).bind fun _ => Tells.number.bind fun _ => .pure _

theorem tellPairs_tells (h : t.Tells c.eval) (frame : FrameId) (index : Nat) (pairs : List Node) :
    (c.tellPairs t frame index pairs).Tells (c.bindPairs frame index pairs) := by
  fun_induction c.bindPairs frame index pairs with
  | case1 => exact .pure _
  | case2 index p q name value pairs ih =>
    apply (h value frame (c.depth + 1)).bind
    intro value
    exact (Tells.note rfl).bind fun _ => ih
  | case3 index p other value pairs notSymbol =>
    rw [tellPairs.eq_3 _ _ _ _ _ _ _ _ notSymbol]
    exact .fail _ _
  | case4 index other pairs notPair notVector =>
    rw [tellPairs.eq_4 _ _ _ _ _ _ notPair notVector]
    exact .fail _ _

theorem tellUnwrap_tells (h : t.Tells c.eval) (fuel : Nat) (node : Node) :
    (c.tellUnwrap t fuel node).Tells (c.unwrap fuel node) := by
  induction fuel generalizing node with
  | zero => exact .outOfFuel
  | succ fuel ih =>
    cases node with
    | quoted p inner =>
      apply (tell_tells h inner).bind
      intro next
      split
      · exact .pure next
      · exact ih next
    | _ => exact .pure _

theorem tellIterate_tells (h : t.Tells c.eval) (body : List Node) (fuel : Nat) :
    (c.tellIterate t body fuel).Tells (c.iterate body fuel) := by
  induction fuel with
  | zero => exact .outOfFuel
  | succ fuel ih =>
    apply (Tells.tick _ _).bind
    intro _
    apply (tellAll_tells h body).loop.bind
    intro left
    cases left with
    | inl payload => exact .pure payload
    | inr _ => exact ih

theorem tellLast_tells (h : t.Tells c.eval) (last : Node) (nodes : List Node) :
    (c.tellLast t last nodes).Tells (c.runLast last nodes) := by
  induction nodes generalizing last with
  | nil => exact .pure last
  | cons node nodes ih => exact (tell_tells h node).bind ih

theorem tellCases_tells (h : t.Tells c.eval) (clauses : List Node) :
    (c.tellCases t clauses).Tells (c.runCases clauses) := by
  fun_induction c.runCases clauses with
  | case1 => exact .pure _
  | case2 p predicate expression clauses ih =>
    apply (tell_tells h predicate).bind
    intro value
    split
    · exact tell_tells h expression
    · exact ih
  | case3 other clauses notClause =>
    rw [tellCases.eq_3 _ _ _ _ notClause]
    exact .fail _ _

theorem tellUntil_tells (h : t.Tells c.eval) (wanted : Bool) (nodes : List Node) :
    (c.tellUntil t wanted nodes).Tells (c.runUntil wanted nodes) := by
  induction nodes with
  | nil => exact .pure _
  | cons node nodes ih =>
    apply (tell_tells h node).bind
    intro value
    split
    · exact .pure _
    · exact ih

/-- A condition, and what is done if it is true or false. -/
theorem branch_tells (h : t.Tells c.eval) (condition : Node) {yes no : Account Node}
    {yes' no' : Run Node} (hyes : yes.Tells yes') (hno : no.Tells no') :
    Tells (do if (← c.tell t condition).isTruthy then yes else no)
      (do if (← c.run condition).isTruthy then yes' else no') := by
  apply (tell_tells h condition).bind
  intro value
  split
  · exact hyes
  · exact hno

theorem form_tells (h : t.Tells c.eval) (f : Form) (operands : List Node) :
    (f.tell c t operands).Tells (f.run c operands) := by
  unfold Form.tell
  -- the cases are the equations of `Form.tell`, in their order there
  split
  case h_1 => exact .pure _
  case h_2 =>
    exact (tellName_tells c _ _).bind fun _ =>
      (tell_tells h _).bind fun _ => tellDefine_tells c _ _
  case h_3 =>
    apply (tell_tells h _).bind
    intro target
    cases target with
    | symbol p name => exact (tell_tells h _).bind fun _ => tellDefine_tells c name _
    | quoted p inner =>
      cases inner with
      | symbol q name => exact (tell_tells h _).bind fun _ => tellDefine_tells c name _
      | _ => exact .fail _ _
    | _ => exact .fail _ _
  case h_4 =>
    apply (tell_tells h _).bind
    intro value
    cases value with
    | quoted p inner => exact tell_tells h inner
    | _ => exact .fail _ _
  case h_5 => exact (tell_tells h _).bind fun value => tellUnwrap_tells h c.fuel value
  case h_6 => exact tellClosure_tells c _ _ _ _ _
  case h_7 =>
    exact (tellName_tells c _ _).bind fun _ =>
      (tellClosure_tells c _ _ _ _ _).bind fun _ => tellDefine_tells c _ _
  case h_8 =>
    exact (tellName_tells c _ _).bind fun _ =>
      (tellClosure_tells c _ _ _ _ _).bind fun _ => tellDefine_tells c _ _
  case h_9 =>
    exact (Tells.openFrame c.frame "let" []).bind fun inner =>
      (tellPairs_tells h inner 0 _).bind fun _ => h _ inner (c.depth + 1)
  case h_10 other body notVector =>
    rw [Form.run.eq_10 _ _ _ notVector]
    exact .fail _ _
  case h_11 => exact tellLast_tells h _ _
  case h_12 => exact tellIterate_tells h _ c.fuel
  case h_13 => exact .raise _
  case h_14 => exact (tell_tells h _).bind fun _ => .raise _
  case h_15 => exact .raise _
  case h_16 => exact (tell_tells h _).bind fun _ => .raise _
  case h_17 => exact branch_tells h _ (tell_tells h _) (.pure _)
  case h_18 => exact branch_tells h _ (tell_tells h _) (tell_tells h _)
  case h_19 => exact branch_tells h _ (tell_tells h _) (.pure _)
  case h_20 => exact tellCases_tells h _
  case h_21 => exact tellUntil_tells h false _
  case h_22 => exact tellUntil_tells h true _
  case h_23 =>
    rw [Form.run.eq_23]
    · exact .fail _ _
    all_goals assumption

end Call

namespace Interpreter

open Account (Tells)

variable {e : Evaluator} {t : Teller}

theorem tellPerform_tells (i : Interpreter) (p : Primitive) (args : List Node) (place : Place) :
    (i.tellPerform p args place).Tells (i.perform p args place) := by
  unfold perform tellPerform
  cases p.routine with
  | operation op =>
    apply (Tells.ofExcept _ _).bind
    intro node
    exact (Tells.note rfl).bind fun _ => .pure node
  | host index =>
    dsimp only
    cases i.hosts[index]? with
    | none => exact .fail _ _
    | some host =>
      dsimp only
      cases host args with
      | value node => exact .pure node
      | fault fault => exact .fail _ _
      | exit status => exact .exit status

theorem tellArguments_tells (h : t.Tells e) (frame : FrameId) (depth : Nat) (nodes : List Node) :
    (tellArguments t frame depth nodes).Tells (evalAll e frame depth nodes) := by
  unfold evalAll
  induction nodes with
  | nil => exact .pure []
  | cons node nodes ih =>
    rw [List.mapM_cons]
    exact (h node frame depth).bind fun _ => ih.bind fun _ => .pure _

theorem tellEnter_tells (h : t.Tells e) (l : Lambda) (body : Node) (args : List Node)
    (place : Place) (depth : Nat) :
    (tellEnter t l body args place depth).Tells (enter e l body args place depth) := by
  apply (Tells.ofExcept _ _).bind
  intro _
  apply (Tells.openFrame l.frame l.name (l.params.bindings place args)).bind
  intro frame
  exact (h body frame (depth + 1)).body.bind .either

theorem tellApply_tells (i : Interpreter) {fuel : Nat} (h : t.Tells (i.evalAt fuel)) (place : Place)
    (frame : FrameId) (depth : Nat) (head callee : Node) (args : List Node) :
    (i.tellApply fuel t place frame depth head callee args).Tells
      (i.apply fuel (i.evalAt fuel) place frame depth head callee args) := by
  unfold apply tellApply
  cases callee with
  | form q f => exact (Tells.ofExcept _ _).bind fun _ => Call.form_tells h f args
  | closure q l body =>
    dsimp only
    cases l.kind with
    | function =>
      exact (tellArguments_tells h frame (depth + 1) args).bind
        fun values => tellEnter_tells h l body values place depth
    | expander =>
      exact (tellEnter_tells h l body _ place depth).bind
        fun expansion => h expansion frame (depth + 1)
  | primitive q p =>
    apply (tellArguments_tells h frame (depth + 1) args).bind
    intro values
    apply (Tells.ofExcept _ _).bind
    intro _
    exact (i.tellPerform_tells p values place).bind fun _ => .pure _
  | _ => exact .fail _ _

theorem tellStep_tells (i : Interpreter) {fuel : Nat} (h : t.Tells (i.evalAt fuel)) :
    (i.tellStep fuel t).Tells (i.step fuel (i.evalAt fuel)) := by
  intro node frame depth
  unfold step tellStep
  split
  · exact .fail _ _
  · apply (Tells.tick _ _).bind
    intro _
    cases node with
    | symbol place name => exact Tells.look.bind fun _ => .ofExcept _ _
    | vector place nodes =>
      exact (tellArguments_tells h frame (depth + 1) nodes).bind fun _ => .pure _
    | call place nodes =>
      cases nodes with
      | nil => exact .fail _ _
      | cons head args =>
        apply Tells.traced
        exact (h head frame (depth + 1)).bind
          fun callee => i.tellApply_tells h place frame depth head callee args
    | _ => exact .pure _

/-- `tell` tells evaluation. -/
theorem tell_tells (i : Interpreter) (fuel : Nat) : (i.tell fuel).Tells (i.evalAt fuel) := by
  induction fuel with
  | zero => exact fun _ _ _ => .outOfFuel
  | succ fuel ih => exact i.tellStep_tells ih

end Interpreter

end Sexpr
