/-
Evaluation gives values, and values evaluate to themselves.

A value is a constant or a vector of values: no symbol and no call stands in it, unless
quoted or in the body of a closure. Values are a vocabulary in which any node may be
evaluated, so results, payloads and bindings are values as long as what is bound at the
start is (`Contract.bindings`). Evaluating a value takes one step for every node of its
vectors, one level for every layer of them, and changes nothing else
(`Interpreter.evalAt_eq_of_isValue`). Main statement: `Interpreter.evalAt_values`.
-/

import Sexpr.Proofs.Node.Data
import Sexpr.Proofs.Run.Bindings

namespace Sexpr

namespace Node

mutual

/-- The node is a constant or a vector of values. -/
def isValue : Node → Bool
  | .symbol _ _ | .call _ _ => false
  | .vector _ items => allValues items
  | .number _ _ | .text _ _ | .atom _ _ | .quoted _ _ | .closure _ _ _ | .primitive _ _
  | .form _ _ => true

def allValues : List Node → Bool
  | [] => true
  | n :: ns => isValue n && allValues ns

end

mutual

/-- How many vectors that are not empty stand around the innermost item. -/
def layers : Node → Nat
  | .vector _ items => layersAll items
  | _ => 0

/-- One more than the layers of the deepest item, or zero if there is none. -/
def layersAll : List Node → Nat
  | [] => 0
  | n :: ns => max (layers n + 1) (layersAll ns)

end

mutual

/-- How many nodes the node and the vectors in it are made of. -/
def weight : Node → Nat
  | .vector _ items => weightAll items + 1
  | _ => 1

def weightAll : List Node → Nat
  | [] => 0
  | n :: ns => weight n + weightAll ns

end

theorem allValues_iff {ns : List Node} :
    allValues ns = true ↔ ∀ n ∈ ns, n.isValue = true := by
  induction ns with
  | nil => simp [allValues]
  | cons n ns ih => simp [allValues, ih]

mutual

/-- Places do not matter for what a value is. -/
theorem isValue_unplaced (n : Node) : n.unplaced.isValue = n.isValue := by
  cases n with
  | vector _ items => exact allValues_unplacedAll items
  | _ => rfl

theorem allValues_unplacedAll (ns : List Node) : allValues (unplacedAll ns) = allValues ns := by
  cases ns with
  | nil => rfl
  | cons n ns => simp only [unplacedAll, allValues, isValue_unplaced n, allValues_unplacedAll ns]

end

mutual

theorem layers_unplaced (n : Node) : n.unplaced.layers = n.layers := by
  cases n with
  | vector _ items => exact layersAll_unplacedAll items
  | _ => rfl

theorem layersAll_unplacedAll (ns : List Node) : layersAll (unplacedAll ns) = layersAll ns := by
  cases ns with
  | nil => rfl
  | cons n ns => simp only [unplacedAll, layersAll, layers_unplaced n, layersAll_unplacedAll ns]

end

theorem layers_lt_layersAll {n : Node} {ns : List Node} (h : n ∈ ns) :
    n.layers < layersAll ns := by
  induction ns with
  | nil => cases h
  | cons first ns ih =>
    rw [layersAll]
    rcases List.mem_cons.mp h with rfl | h
    · omega
    · have := ih h
      omega

theorem isValue_of_isConstant {n : Node} (h : n.isConstant = true) : n.isValue = true := by
  cases n with
  | symbol p name => cases h
  | call p ns => cases h
  | vector p ns => cases h
  | _ => simp [isValue]

theorem hereditary_isValue : Hereditary (·.isValue = true) where
  number := fun _ _ => isValue_of_isConstant rfl
  text := fun _ _ => isValue_of_isConstant rfl
  atom := fun _ _ => isValue_of_isConstant rfl
  vector := fun p ns => by simp [isValue, allValues_iff]
  moveTo := fun p {n} h => by
    cases n <;> exact h

end Node

/-- Any node may be evaluated; what is given is a value. -/
def Vocabulary.values : Vocabulary where
  Code := fun _ => True
  Value := (·.isValue = true)
  hereditary := Node.hereditary_isValue
  code_of_value := fun _ => trivial
  value_of_isConstant := fun _ => Node.isValue_of_isConstant
  code_of_call := fun _ _ _ => trivial
  code_of_vector := fun _ _ _ => trivial
  value_quoted_iff := by simp [Node.isValue]
  value_closure_iff := by simp [Node.isValue]

namespace Interpreter

variable {i : Interpreter}

/-! ### Values evaluate to themselves -/

/-- Evaluating values one by one gives them back, if evaluating each of them does. -/
theorem evalAll_eq_of_forall {e : Evaluator} (frame : FrameId) (depth : Nat) {ns : List Node}
    (h : ∀ n ∈ ns, ∀ w, e n frame depth w = .ok n { w with steps := w.steps + n.weight })
    (w : World) :
    evalAll e frame depth ns w = .ok ns { w with steps := w.steps + Node.weightAll ns } := by
  unfold evalAll
  induction ns generalizing w with
  | nil => rfl
  | cons n ns ih =>
    obtain ⟨first, others⟩ := List.forall_mem_cons.mp h
    rw [List.mapM_cons]
    simp only [Bind.bind, EStateM.bind, first w, ih others, Node.weightAll, Nat.add_assoc]
    rfl

/-- A value evaluates to itself, where its layers fit in between the depth and the limit. -/
theorem evalAt_eq_of_isValue (free : i.limits.budget = none) {fuel depth : Nat} {v : Node}
    (isValue : v.isValue = true) (room : depth + v.layers < i.limits.depth)
    (enough : v.layers < fuel) (frame : FrameId) (w : World) :
    i.evalAt fuel v frame depth w = .ok v { w with steps := w.steps + v.weight } := by
  induction fuel generalizing depth v w with
  | zero => cases enough
  | succ fuel ih =>
    rw [evalAt, step_eq, if_neg (by omega)]
    simp only [Bind.bind, EStateM.bind, Run.tick_of_none free]
    cases v with
    | symbol p name => cases isValue
    | call p ns => cases isValue
    | vector p ns =>
      have items : ∀ n ∈ ns, ∀ w, i.evalAt fuel n frame (depth + 1) w =
          .ok n { w with steps := w.steps + n.weight } := by
        intro n mem
        have inner : n.layers < Node.layersAll ns := Node.layers_lt_layersAll mem
        rw [Node.layers] at room enough
        exact ih (Node.allValues_iff.mp isValue n mem) (by omega) (by omega)
      simp only [visit, Bind.bind, EStateM.bind, evalAll_eq_of_forall frame (depth + 1) items,
        Node.weight, Nat.add_assoc, Nat.add_comm 1]
      rfl
    | _ => rfl

/-- An expansion that is a value is what the call of the expander gives: evaluating it
changes nothing but the number of steps. -/
theorem apply_expander_of_isValue (free : i.limits.budget = none) {fuel depth : Nat} {l : Lambda}
    (isExpander : l.kind = .expander) {body v : Node} {args : List Node} {place : Place}
    {w w' : World}
    (expands : enter (i.evalAt fuel) l body (args.map .quote) place depth w = .ok v w')
    (isValue : v.isValue = true) (room : depth + 1 + v.layers < i.limits.depth)
    (enough : v.layers < fuel) (frame : FrameId) (p : Place) (head : Node) :
    i.apply fuel (i.evalAt fuel) place frame depth head (.closure p l body) args w =
      .ok v { w' with steps := w'.steps + v.weight } := by
  unfold apply
  simp only [isExpander, Bind.bind, EStateM.bind, expands]
  exact evalAt_eq_of_isValue free isValue room enough frame w'

/-! ### Results are values -/

/-- Evaluation gives values, and values evaluate to themselves. If every binding is a value at
the start, as in a fresh global frame, then also at the end, however that comes about; the
result is a value, and so never a symbol, and a signal carries a value. A value evaluates to
itself and changes no frame, where its layers fit in between the depth and the limit; so an
expander that returns one gives just that. -/
theorem evalAt_values (i : Interpreter)
    (hosts : ∀ host ∈ i.hosts, host.Preserves (·.isValue = true)) :
    (∀ serial, (Store.global serial).All (·.isValue = true)) ∧
    (∀ fuel node frame depth w, w.store.All (·.isValue = true) →
      ((i.evalAt fuel node frame depth).final w).store.All (·.isValue = true) ∧
      (∀ v w', i.evalAt fuel node frame depth w = .ok v w' →
        v.isValue = true ∧ ∀ p name, v ≠ .symbol p name) ∧
      (∀ s w', i.evalAt fuel node frame depth w = .error (.raised s) w' →
        s.payload.isValue = true)) ∧
    (∀ v fuel frame depth w, i.limits.budget = none → v.isValue = true →
      depth + v.layers < i.limits.depth → v.layers < fuel →
      i.evalAt fuel v frame depth w = .ok v { w with steps := w.steps + v.weight }) ∧
    (∀ l body v args place fuel frame depth p head w w', i.limits.budget = none →
      l.kind = .expander → v.isValue = true →
      depth + 1 + v.layers < i.limits.depth → v.layers < fuel →
      enter (i.evalAt fuel) l body (args.map .quote) place depth w = .ok v w' →
      i.apply fuel (i.evalAt fuel) place frame depth head (.closure p l body) args w =
        .ok v { w' with steps := w'.steps + v.weight }) := by
  refine ⟨?_, ?_, ?_, ?_⟩
  · exact Store.all_global (fun _ _ => by simp [Node.isValue]) fun _ _ => by simp [Node.isValue]
  · intro fuel node frame depth w bound
    have admits : ∀ host ∈ i.hosts, (Contract.bindings .values fun _ => True).Admits host :=
      fun host isHost => Host.Preserves.admits (hosts host isHost) fun _ _ _ => trivial
    have keeps : (Contract.bindings .values fun _ => True).Keeps (·.isValue = true)
        (i.evalAt fuel node frame depth) :=
      evalAt_serves_bindings trivial admits fuel depth frame trivial
    obtain ⟨store, result, payload⟩ := Contract.bindings_outcome keeps bound
    refine ⟨store, fun v w' ended => ⟨result v w' ended, ?_⟩, payload⟩
    rintro p name rfl
    cases result _ w' ended
  · intro v fuel frame depth w free isValue room enough
    exact evalAt_eq_of_isValue free isValue room enough frame w
  · intro l body v args place fuel frame depth p head w w' free isExpander isValue room enough
      expands
    exact apply_expander_of_isValue free isExpander expands isValue room enough frame p head

/-- In a fresh global frame, with a function that packs its arguments: `[1 ['x]]` evaluates to
itself, and a call of the function leaves only values bound. -/
theorem pack_values :
    let pack : Host := fun args => .value (.vector .computed args)
    let i : Interpreter := { hosts := #[pack] }
    let one : Node := .number .computed (.int 1)
    let row : Node := .vector .computed
      [one, .vector .computed [.quoted .computed (.symbol .computed "x")]]
    let packed : Node := .call .computed
      [.primitive .computed ⟨0, "pack", .any, .host 0⟩, one, .symbol .computed "+"]
    let w : World := ⟨.global 1, 0, ""⟩
    i.evalAt 3 row Store.root 0 w = .ok row { w with steps := 4 } ∧
      ((i.evalAt 3 packed Store.root 0).final w).store.All (·.isValue = true) := by
  intro pack i one row packed w
  have hosts : ∀ host ∈ i.hosts, host.Preserves (·.isValue = true) := by
    intro host isHost
    rw [List.mem_singleton.mp (Array.mem_def.mp isHost)]
    rintro args all v ⟨⟩
    exact Node.allValues_iff.mpr all
  obtain ⟨global, values, itself, _⟩ := evalAt_values i hosts
  exact ⟨itself row 3 Store.root 0 w rfl (by decide) (by decide) (by decide),
    (values 3 packed Store.root 0 w (global 1)).1⟩

end Interpreter

end Sexpr
