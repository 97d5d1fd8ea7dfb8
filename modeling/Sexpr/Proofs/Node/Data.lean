/-
Data: the nodes that can be written down.

A node is data when nothing in it is callable, its names are names, and its doubles
are finite. `Node.nesting` counts the brackets and quote marks around its innermost
part, and `Node.unplaced` forgets where a node and its parts come from; two nodes
have the same structure when they are equal without their places. Being data and
the nesting are matters of structure alone.
-/

import Sexpr.Name
import Sexpr.Node.Basic

namespace Sexpr

/-- Every integer is finite, and a double that is neither infinite nor undefined. -/
def Number.isFinite : Number → Bool
  | .int _ => true
  | .float x => x.isFinite

namespace Node

/-! ### Structure without places -/

mutual

/-- The node without its place and those of its parts. -/
def unplaced : Node → Node
  | .number _ n => .number .computed n
  | .symbol _ name => .symbol .computed name
  | .text _ s => .text .computed s
  | .atom _ name => .atom .computed name
  | .call _ items => .call .computed (unplacedAll items)
  | .vector _ items => .vector .computed (unplacedAll items)
  | .quoted _ inner => .quoted .computed (unplaced inner)
  | .closure _ l body => .closure .computed l (unplaced body)
  | .primitive _ p => .primitive .computed p
  | .form _ f => .form .computed f

/-- Nodes without their places, one by one. -/
def unplacedAll : List Node → List Node
  | [] => []
  | n :: ns => unplaced n :: unplacedAll ns

end

theorem unplacedAll_append (ns ms : List Node) :
    unplacedAll (ns ++ ms) = unplacedAll ns ++ unplacedAll ms := by
  induction ns with
  | nil => rfl
  | cons n ns ih => simp only [List.cons_append, unplacedAll, ih]

theorem unplaced_moveTo (p : Place) (n : Node) : (n.moveTo p).unplaced = n.unplaced := by
  cases n <;> rfl

/-! ### Nesting -/

mutual

/-- The number of brackets and quote marks around the innermost part of a node. -/
def nesting : Node → Nat
  | .call _ items | .vector _ items => nestingAll items
  | .quoted _ inner => nesting inner + 1
  | _ => 0

/-- One more than the nesting of the deepest item, or zero if there is none. -/
def nestingAll : List Node → Nat
  | [] => 0
  | n :: ns => max (nesting n + 1) (nestingAll ns)

end

theorem nestingAll_le_iff {ns : List Node} {k : Nat} :
    nestingAll ns ≤ k ↔ ∀ n ∈ ns, n.nesting < k := by
  induction ns with
  | nil => simp [nestingAll]
  | cons n ns ih =>
    simp only [nestingAll, Nat.max_le, ih, List.mem_cons, forall_eq_or_imp, Nat.succ_le_iff]

/-- Some item is as deep as a row that is not flat. -/
theorem exists_of_lt_nestingAll {ns : List Node} {k : Nat} (h : k < nestingAll ns) :
    ∃ n ∈ ns, k ≤ n.nesting := by
  have deep : ¬ ∀ n ∈ ns, n.nesting < k := fun all => by
    have := nestingAll_le_iff.mpr all
    omega
  simpa using deep

mutual

theorem nesting_unplaced (n : Node) : n.unplaced.nesting = n.nesting := by
  cases n with
  | call _ items => exact nestingAll_unplacedAll items
  | vector _ items => exact nestingAll_unplacedAll items
  | quoted _ inner => simp only [unplaced, nesting, nesting_unplaced inner]
  | _ => rfl

theorem nestingAll_unplacedAll (ns : List Node) : nestingAll (unplacedAll ns) = nestingAll ns := by
  cases ns with
  | nil => rfl
  | cons n ns => simp only [unplacedAll, nestingAll, nesting_unplaced n, nestingAll_unplacedAll ns]

end

/-! ### Data -/

mutual

/-- The node can be written down: nothing in it is callable, symbols and atoms are
named by names, and doubles are finite. -/
def isData : Node → Bool
  | .number _ n => n.isFinite
  | .symbol _ name => isSymbolName name.toList
  | .text _ _ => true
  | .atom _ name => isAtomName name.toList
  | .call _ items | .vector _ items => allData items
  | .quoted _ inner => isData inner
  | .closure _ _ _ | .primitive _ _ | .form _ _ => false

/-- All of the nodes can be written down. -/
def allData : List Node → Bool
  | [] => true
  | n :: ns => isData n && allData ns

end

mutual

theorem isData_unplaced (n : Node) : n.unplaced.isData = n.isData := by
  cases n with
  | call _ items => exact allData_unplacedAll items
  | vector _ items => exact allData_unplacedAll items
  | quoted _ inner => exact isData_unplaced inner
  | _ => rfl

theorem allData_unplacedAll (ns : List Node) : allData (unplacedAll ns) = allData ns := by
  cases ns with
  | nil => rfl
  | cons n ns => simp only [unplacedAll, allData, isData_unplaced n, allData_unplacedAll ns]

end

end Node

end Sexpr
