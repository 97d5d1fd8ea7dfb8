/-
The parts of a node.

`Node.parts` lists a node and all that occurs in it: the items of calls and vectors, what
is quoted, and the bodies of closures. `Node.Everywhere P` says that all of these have the
property `P`. What moving a node and putting vectors together keep of such a property is
what operations rely on (`Node.Everywhere.hereditary`).
-/

import Sexpr.Proofs.Operation.Results

namespace Sexpr.Node

mutual

/-- The node and all nodes inside of it. -/
def parts : Node → List Node
  | .call p items => .call p items :: partsAll items
  | .vector p items => .vector p items :: partsAll items
  | .quoted p inner => .quoted p inner :: parts inner
  | .closure p l body => .closure p l body :: parts body
  | n => [n]

def partsAll : List Node → List Node
  | [] => []
  | n :: ns => parts n ++ partsAll ns

end

theorem mem_partsAll {ns : List Node} {m : Node} : m ∈ partsAll ns ↔ ∃ n ∈ ns, m ∈ n.parts := by
  induction ns with
  | nil => simp [partsAll]
  | cons n ns ih => simp [partsAll, ih]

/-- The node is neither a closure nor a primitive, whatever is inside of it. -/
def isPlain : Node → Bool
  | .closure _ _ _ | .primitive _ _ => false
  | _ => true

/-- The node and all nodes inside of it have the property. -/
def Everywhere (P : Node → Prop) (n : Node) : Prop :=
  ∀ m ∈ n.parts, P m

namespace Everywhere

variable {P : Node → Prop}

theorem mono {Q : Node → Prop} {n : Node} (h : Everywhere P n) (le : ∀ m, P m → Q m) :
    Everywhere Q n :=
  fun m mem => le m (h m mem)

theorem call_iff {p : Place} {ns : List Node} :
    Everywhere P (.call p ns) ↔ P (.call p ns) ∧ ∀ n ∈ ns, Everywhere P n := by
  simp only [Everywhere, parts, List.forall_mem_cons, mem_partsAll]
  grind

theorem vector_iff {p : Place} {ns : List Node} :
    Everywhere P (.vector p ns) ↔ P (.vector p ns) ∧ ∀ n ∈ ns, Everywhere P n := by
  simp only [Everywhere, parts, List.forall_mem_cons, mem_partsAll]
  grind

theorem quoted_iff {p : Place} {n : Node} :
    Everywhere P (.quoted p n) ↔ P (.quoted p n) ∧ Everywhere P n := by
  simp only [Everywhere, parts, List.forall_mem_cons]

theorem closure_iff {p : Place} {l : Lambda} {body : Node} :
    Everywhere P (.closure p l body) ↔ P (.closure p l body) ∧ Everywhere P body := by
  simp only [Everywhere, parts, List.forall_mem_cons]

/-- What plain nodes have, and what is not a matter of places, operations keep. -/
theorem hereditary (plain : ∀ n, n.isPlain = true → P n) (moved : ∀ p n, P n → P (n.moveTo p)) :
    Hereditary (Everywhere P) where
  number p n := List.forall_mem_singleton.mpr (plain (.number p n) rfl)
  text p s := List.forall_mem_singleton.mpr (plain (.text p s) rfl)
  atom p name := List.forall_mem_singleton.mpr (plain (.atom p name) rfl)
  vector p ns := vector_iff.trans (and_iff_right (plain (.vector p ns) rfl))
  moveTo p {n} h := by
    cases n with
    | call q ns => exact call_iff.mpr ⟨moved p _ (call_iff.mp h).1, (call_iff.mp h).2⟩
    | vector q ns => exact vector_iff.mpr ⟨moved p _ (vector_iff.mp h).1, (vector_iff.mp h).2⟩
    | quoted q n => exact quoted_iff.mpr ⟨moved p _ (quoted_iff.mp h).1, (quoted_iff.mp h).2⟩
    | closure q l body =>
      exact closure_iff.mpr ⟨moved p _ (closure_iff.mp h).1, (closure_iff.mp h).2⟩
    | _ => exact List.forall_mem_singleton.mpr (moved p _ (List.forall_mem_singleton.mp h))

end Everywhere

end Sexpr.Node
