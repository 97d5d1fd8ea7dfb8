/-
Where the reader puts nodes.

The reader makes a node from a word or a literal, from a node behind a quote mark, or from
items between brackets; what holds of nodes that are made so holds of all that is read
(`Reading.Makes.forms`), such as that they stand in the source with the given label
(`Reading.source_of_mem_places`).
-/

import Sexpr.Proofs.Node.Likeness
import Sexpr.Proofs.Reading.Completeness

namespace Sexpr

namespace Reading

variable {settings : ReadSettings} {label : String} {stop : Nat} {stack : List Pending}
  {P : Node → Prop}

/-! ### Nodes -/

/-- The property holds of every node that the reader makes, if it holds of its parts. -/
structure Makes (label : String) (P : Node → Prop) : Prop where
  leaf : ∀ (leaf : Leaf) (start stop : Nat), P (leaf.toNode (.within label start stop))
  quoted : ∀ (start stop : Nat) {n : Node}, P n → P (.quoted (.within label start stop) n)
  node : ∀ (bracket : Bracket) (start stop : Nat) {items : List Node}, (∀ n ∈ items, P n) →
    P (bracket.node (.within label start stop) items)

/-- The items of open brackets have the property. -/
def Holding (P : Node → Prop) (stack : List Pending) : Prop :=
  ∀ bracket start items, .bracket bracket start items ∈ stack → ∀ n ∈ items, P n

/-- What the reader has come to after a token has the property. -/
def HoldingAfter (P : Node → Prop) : Progress → Prop
  | .inside stack => Holding P stack
  | .done node => P node

theorem Holding.tail {pending : Pending} (h : Holding P (pending :: stack)) : Holding P stack :=
  fun bracket start items mem => h bracket start items (List.mem_cons_of_mem _ mem)

theorem Holding.cons (h : Holding P stack) {bracket : Bracket} {start : Nat} {items : List Node}
    (all : ∀ n ∈ items, P n) : Holding P (.bracket bracket start items :: stack) := by
  intro bracket' start' items' mem
  rcases List.mem_cons.mp mem with same | outer
  · cases same
    exact all
  · exact h bracket' start' items' outer

theorem Makes.deliver (makes : Makes label P) (h : Holding P stack) {node : Node} (hn : P node)
    (reached : Nat) : HoldingAfter P (Reading.deliver label reached node stack) := by
  induction stack generalizing node with
  | nil => exact hn
  | cons pending stack ih =>
    cases pending with
    | quote start => exact ih h.tail (makes.quoted start reached hn)
    | bracket bracket start items =>
      exact h.tail.cons (List.forall_mem_cons.mpr ⟨hn, h bracket start items List.mem_cons_self⟩)

theorem Makes.step (makes : Makes label P) (h : Holding P stack) {token : Token}
    {progress : Progress} (stepped : Reading.step settings label stack token = .ok progress) :
    HoldingAfter P progress := by
  unfold Reading.step at stepped
  split at stepped
  · rename_i bracket start items outer _ _
    split at stepped
    · cases stepped
      rw [close_eq_node]
      have all : ∀ n ∈ items.reverse, P n := fun n mem =>
        h bracket start items List.mem_cons_self n (List.mem_reverse.mp mem)
      exact makes.deliver h.tail (makes.node _ _ _ all) _
    · cases stepped
  · unfold enter at stepped
    split at stepped
    · cases stepped
    · split at stepped
      · cases stepped
        exact h.cons (by simp)
      · cases stepped
        intro bracket start items mem
        rcases List.mem_cons.mp mem with same | outer
        · cases same
        · exact h bracket start items outer
      · cases stepped
        exact makes.deliver h (makes.leaf _ _ _) _
      · cases stepped
      · cases stepped

theorem Makes.readTokens (makes : Makes label P) (h : Holding P stack) (tokens : List Token) :
    ∀ n ∈ (Reading.readTokens settings label stop stack tokens).1, P n := by
  induction tokens generalizing stack with
  | nil => cases stack <;> simp [Reading.readTokens]
  | cons token tokens ih =>
    cases stepped : Reading.step settings label stack token with
    | error flaw =>
      rw [readTokens_of_error stepped]
      simp
    | ok progress =>
      have after := makes.step h stepped
      rw [readTokens_of_step stepped]
      cases progress with
      | inside stack => exact ih after
      | done node =>
        rw [resume]
        exact List.forall_mem_cons.mpr ⟨after, ih (by simp [Holding])⟩

/-- What holds of all nodes that the reader makes holds of all that is read. -/
theorem Makes.forms (makes : Makes label P) (settings : ReadSettings) (text : String) :
    ∀ n ∈ (read settings label text).forms, P n :=
  makes.readTokens (by simp [Holding]) _

/-- Nodes that are read stand in the source with the given label. -/
theorem source_of_mem_places {text : String} {p : Place}
    (h : p ∈ Node.placesAll (read settings label text).forms) : p.source = label := by
  have makes : Makes label fun n => ∀ p ∈ n.places, p.source = label := by
    refine ⟨fun leaf start stop => ?_, fun start stop n inner => ?_,
      fun bracket start stop items inner => ?_⟩
    · cases leaf <;> simp [Leaf.toNode, Node.places, Place.within]
    · simpa [Node.places, Place.within] using inner
    · have inside : ∀ p ∈ Node.placesAll items, p.source = label := by
        intro p mem
        obtain ⟨n, mem, inNode⟩ := Node.mem_placesAll.mp mem
        exact inner n mem p inNode
      cases bracket <;> simpa [Bracket.node, Node.places, Place.within] using inside
  obtain ⟨n, mem, inNode⟩ := Node.mem_placesAll.mp h
  exact makes.forms settings text n mem p inNode

end Reading

end Sexpr
