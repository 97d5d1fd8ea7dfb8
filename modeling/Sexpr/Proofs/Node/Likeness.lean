/-
Nodes that differ only in where they come from.

`Node.Alike R` relates nodes of the same structure whose places are related by `R`, part
by part. Two relations matter. Where any place may stand for any other, being alike is
being equal without places (`Node.alike_iff_unplaced`). Where a place stands only for
itself, and only if it is known, a node is like itself exactly when all of its places are
known (`Node.alike_self_iff`). What a node means is not a matter of places: alike nodes are
printed, compared and tested in the same way.
-/

import Mathlib.Data.List.Forall2
import Sexpr.Operation.Value
import Sexpr.Proofs.Node.Data

namespace Sexpr

namespace Node

variable {R : Place → Place → Prop} {n m : Node}

/-- The nodes have the same structure, and their places are related by `R`. -/
inductive Alike (R : Place → Place → Prop) : Node → Node → Prop where
  | number {p q : Place} (value : Number) : R p q → Alike R (.number p value) (.number q value)
  | symbol {p q : Place} (name : String) : R p q → Alike R (.symbol p name) (.symbol q name)
  | text {p q : Place} (value : String) : R p q → Alike R (.text p value) (.text q value)
  | atom {p q : Place} (name : String) : R p q → Alike R (.atom p name) (.atom q name)
  | call {p q : Place} {as bs : List Node} : R p q → List.Forall₂ (Alike R) as bs →
      Alike R (.call p as) (.call q bs)
  | vector {p q : Place} {as bs : List Node} : R p q → List.Forall₂ (Alike R) as bs →
      Alike R (.vector p as) (.vector q bs)
  | quoted {p q : Place} {a b : Node} : R p q → Alike R a b →
      Alike R (.quoted p a) (.quoted q b)
  | closure {p q : Place} (l : Lambda) {a b : Node} : R p q → Alike R a b →
      Alike R (.closure p l a) (.closure q l b)
  | primitive {p q : Place} (value : Primitive) : R p q →
      Alike R (.primitive p value) (.primitive q value)
  | form {p q : Place} (f : Form) : R p q → Alike R (.form p f) (.form q f)

theorem Alike.place (h : Alike R n m) : R n.place m.place := by
  cases h <;> assumption

theorem Alike.moveTo {p q : Place} (here : R p q) (h : Alike R n m) :
    Alike R (n.moveTo p) (m.moveTo q) := by
  cases h with
  | number value => exact .number value here
  | symbol name => exact .symbol name here
  | text value => exact .text value here
  | atom name => exact .atom name here
  | call _ items => exact .call here items
  | vector _ items => exact .vector here items
  | quoted _ inner => exact .quoted here inner
  | closure l _ body => exact .closure l here body
  | primitive value => exact .primitive value here
  | form f => exact .form f here

theorem Alike.quote (h : Alike R n m) : Alike R n.quote m.quote :=
  .quoted h.place h

/-! ### Where any place may stand for any other -/

mutual

theorem Alike.unplaced_eq {n m : Node} (h : Alike R n m) : n.unplaced = m.unplaced := by
  cases h with
  | call _ items => simp only [unplaced, unplacedAll_eq_of_alike items]
  | vector _ items => simp only [unplaced, unplacedAll_eq_of_alike items]
  | quoted _ inner => simp only [unplaced, inner.unplaced_eq]
  | closure l _ body => simp only [unplaced, body.unplaced_eq]
  | _ => rfl

theorem unplacedAll_eq_of_alike {ns ms : List Node} (h : List.Forall₂ (Alike R) ns ms) :
    unplacedAll ns = unplacedAll ms := by
  cases h with
  | nil => rfl
  | cons first others =>
    simp only [unplacedAll, first.unplaced_eq, unplacedAll_eq_of_alike others]

end

mutual

theorem alike_of_unplaced_eq (any : ∀ p q, R p q) {n m : Node} (h : n.unplaced = m.unplaced) :
    Alike R n m := by
  cases n <;> cases m <;> simp only [unplaced, reduceCtorEq] at h
  case number.number => cases h; exact .number _ (any _ _)
  case symbol.symbol => cases h; exact .symbol _ (any _ _)
  case text.text => cases h; exact .text _ (any _ _)
  case atom.atom => cases h; exact .atom _ (any _ _)
  case call.call => exact .call (any _ _) (alike_of_unplacedAll_eq any (Node.call.inj h).2)
  case vector.vector =>
    exact .vector (any _ _) (alike_of_unplacedAll_eq any (Node.vector.inj h).2)
  case quoted.quoted => exact .quoted (any _ _) (alike_of_unplaced_eq any (Node.quoted.inj h).2)
  case closure.closure =>
    obtain ⟨_, rfl, body⟩ := Node.closure.inj h
    exact .closure _ (any _ _) (alike_of_unplaced_eq any body)
  case primitive.primitive => cases h; exact .primitive _ (any _ _)
  case form.form => cases h; exact .form _ (any _ _)

theorem alike_of_unplacedAll_eq (any : ∀ p q, R p q) {ns ms : List Node}
    (h : unplacedAll ns = unplacedAll ms) : List.Forall₂ (Alike R) ns ms := by
  cases ns <;> cases ms <;> simp only [unplacedAll, reduceCtorEq] at h
  case nil.nil => exact .nil
  case cons.cons =>
    obtain ⟨first, others⟩ := List.cons.inj h
    exact .cons (alike_of_unplaced_eq any first) (alike_of_unplacedAll_eq any others)

end

/-- Where any place may stand for any other, alike nodes are those that are equal without
their places. -/
theorem alike_iff_unplaced (any : ∀ p q, R p q) : Alike R n m ↔ n.unplaced = m.unplaced :=
  ⟨Alike.unplaced_eq, alike_of_unplaced_eq any⟩

/-! ### Where a place stands only for itself -/

mutual

/-- The places of a node and of all its parts. -/
def places : Node → List Place
  | .number p _ | .symbol p _ | .text p _ | .atom p _ | .primitive p _ | .form p _ => [p]
  | .call p items | .vector p items => p :: placesAll items
  | .quoted p inner => p :: places inner
  | .closure p _ body => p :: places body

/-- The places of nodes and of all their parts. -/
def placesAll : List Node → List Place
  | [] => []
  | n :: ns => places n ++ placesAll ns

end

theorem mem_placesAll {ns : List Node} {p : Place} :
    p ∈ placesAll ns ↔ ∃ n ∈ ns, p ∈ n.places := by
  induction ns with
  | nil => simp [placesAll]
  | cons n ns ih => simp [placesAll, ih]

mutual

theorem Alike.eq_and_known {known : Place → Prop} {n m : Node}
    (h : Alike (fun p q => p = q ∧ known p) n m) : n = m ∧ ∀ p ∈ n.places, known p := by
  cases h with
  | call here items =>
    obtain ⟨rfl, inside⟩ := forall_known_of_alike items
    exact ⟨by rw [here.1], by simpa [places] using ⟨here.2, inside⟩⟩
  | vector here items =>
    obtain ⟨rfl, inside⟩ := forall_known_of_alike items
    exact ⟨by rw [here.1], by simpa [places] using ⟨here.2, inside⟩⟩
  | quoted here inner =>
    obtain ⟨rfl, inside⟩ := inner.eq_and_known
    exact ⟨by rw [here.1], by simpa [places] using ⟨here.2, inside⟩⟩
  | closure l here body =>
    obtain ⟨rfl, inside⟩ := body.eq_and_known
    exact ⟨by rw [here.1], by simpa [places] using ⟨here.2, inside⟩⟩
  | number _ here | symbol _ here | text _ here | atom _ here | primitive _ here | form _ here =>
    exact ⟨by rw [here.1], by simpa [places] using here.2⟩

theorem forall_known_of_alike {known : Place → Prop} {ns ms : List Node}
    (h : List.Forall₂ (Alike fun p q => p = q ∧ known p) ns ms) :
    ns = ms ∧ ∀ p ∈ placesAll ns, known p := by
  cases h with
  | nil => simp [placesAll]
  | cons first others =>
    obtain ⟨rfl, inFirst⟩ := first.eq_and_known
    obtain ⟨rfl, inOthers⟩ := forall_known_of_alike others
    refine ⟨rfl, ?_⟩
    simp only [placesAll, List.mem_append]
    rintro p (mem | mem)
    · exact inFirst p mem
    · exact inOthers p mem

end

theorem place_mem_places (n : Node) : n.place ∈ n.places := by
  cases n <;> simp [places, place]

mutual

theorem alike_of_known {known : Place → Prop} {n : Node} (h : ∀ p ∈ n.places, known p) :
    Alike (fun p q => p = q ∧ known p) n n := by
  have here : known n.place := h _ n.place_mem_places
  cases n with
  | number p value => exact .number value ⟨rfl, here⟩
  | symbol p name => exact .symbol name ⟨rfl, here⟩
  | text p value => exact .text value ⟨rfl, here⟩
  | atom p name => exact .atom name ⟨rfl, here⟩
  | call p items =>
    rw [places, List.forall_mem_cons] at h
    exact .call ⟨rfl, here⟩ (alikeAll_of_known h.2)
  | vector p items =>
    rw [places, List.forall_mem_cons] at h
    exact .vector ⟨rfl, here⟩ (alikeAll_of_known h.2)
  | quoted p inner =>
    rw [places, List.forall_mem_cons] at h
    exact .quoted ⟨rfl, here⟩ (alike_of_known h.2)
  | closure p l body =>
    rw [places, List.forall_mem_cons] at h
    exact .closure l ⟨rfl, here⟩ (alike_of_known h.2)
  | primitive p value => exact .primitive value ⟨rfl, here⟩
  | form p f => exact .form f ⟨rfl, here⟩

theorem alikeAll_of_known {known : Place → Prop} {ns : List Node}
    (h : ∀ p ∈ placesAll ns, known p) : List.Forall₂ (Alike fun p q => p = q ∧ known p) ns ns := by
  cases ns with
  | nil => exact .nil
  | cons n ns =>
    rw [placesAll, List.forall_mem_append] at h
    exact .cons (alike_of_known h.1) (alikeAll_of_known h.2)

end

/-- Where a place stands only for itself, and only if it is known, a node is like itself
exactly when all of its places are known. -/
theorem alike_self_iff {known : Place → Prop} :
    Alike (fun p q => p = q ∧ known p) n n ↔ ∀ p ∈ n.places, known p :=
  ⟨fun h => h.eq_and_known.2, alike_of_known⟩

/-! ### What is not a matter of places -/

mutual

theorem Alike.print_eq {n m : Node} (h : Alike R n m) : n.print = m.print := by
  cases h with
  | call _ items => simp only [print, printAll_eq_of_alike items]
  | vector _ items => simp only [print, printAll_eq_of_alike items]
  | quoted _ inner => simp only [print, inner.print_eq]
  | _ => rfl

theorem printAll_eq_of_alike {ns ms : List Node} (h : List.Forall₂ (Alike R) ns ms) :
    printAll ns = printAll ms := by
  cases h with
  | nil => rfl
  | cons first others => simp only [printAll, first.print_eq, printAll_eq_of_alike others]

end

mutual

theorem Alike.same_eq {a b c d : Node} (h : Alike R a b) (k : Alike R c d) :
    a.same c = b.same d := by
  cases h with
  | call _ items =>
    cases k with
    | call _ others => exact sameAll_eq_of_alike items others
    | _ => rfl
  | vector _ items =>
    cases k with
    | vector _ others => exact sameAll_eq_of_alike items others
    | _ => rfl
  | quoted _ inner =>
    cases k with
    | quoted _ other => exact inner.same_eq other
    | _ => rfl
  | _ => cases k <;> rfl

theorem sameAll_eq_of_alike {as bs cs ds : List Node} (h : List.Forall₂ (Alike R) as bs)
    (k : List.Forall₂ (Alike R) cs ds) : sameAll as cs = sameAll bs ds := by
  cases h with
  | nil => cases k <;> rfl
  | cons first others =>
    cases k with
    | nil => rfl
    | cons second rest =>
      simp only [sameAll, first.same_eq second, sameAll_eq_of_alike others rest]

end

theorem Alike.mention_eq (h : Alike R n m) : n.mention = m.mention := by
  have kind : n.kind = m.kind := by cases h <;> rfl
  rw [mention, mention, kind, h.print_eq]

theorem Alike.isTruthy_eq (h : Alike R n m) : n.isTruthy = m.isTruthy := by
  cases h with
  | vector _ items => cases items <;> rfl
  | _ => rfl

end Node

end Sexpr
