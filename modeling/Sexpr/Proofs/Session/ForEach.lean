/-
An iterator in a session.

A program that defines the iterator as a macro is run first. A later program that calls it with
a name, a vector of integers and the product of the name with itself gets the vector of their
squares. The call is expanded in a frame of its own and the expansion is a value, so the root
frame keeps its bindings: the name and what the iterator counts with are bound elsewhere. All
of that is put together from how the nodes evaluate that were read nowhere
(`Interpreter.costs_enterForEach`), since places do not influence evaluation. Main statement:
`Session.run_forEach`.
-/

import Sexpr.Proofs.Run.ForEach
import Sexpr.Proofs.Run.Frames
import Sexpr.Proofs.Run.Values
import Sexpr.Proofs.Session.Interactive
import Sexpr.Proofs.Session.Pieces

namespace Sexpr

open Node (name int app)
open Likeness (unlabelled)

/-! ### The programs -/

def forEachText : String := "
(macro for-each [name items body]
  (do
    (setn source (eval items))
    (setn results [])
    (setn index 0)
    (loop
      (if (= index (len source)) (break))
      (setr name (at index source))
      (setn results (snoc results (eval body)))
      (setn index (+ index 1)))
    results))
"

/-- The text is read as the definition of the iterator. -/
theorem read_forEachText (label : String) :
    ∃ node, read {} label forEachText = ⟨[node], none⟩ ∧ node.unplaced = forEachDefinition := by
  refine read_of_print_eq (n := forEachDefinition) rfl ?_ label
  rw [forEachText, String.toList_ofList]
  decide +kernel

def squaring (xs : List Int64) : Node :=
  app "for-each" [name "n", ints xs, square]

def squaringText (xs : List Int64) : String :=
  "(for-each n [" ++ " ".intercalate (xs.map fun x => (Number.int x).print) ++ "] (* n n))"

theorem print_squaring (xs : List Int64) : (squaring xs).print = squaringText xs := by
  have items : (ints xs).print =
      "[" ++ (" ".intercalate (xs.map fun x => (Number.int x).print) ++ "]") := by
    rw [ints, Node.print, Node.printAll_eq_map, List.map_map, String.append_assoc]
    rfl
  have parts : (squaring xs).print =
      "(" ++ ("for-each" ++ " " ++ "n" ++ " " ++ (ints xs).print ++ " " ++ square.print) ++ ")" :=
    rfl
  have squared : square.print = "(* n n)" := by decide +kernel
  have front : "(for-each n [" = "(" ++ "for-each" ++ " " ++ "n" ++ " " ++ "[" := by decide
  have back : "] (* n n))" = "]" ++ " " ++ "(* n n)" ++ ")" := by decide
  rw [parts, items, squared, squaringText, front, back]
  simp only [String.append_assoc]

example : squaringText [1, 2, 3] = "(for-each n [1 2 3] (* n n))" := by
  decide +kernel

theorem unplacedAll_ints (xs : List Int64) : Node.unplacedAll (xs.map int) = xs.map int := by
  induction xs with
  | nil => rfl
  | cons x xs ih => rw [List.map_cons, Node.unplacedAll, ih, Node.unplaced]

theorem unplaced_ints (xs : List Int64) : (ints xs).unplaced = ints xs :=
  congrArg (Node.vector .computed) (unplacedAll_ints xs)

theorem unplaced_squaring (xs : List Int64) : (squaring xs).unplaced = squaring xs := by
  simp only [squaring, square, Node.unplaced, Node.unplacedAll, unplaced_ints]

theorem allData_ints (xs : List Int64) : Node.allData (xs.map int) = true := by
  induction xs with
  | nil => rfl
  | cons x xs ih => rw [List.map_cons, Node.allData, ih]; rfl

theorem nestingAll_ints_le (xs : List Int64) : Node.nestingAll (xs.map int) ≤ 1 := by
  rw [Node.nestingAll_le_iff, List.forall_mem_map]
  exact fun _ _ => Nat.zero_lt_one

theorem isValue_ints (xs : List Int64) : (ints xs).isValue = true := by
  rw [ints, Node.isValue, Node.allValues_iff, List.forall_mem_map]
  exact fun _ _ => Node.isValue_of_isConstant rfl

theorem layers_ints_le (xs : List Int64) : (ints xs).layers ≤ 1 := by
  rw [ints, Node.layers]
  induction xs with
  | nil => exact Nat.zero_le 1
  | cons x xs ih => exact Nat.max_le.mpr ⟨Nat.le_refl 1, ih⟩

/-- The text is read as the call of the iterator. -/
theorem read_squaringText (xs : List Int64) (label : String) :
    ∃ node, read {} label (squaringText xs) = ⟨[node], none⟩ ∧ node.unplaced = squaring xs := by
  have data : (squaring xs).isData = true := by
    have items : (ints xs).isData = true := allData_ints xs
    have operands : square.isData = true := rfl
    simp only [squaring, Node.isData, Node.allData, items, operands]
    rfl
  have room : (squaring xs).nesting < 128 := by
    have items : (ints xs).nesting ≤ 1 := nestingAll_ints_le xs
    have operands : square.nesting = 1 := rfl
    simp only [squaring, Node.nesting, Node.nestingAll, operands]
    omega
  have reads := @read_print {} (squaring xs) data room label
  rwa [print_squaring, unplaced_squaring] at reads

/-! ### Alike stores -/

namespace Likeness

variable {L : Likeness} {s t : Store}

/-- In an alike store the iterator is bound, too, with an alike body. -/
theorem Stores.bound_forEach (h : L.Stores s t) {serial : Nat} (defined : s.Iterates serial) :
    ∃ p body, t.find? Store.root "for-each" = some (.closure p (forEachMacro serial) body) ∧
      L.Nodes forEachBody body := by
  have found := h.find Store.root "for-each"
  rw [defined.bound] at found
  generalize t.find? Store.root "for-each" = bound at found
  cases found with
  | some alike =>
    cases alike with
    | closure _ _ body => exact ⟨_, _, rfl, body⟩

/-- The same names are bound in alike stores. -/
theorem Stores.contains_eq (h : L.Stores s t) (id : FrameId) (x : String) :
    s.contains id x = t.contains id x := by
  have found := h.find id x
  unfold Store.contains
  generalize s.find? id x = a at *
  generalize t.find? id x = b at *
  cases found <;> rfl

end Likeness

namespace Node

/-- A node that is the call of a name but for places. -/
theorem eq_call_of_unplaced {n : Node} {x : String} {operands : List Node}
    (h : n.unplaced = app x operands) :
    ∃ place p args, n = .call place (.symbol p x :: args) ∧ unplacedAll args = operands := by
  cases n <;> simp only [unplaced, app, reduceCtorEq, Node.call.injEq, true_and] at h
  case call place items =>
    rcases items with _ | ⟨head, args⟩
    · cases h
    · obtain ⟨isName, same⟩ := List.cons.inj h
      cases head <;> simp only [unplaced, name, reduceCtorEq, Node.symbol.injEq, true_and] at isName
      case symbol p _ => exact ⟨place, p, args, isName ▸ rfl, same⟩

end Node

/-! ### The call -/

namespace Interpreter

variable {i : Interpreter} {fuel : Nat} {s : Store} {xs ys : List Int64}

/-- Wherever it was read, the call of the iterator gives the squares and changes no frame. -/
theorem evalAt_squaring (free : i.limits.budget = none) (room : 8 ≤ i.limits.depth)
    (hosts : ∀ host ∈ i.hosts, unlabelled.RespectedBy host) (short : xs.length < 2 ^ 63)
    (squares : Squares xs ys) (enough : xs.length ≤ fuel) {serial : Nat}
    (defined : s.Iterates serial) {w : World} (alike : unlabelled.Stores s w.store) {node : Node}
    (spelled : node.unplaced = squaring xs) :
    ∃ value w', i.evalAt (fuel + 8) node Store.root 0 w = .ok value w' ∧
      value.unplaced = ints ys ∧ w.store.Keeps w'.store := by
  obtain ⟨place, p, args, rfl, operands⟩ := Node.eq_call_of_unplaced spelled
  obtain ⟨q, body, bound, bodies⟩ := alike.bound_forEach defined
  -- the call is expanded like the one that was read nowhere
  obtain ⟨t, costs⟩ := costs_enterForEach (i := i) room short squares enough defined
  have ended := costs.ends (w.later 2).steps w.output (Limits.allows_of_none free _)
  have operands' := (List.cons.inj (Node.call.inj (unplaced_squaring xs)).2).2
  have quoted : List.Forall₂ unlabelled.Nodes ([name "n", ints xs, square].map .quote)
      (args.map .quote) :=
    List.rel_map (fun _ _ alike => alike.quote)
      (Node.alike_of_unplacedAll_eq (fun _ _ => trivial) (operands'.trans operands.symm))
  have enters := enter_alike (evalAt_respects hosts (fuel + 7)) (forEachMacro serial) bodies quoted
    (p := .computed) (q := place) trivial 0 ⟨s, (w.later 2).steps, w.output⟩ (w.later 2)
    ⟨alike, rfl, rfl⟩
  rw [ended] at enters
  have kept := (i.writesOnly_enter (fuel + 7) (forEachMacro serial) body (args.map .quote) place 0
    _ (w.later 2)).keeps
  unfold Run.final at kept
  generalize entered : enter _ _ _ _ _ _ (w.later 2) = r at enters kept
  cases enters with
  | @ok _ value _ w' values _ =>
    have spelled : value.unplaced = ints ys := by rw [← values.unplaced_eq, unplaced_ints]
    have isValue : value.isValue = true := by
      rw [← Node.isValue_unplaced, spelled]
      exact isValue_ints ys
    have flat : value.layers ≤ 1 := by
      rw [← Node.layers_unplaced, spelled]
      exact layers_ints_le ys
    have applied := apply_expander_of_isValue free rfl entered isValue (by omega) (by omega)
      Store.root q (.symbol p "for-each")
    refine ⟨value, { w' with steps := w'.steps + value.weight }, ?_, spelled, kept⟩
    rw [evalAt_call free (by omega) (fuel + 6) bound]
    exact Run.traced_of_ok applied place

end Interpreter

/-! ### The session -/

namespace Session

/-- Programs are read and evaluated by default, and the iterator is defined. -/
structure Iterates (t : Session) : Prop where
  reading : t.reading = {}
  interpreter : t.interpreter = {}
  defined : ∃ m s, Store.Iterates s m ∧ unlabelled.Stores s t.world.store

/-- No function of the embedding program is called. -/
theorem respectedBy_default (L : Likeness) :
    ∀ host ∈ Interpreter.hosts {}, L.RespectedBy host := by
  rintro host ⟨mem⟩
  cases mem

/-- The program that defines the iterator does so. -/
theorem run_forEachText (serial : Nat) {fuel : Nat} (enough : 2 ≤ fuel) (label : String) :
    ∃ value t, { start {} {} serial with fuel }.run label forEachText = (.ok value, t) ∧
      t.fuel = fuel ∧ t.Iterates := by
  obtain ⟨fuel, rfl⟩ : ∃ n, fuel = n + 2 := ⟨fuel - 2, by omega⟩
  obtain ⟨node, reading, spelled⟩ := read_forEachText label
  obtain ⟨s, defined, costs⟩ := Interpreter.costs_forEachDefinition (i := {}) (by decide)
    (Store.root_lt_size_global serial) (Store.sees_global serial)
    fun x mem => Store.find?_global_of_notMem serial (ordinary_forEachNames x mem)
  have ended := costs.ends 0 "" (Limits.allows_of_none rfl _)
  -- the definition that was read does what the one does that was read nowhere
  have alike : unlabelled.Nodes forEachDefinition node :=
    Node.alike_of_unplaced_eq (fun _ _ => trivial) spelled.symm
  have worlds : unlabelled.Worlds ⟨.global serial, 0, ""⟩
      ⟨(Store.global serial).setProgram Store.root label, 0, ""⟩ := by
    have itself := Likeness.unlabelled_refl_worlds ⟨.global serial, 0, ""⟩
    exact ⟨Likeness.unlabelled_setProgram itself.store Store.root label, rfl, rfl⟩
  have ends := Interpreter.evalAt_respects (respectedBy_default unlabelled) (fuel + 2)
    Store.root 0 alike _ _ worlds
  rw [ended] at ends
  generalize evaluated : Interpreter.evalAt _ _ node _ _ _ = r at ends
  cases ends with
  | @ok _ value _ w _ worlds =>
    exact ⟨value, _, run_of_form reading evaluated, rfl, rfl, rfl, _, s, defined, worlds.store⟩

/-- The program that calls the iterator gives the squares, and leaves the root frame with the
bindings that it had. -/
theorem run_squaringText {t : Session} {xs ys : List Int64} (iterates : t.Iterates)
    (short : xs.length < 2 ^ 63) (squares : Squares xs ys) (enough : xs.length + 8 ≤ t.fuel)
    (label : String) :
    ∃ value u, t.run label (squaringText xs) = (.ok value, u) ∧ value.unplaced = ints ys ∧
      (u.world.store.frame Store.root).bindings = (t.world.store.frame Store.root).bindings := by
  obtain ⟨isReading, isInterpreter, m, s, defined, alike⟩ := iterates
  obtain ⟨fuel, isFuel⟩ : ∃ n, t.fuel = n + 8 := ⟨t.fuel - 8, by omega⟩
  obtain ⟨node, reading, spelled⟩ := read_squaringText xs label
  rw [← isReading] at reading
  let w : World := ⟨t.world.store.setProgram Store.root label, 0, t.world.output⟩
  obtain ⟨value, w', evaluated, values, keeps⟩ := Interpreter.evalAt_squaring (i := {}) (w := w) rfl
    (by decide) (respectedBy_default unlabelled) short squares (by omega : xs.length ≤ fuel) defined
    (Likeness.unlabelled_setProgram alike Store.root label) spelled
  rw [← isInterpreter, ← isFuel] at evaluated
  refine ⟨value, _, run_of_form reading evaluated, values, ?_⟩
  have inUse : Store.root < t.world.store.frames.size := alike.size ▸ defined.inUse
  have kept := keeps.frame_eq Store.root (by simpa [w, Store.setProgram] using inUse)
  have relabelled : (w.store.frame Store.root).bindings =
      (t.world.store.frame Store.root).bindings := by
    simp only [w, Store.setProgram, Store.frame_update_self _ inUse]
  exact (congrArg Frame.bindings kept).trans relabelled

/-- An iterator that is made of a loop maps over every vector. In a session in which nothing has
happened but the definition of the iterator, the call with a vector of integers, of which each
has a square that is an integer of 64 bits, and with the product of the name with itself gives
the vector of the squares, in order. The bindings of the root frame stay as they are, and none
of the names that the iterator binds is bound there. -/
theorem run_forEach (serial fuel : Nat) (first second : String) (xs : List Int64)
    (short : xs.length < 2 ^ 63) (fit : ∀ x ∈ xs, x.toInt * x.toInt < 2 ^ 63)
    (enough : xs.length + 8 ≤ fuel) :
    let defined := { start {} {} serial with fuel }.run first forEachText
    let used := defined.2.run second (squaringText xs)
    (∃ value, defined.1 = .ok value) ∧
    (∃ value, used.1 = .ok value ∧
      value.unplaced = ints (xs.map fun x => Int64.ofInt (x.toInt * x.toInt))) ∧
    (used.2.world.store.frame Store.root).bindings =
      (defined.2.world.store.frame Store.root).bindings ∧
    ∀ x ∈ ["n", "source", "results", "index"],
      used.2.world.store.contains Store.root x = false := by
  intro defined used
  obtain ⟨value, t, ran, isFuel, iterates⟩ := run_forEachText serial (by omega : 2 ≤ fuel) first
  have isDefined : defined = (.ok value, t) := ran
  obtain ⟨result, u, ranAgain, squares, bindings⟩ :=
    run_squaringText iterates short (squares_of_fit fit) (by omega) second
  have isUsed : used = (.ok result, u) :=
    (congrArg (fun r => r.2.run second (squaringText xs)) isDefined).trans ranAgain
  rw [isDefined, isUsed]
  refine ⟨⟨value, rfl⟩, ⟨result, rfl, squares⟩, bindings, fun x mem => ?_⟩
  obtain ⟨m, s, defined, alike⟩ := iterates.defined
  have absent : t.world.store.contains Store.root x = false := by
    rw [← alike.contains_eq Store.root x, Store.contains, defined.absent x mem, Option.isSome_none]
  rw [Store.contains, Store.find?_root] at absent ⊢
  exact bindings ▸ absent

/-- The squares of one, two and three. -/
theorem run_forEach_three :
    let defined := { start {} {} 1 with fuel := 11 }.run "for-each.am" forEachText
    let used := defined.2.run "use.am" (squaringText [1, 2, 3])
    (∃ value, used.1 = .ok value ∧ value.unplaced = ints [1, 4, 9]) ∧
      used.2.world.store.contains Store.root "n" = false := by
  have fit : ∀ x ∈ ([1, 2, 3] : List Int64), x.toInt * x.toInt < 2 ^ 63 := by simp
  have computed : ([1, 2, 3] : List Int64).map (fun x => Int64.ofInt (x.toInt * x.toInt)) =
      [1, 4, 9] := by simp
  have mapped := run_forEach 1 11 "for-each.am" "use.am" [1, 2, 3] (by simp) fit (by decide)
  rw [computed] at mapped
  exact ⟨mapped.2.1, mapped.2.2.2 "n" (by decide)⟩

end Session

end Sexpr
