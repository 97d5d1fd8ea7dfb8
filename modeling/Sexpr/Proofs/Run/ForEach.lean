/-
An iterator that is made of a loop.

The body of an iterator is told, quoted, a name, the items, and an expression. In the frame of
the call it counts through the items, binds the name to each of them, evaluates the expression
there, and collects the results. `Mapped` says what is bound in that frame when some of the items
have been gone through; every round goes through one more (`Mapped.next`). The expression here is
the product of the name with itself. Main statement: `Interpreter.costs_forEach`, mapping takes
thirty-five steps for each item and twenty-eight more; the macro of this body is entered at the
same cost (`Interpreter.costs_enterForEach`).
-/

import Sexpr.Proofs.Operation.Slices
import Sexpr.Proofs.Run.Counting

namespace Sexpr

open Node (name int app)

/-! ### The program -/

def ints (xs : List Int64) : Node :=
  .vector .computed (xs.map int)

/-- Leaves the loop behind the last item; before that, goes on to the next one. -/
def forEachRound : List Node := [
  app "if" [app "=" [name "index", app "len" [name "source"]], app "break" []],
  app "setr" [name "name", app "at" [name "index", name "source"]],
  app "setn" [name "results", app "snoc" [name "results", app "eval" [name "body"]]],
  app "setn" [name "index", app "+" [name "index", int 1]]]

def forEachBody : Node :=
  app "do" [
    app "setn" [name "source", app "eval" [name "items"]],
    app "setn" [name "results", ints []],
    app "setn" [name "index", int 0],
    app "loop" forEachRound,
    name "results"]

def square : Node :=
  app "*" [name "n", name "n"]

/-- The items and their squares, in order. -/
def Squares (xs ys : List Int64) : Prop :=
  ys.map Int64.toInt = xs.map fun x => x.toInt * x.toInt

namespace Squares

variable {xs ys : List Int64}

theorem length_eq (h : Squares xs ys) : ys.length = xs.length := by
  simpa using congrArg List.length h

theorem toInt_getElem (h : Squares xs ys) {k : Nat} (inside : k < xs.length)
    (inside' : k < ys.length) : ys[k].toInt = xs[k].toInt * xs[k].toInt := by
  simpa [inside, inside'] using congrArg (·[k]?) h

end Squares

/-- If the squares are integers of 64 bits, they can be computed. -/
theorem squares_of_fit {xs : List Int64} (fit : ∀ x ∈ xs, x.toInt * x.toInt < 2 ^ 63) :
    Squares xs (xs.map fun x => Int64.ofInt (x.toInt * x.toInt)) := by
  rw [Squares, List.map_map, List.map_inj_left]
  intro x mem
  have lower : 0 ≤ x.toInt * x.toInt := mul_self_nonneg x.toInt
  exact Int64.toInt_ofInt_of_le (by omega) (fit x mem)

/-! ### Its frame -/

/-- In the frame, the name and the expression are given, quoted. -/
structure Told (f : FrameId) (s : Store) : Prop where
  inUse : f < s.frames.size
  sees : s.Sees f
  target : s.find? f "name" = some (.quoted .computed (name "n"))
  body : s.find? f "body" = some (.quoted .computed square)

theorem Told.define {f : FrameId} {s : Store} (told : Told f s) (x : String)
    (ordinary : x ∉ catalog.map Builtin.name) (notTarget : "name" ≠ x) (notBody : "body" ≠ x)
    (value : Node) : Told f (s.define f x value) where
  inUse := Store.size_define s f x value ▸ told.inUse
  sees := told.sees.define f ordinary value
  target := (Store.find?_define_of_ne notTarget f value f).trans told.target
  body := (Store.find?_define_of_ne notBody f value f).trans told.body

/-- The first `done` items have been gone through. -/
structure Mapped (xs ys : List Int64) (f : FrameId) (done : Nat) (s : Store) : Prop where
  told : Told f s
  source : s.find? f "source" = some (ints xs)
  results : s.find? f "results" = some (ints (ys.take done))
  index : ∃ c : Int64, c.toInt = done ∧ s.find? f "index" = some (int c)

/-- Before the loop, none of the items has been gone through. -/
theorem Told.mapped {f : FrameId} {s : Store} (told : Told f s) (xs ys : List Int64) :
    Mapped xs ys f 0 (((s.define f "source" (ints xs)).define f "results"
      (ints [])).define f "index" (int 0)) := by
  have told₁ := told.define "source" (by decide) (by decide) (by decide) (ints xs)
  have told₂ := told₁.define "results" (by decide) (by decide) (by decide) (ints [])
  have told₃ := told₂.define "index" (by decide) (by decide) (by decide) (int 0)
  refine ⟨told₃, ?_, ?_, 0, rfl, Store.find?_define_self told₂.inUse _ _⟩
  · rw [Store.find?_define_of_ne (by decide), Store.find?_define_of_ne (by decide)]
    exact Store.find?_define_self told.inUse _ _
  · rw [Store.find?_define_of_ne (by decide)]
    exact Store.find?_define_self told₁.inUse _ _

/-- A round goes through one more item. -/
theorem Mapped.next {xs ys : List Int64} {f : FrameId} {done : Nat} {s : Store}
    (mapped : Mapped xs ys f done s) (x : Int64) {d : Int64} (counted : d.toInt = done + 1) :
    Mapped xs ys f (done + 1) (((s.define f "n" (int x)).define f "results"
      (ints (ys.take (done + 1)))).define f "index" (int d)) := by
  have told₁ := mapped.told.define "n" (by decide) (by decide) (by decide) (int x)
  have told₂ := told₁.define "results" (by decide) (by decide) (by decide)
    (ints (ys.take (done + 1)))
  have told₃ := told₂.define "index" (by decide) (by decide) (by decide) (int d)
  refine ⟨told₃, ?_, ?_, d, counted, Store.find?_define_self told₂.inUse _ _⟩
  · rw [Store.find?_define_of_ne (by decide), Store.find?_define_of_ne (by decide),
      Store.find?_define_of_ne (by decide)]
    exact mapped.source
  · rw [Store.find?_define_of_ne (by decide)]
    exact Store.find?_define_self told₁.inUse _ _

namespace Interpreter

open Run (Costs costs_pure)

variable {i : Interpreter} {f : FrameId} {fuel done : Nat} {s : Store} {xs ys : List Int64}

/-- Comparing the index to the number of the items takes six steps. -/
theorem costs_atEnd (room : 8 ≤ i.limits.depth) {c : Int64} (sees : s.Sees f)
    (source : s.find? f "source" = some (ints xs)) (index : s.find? f "index" = some (int c)) :
    Costs i.limits
      (i.evalAt (fuel + 3) (app "=" [name "index", app "len" [name "source"]]) f 4) s 6
      (.ok (.ofBool .computed (c == Int64.ofNat xs.length))) s := by
  have length : Costs i.limits (i.evalAt (fuel + 2) (app "len" [name "source"]) f 5) s 3
      (.ok (int (Int64.ofNat xs.length))) s := by
    have named : Costs i.limits (evalAll (i.evalAt (fuel + 1)) f 6 [name "source"]) s 1
        (.ok [ints xs]) s :=
      costs_evalAll_cons (costs_symbol (by omega) source _) costs_evalAll_nil
    have computed : Operation.value .length [ints xs] = .ok (int (Int64.ofNat xs.length)) := by
      rw [← List.length_map int]
      rfl
    exact costs_operation sees (by omega) .length named rfl computed rfl
  have values : Costs i.limits
      (evalAll (i.evalAt (fuel + 2)) f 5 [name "index", app "len" [name "source"]]) s 4
      (.ok [int c, int (Int64.ofNat xs.length)]) s :=
    costs_evalAll_pair (costs_symbol (by omega) index _) length
  exact costs_operation sees (by omega) .equal values rfl rfl rfl

/-- Binding the name to the next item takes seven steps. -/
theorem costs_take (room : 8 ≤ i.limits.depth) {c : Int64} (told : Told f s)
    (source : s.find? f "source" = some (ints xs)) (index : s.find? f "index" = some (int c))
    (counted : c.toInt = done) (more : done < xs.length) :
    Costs i.limits
      (i.evalAt (fuel + 3) (app "setr" [name "name", app "at" [name "index", name "source"]]) f 3)
      s 7 (.ok (int xs[done])) (s.define f "n" (int xs[done])) := by
  have values : Costs i.limits (evalAll (i.evalAt (fuel + 1)) f 5 [name "index", name "source"]) s
      2 (.ok [int c, ints xs]) s :=
    costs_evalAll_pair (costs_symbol (by omega) index _) (costs_symbol (by omega) source _)
  have computed : Operation.value .index [int c, ints xs] = .ok (int xs[done]) := by
    rw [int, ints, Operation.value_index counted (by simpa using more), List.getElem_map]
    rfl
  have item : Costs i.limits (i.evalAt (fuel + 2) (app "at" [name "index", name "source"]) f 4) s 4
      (.ok (int xs[done])) s :=
    costs_operation told.sees (by omega) .index values rfl computed rfl
  have target : Costs i.limits (i.evalAt (fuel + 2) (name "name") f 4) s 1
      (.ok (.quoted .computed (name "n"))) s :=
    costs_symbol (by omega) told.target _
  exact costs_bindTo told.sees (by omega) target item

/-- Evaluating the expression and keeping its value takes twelve steps. -/
theorem costs_collect (room : 8 ≤ i.limits.depth) {x y : Int64} {rs : List Int64} (told : Told f s)
    (item : s.find? f "n" = some (int x)) (results : s.find? f "results" = some (ints rs))
    (squared : y.toInt = x.toInt * x.toInt) :
    Costs i.limits
      (i.evalAt (fuel + 5)
        (app "setn" [name "results", app "snoc" [name "results", app "eval" [name "body"]]]) f 3)
      s 12 (.ok (ints (rs ++ [y]))) (s.define f "results" (ints (rs ++ [y]))) := by
  have factors : Costs i.limits (evalAll (i.evalAt (fuel + 1)) f 7 [name "n", name "n"]) s 2
      (.ok [int x, int x]) s :=
    costs_evalAll_pair (costs_symbol (by omega) item _) (costs_symbol (by omega) item _)
  have product : Costs i.limits (i.evalAt (fuel + 2) square f 6) s 4 (.ok (int y)) s :=
    costs_operation told.sees (by omega) .mul factors rfl (Operation.value_mul squared) rfl
  have quoted : Costs i.limits (i.evalAt (fuel + 2) (name "body") f 6) s 1
      (.ok (.quoted .computed square)) s :=
    costs_symbol (by omega) told.body _
  have value : Costs i.limits (i.evalAt (fuel + 3) (app "eval" [name "body"]) f 5) s 7
      (.ok (int y)) s :=
    costs_evaluate told.sees (by omega) quoted product rfl
  have values : Costs i.limits
      (evalAll (i.evalAt (fuel + 3)) f 5 [name "results", app "eval" [name "body"]]) s 8
      (.ok [ints rs, int y]) s :=
    costs_evalAll_pair (costs_symbol (by omega) results _) value
  have computed : Operation.value .snoc [ints rs, int y] = .ok (ints (rs ++ [y])) := by
    rw [ints, ints, List.map_append]
    rfl
  have longer : Costs i.limits
      (i.evalAt (fuel + 4) (app "snoc" [name "results", app "eval" [name "body"]]) f 4) s 10
      (.ok (ints (rs ++ [y]))) s :=
    costs_operation told.sees (by omega) .snoc values rfl computed rfl
  exact costs_bind told.sees (by omega) longer

/-- The call of the loop. -/
def forEachLoop (i : Interpreter) (fuel : Nat) (f : FrameId) : Call :=
  ⟨.computed, f, 2, i.limits, fuel + 5, i.evalAt (fuel + 5)⟩

/-- The index is equal to the number of the items only behind the last one. -/
theorem index_beq_length (short : xs.length < 2 ^ 63) {c : Int64} (counted : c.toInt = done) :
    (c == Int64.ofNat xs.length) = decide (done = xs.length) := by
  rw [Bool.eq_iff_iff, beq_iff_eq, decide_eq_true_iff, ← Int64.toInt_inj, counted,
    Int64.toInt_ofNat_of_lt short, Nat.cast_inj]

/-- A round that goes on takes thirty-three steps, beside the one for going around. -/
theorem costs_mapOne (room : 8 ≤ i.limits.depth) (short : xs.length < 2 ^ 63)
    (squares : Squares xs ys) (mapped : Mapped xs ys f done s) (more : done < xs.length) :
    ∃ t, Mapped xs ys f (done + 1) t ∧
      Costs i.limits ((forEachLoop i fuel f).runAll forEachRound) s 33 (.ok ()) t := by
  have ⟨told, source, results, c, counted, index⟩ := mapped
  have more' : done < ys.length := by rwa [squares.length_eq]
  obtain ⟨d, next⟩ : ∃ d : Int64, d.toInt = c.toInt + 1 :=
    ⟨_, Int64.toInt_ofInt_of_le (by omega) (by omega)⟩
  -- the store behind each of the last three nodes of the round
  let taken := s.define f "n" (int xs[done])
  let collected := taken.define f "results" (ints (ys.take (done + 1)))
  let advanced := collected.define f "index" (int d)
  have told₁ : Told f taken := told.define "n" (by decide) (by decide) (by decide) _
  have told₂ : Told f collected := told₁.define "results" (by decide) (by decide) (by decide) _
  have goesOn : (Node.ofBool .computed (c == Int64.ofNat xs.length)).isTruthy = false := by
    rw [Node.isTruthy_ofBool, index_beq_length short counted, decide_eq_false (by omega)]
  have test : Costs i.limits (i.evalAt (fuel + 5) (app "if" [app "=" [name "index",
      app "len" [name "source"]], app "break" []]) f 3) s 8 (.ok (.nil .computed)) s :=
    costs_branch_of_false told.sees (by omega) (costs_atEnd room told.sees source index) goesOn _
  have take : Costs i.limits (i.evalAt (fuel + 5) (app "setr" [name "name",
      app "at" [name "index", name "source"]]) f 3) s 7 (.ok (int xs[done])) taken :=
    costs_take room told source index counted more
  have collect : Costs i.limits (i.evalAt (fuel + 5) (app "setn" [name "results",
      app "snoc" [name "results", app "eval" [name "body"]]]) f 3) taken 12
      (.ok (ints (ys.take (done + 1)))) collected := by
    have item : taken.find? f "n" = some (int xs[done]) := Store.find?_define_self told.inUse _ _
    have before : taken.find? f "results" = some (ints (ys.take done)) :=
      (Store.find?_define_of_ne (by decide) _ _ _).trans results
    have longer : ys.take (done + 1) = ys.take done ++ [ys[done]] :=
      List.take_succ_eq_append_getElem more'
    simp only [collected, longer]
    exact costs_collect room told₁ item before (squares.toInt_getElem more more')
  have advance : Costs i.limits (i.evalAt (fuel + 5) (app "setn" [name "index",
      app "+" [name "index", int 1]]) f 3) collected 6 (.ok (int d)) advanced := by
    refine costs_increment told₂.sees (by omega) ?_ next
    rwa [Store.find?_define_of_ne (by decide), Store.find?_define_of_ne (by decide)]
  refine ⟨advanced, mapped.next xs[done] (by omega), ?_⟩
  refine test.bind (n := 25) ?_ rfl
  refine take.bind (n := 18) ?_ rfl
  refine collect.bind (n := 6) ?_ rfl
  exact advance.bind_pure fun _ => ()

/-- The round that leaves the loop takes ten steps, beside the one for going around. -/
theorem costs_mapNone (room : 8 ≤ i.limits.depth) (short : xs.length < 2 ^ 63)
    (mapped : Mapped xs ys f xs.length s) :
    Costs i.limits ((forEachLoop i fuel f).runAll forEachRound) s 10
      (.error { control := .leaveLoop none, origin := .computed }) s := by
  obtain ⟨told, source, results, c, counted, index⟩ := mapped
  have leaves : (Node.ofBool .computed (c == Int64.ofNat xs.length)).isTruthy = true := by
    rw [Node.isTruthy_ofBool, index_beq_length short counted, decide_eq_true rfl]
  have test : Costs i.limits (i.evalAt (fuel + 5) (app "if" [app "=" [name "index",
      app "len" [name "source"]], app "break" []]) f 3) s 10 _ s :=
    costs_leave_if told.sees told.sees (by omega) (costs_atEnd room told.sees source index) leaves
  exact test.bind_error

/-- Evaluating the items takes six steps and one for each of them. -/
theorem costs_source (room : 8 ≤ i.limits.depth) (told : Told f s)
    (items : s.find? f "items" = some (.quoted .computed (ints xs))) :
    Costs i.limits (i.evalAt (fuel + 5) (app "setn" [name "source", app "eval" [name "items"]]) f 2)
      s (xs.length + 6) (.ok (ints xs)) (s.define f "source" (ints xs)) := by
  have quoted : Costs i.limits (i.evalAt (fuel + 3) (name "items") f 4) s 1
      (.ok (.quoted .computed (ints xs))) s :=
    costs_symbol (by omega) items _
  have numbers : Costs i.limits (evalAll (i.evalAt (fuel + 2)) f 5 (xs.map int)) s
      (xs.map int).length (.ok (xs.map int)) s :=
    costs_evalAll_constants (by omega) (by simp [Node.isConstant])
  rw [List.length_map] at numbers
  have evaluated : Costs i.limits (i.evalAt (fuel + 4) (app "eval" [name "items"]) f 3) s
      (1 + (xs.length + 1) + 2) (.ok (ints xs)) s :=
    costs_evaluate told.sees (by omega) quoted (costs_vector (by omega) numbers) rfl
  have total : 1 + (xs.length + 1) + 2 = xs.length + 4 := by omega
  exact costs_bind told.sees (by omega) (total ▸ evaluated)

/-- Mapping takes thirty-five steps for each item and twenty-eight more. -/
theorem costs_forEach (room : 8 ≤ i.limits.depth) (short : xs.length < 2 ^ 63)
    (squares : Squares xs ys) (enough : xs.length ≤ fuel) (told : Told f s)
    (items : s.find? f "items" = some (.quoted .computed (ints xs))) :
    ∃ t, Costs i.limits (i.evalAt (fuel + 7) forEachBody f 1) s (35 * xs.length + 28)
      (.ok (ints ys)) t := by
  -- the store behind each of the nodes in front of the loop
  let given := s.define f "source" (ints xs)
  let emptied := given.define f "results" (ints [])
  let started := emptied.define f "index" (int 0)
  have told₁ : Told f given := told.define "source" (by decide) (by decide) (by decide) _
  have told₂ : Told f emptied := told₁.define "results" (by decide) (by decide) (by decide) _
  have source : Costs i.limits (i.evalAt (fuel + 6) (app "setn" [name "source",
      app "eval" [name "items"]]) f 2) s (xs.length + 6) (.ok (ints xs)) given :=
    costs_source room told items
  have results : Costs i.limits (i.evalAt (fuel + 6) (app "setn" [name "results", ints []]) f 2)
      given 3 (.ok (ints [])) emptied :=
    costs_bind told₁.sees (by omega) (costs_vector (by omega) costs_evalAll_nil)
  have index : Costs i.limits (i.evalAt (fuel + 6) (app "setn" [name "index", int 0]) f 2)
      emptied 3 (.ok (int 0)) started :=
    costs_bind told₂.sees (by omega) (costs_constant (by omega) rfl)
  have start : Mapped xs ys f 0 started := told.mapped xs ys
  obtain ⟨t, mapped, looped⟩ := Call.costs_iterate (c := forEachLoop i fuel f)
    (fun done more s (mapped : Mapped xs ys f done s) =>
      costs_mapOne room short squares mapped more)
    (fun s mapped => costs_mapNone room short mapped) rfl
    (by omega : xs.length < fuel + 5) start
  have loop : Costs i.limits (i.evalAt (fuel + 6) (app "loop" forEachRound) f 2) started _ _ t :=
    costs_loop start.told.sees (by omega) (by decide) looped
  have collected : t.find? f "results" = some (ints ys) := by
    rw [mapped.results, ← squares.length_eq, List.take_length]
  have last : Costs i.limits (i.evalAt (fuel + 6) (name "results") f 2) t 1 (.ok (ints ys)) t :=
    costs_symbol (by omega) collected _
  refine ⟨t, costs_sequence (m := 35 * xs.length + 26) told.sees (by omega) ?_⟩
  refine source.bind (n := 34 * xs.length + 20) ?_ (by omega)
  refine results.bind (n := 34 * xs.length + 17) ?_ (by omega)
  refine index.bind (n := 34 * xs.length + 14) ?_ (by omega)
  refine loop.bind (n := 1) ?_ (by omega)
  exact last.bind (costs_pure _) rfl

end Interpreter

/-! ### The iterator -/

def forEachParams : Params :=
  ⟨["name", "items", "body"], none⟩

theorem distinct_forEachParams : forEachParams.Distinct :=
  ⟨by decide, by decide, fun _ isRest => nomatch isRest⟩

/-- The macro that the definition makes in the root frame. -/
def forEachMacro (serial : Nat) : Lambda :=
  ⟨serial, .expander, "for-each", forEachParams, Store.root⟩

def forEachDefinition : Node :=
  app "macro" [name "for-each", .vector .computed [name "name", name "items", name "body"],
    forEachBody]

/-- The names that the iterator binds in the frame of a call. -/
def forEachNames : List String :=
  ["n", "source", "results", "index"]

theorem ordinary_forEachNames : ∀ x ∈ forEachNames, x ∉ catalog.map Builtin.name := by
  decide

/-- In the root frame the iterator is defined, and none of the names that it binds. -/
structure Store.Iterates (s : Store) (serial : Nat) : Prop where
  inUse : Store.root < s.frames.size
  sees : s.Sees Store.root
  bound : s.find? Store.root "for-each" =
    some (.closure .computed (forEachMacro serial) forEachBody)
  absent : ∀ x ∈ forEachNames, s.find? Store.root x = none

namespace Interpreter

open Run (Costs)

variable {i : Interpreter} {fuel : Nat} {s : Store} {xs ys : List Int64}

/-- Defining the iterator takes two steps. -/
theorem costs_forEachDefinition (room : 2 ≤ i.limits.depth) (inUse : Store.root < s.frames.size)
    (sees : s.Sees Store.root) (absent : ∀ x ∈ forEachNames, s.find? Store.root x = none) :
    ∃ t, t.Iterates s.serial ∧
      Costs i.limits (i.evalAt (fuel + 2) forEachDefinition Store.root 0) s 2
        (.ok (.closure .computed (forEachMacro s.serial) forEachBody)) t := by
  let numbered : Store := { s with serial := s.serial + 1 }
  let value : Node := .closure .computed (forEachMacro s.serial) forEachBody
  have inUse' : Store.root < numbered.frames.size := inUse
  have same (x : String) : numbered.find? Store.root x = s.find? Store.root x :=
    Store.find?_congr (s := numbered) (t := s) (fun _ _ => rfl) x
  have sees' : numbered.Sees Store.root := by
    intro b
    obtain ⟨callable, is, found⟩ := sees b
    exact ⟨callable, is, (same b.name).trans found⟩
  have defined : (numbered.define Store.root "for-each" value).Iterates s.serial := by
    refine ⟨?_, sees'.define _ (by decide) _, Store.find?_define_self inUse' _ _, ?_⟩
    · rwa [Store.size_define]
    · intro x mem
      have other : ∀ x ∈ forEachNames, x ≠ "for-each" := by decide
      rw [Store.find?_define_of_ne (other x mem), same, absent x mem]
  refine ⟨_, defined, costs_form (r := .ok value) sees (by omega) .expander rfl ?_⟩
  exact Run.costs_of_free fun _ _ => rfl

/-- Entering the iterator with items and their squares costs what its body costs. -/
theorem costs_enterForEach (room : 8 ≤ i.limits.depth) (short : xs.length < 2 ^ 63)
    (squares : Squares xs ys) (enough : xs.length ≤ fuel) {serial : Nat}
    (defined : s.Iterates serial) :
    ∃ t, Costs i.limits (enter (i.evalAt (fuel + 7)) (forEachMacro serial) forEachBody
      ([name "n", ints xs, square].map .quote) .computed 0) s (35 * xs.length + 28)
      (.ok (ints ys)) t := by
  let l := forEachMacro serial
  let args := [name "n", ints xs, square].map Node.quote
  have fits : l.params.Fits args := rfl
  have bound := Store.find?_enter (l := l) distinct_forEachParams fits defined.inUse .computed
  have told : Told s.frames.size (s.enter l .computed args).2 := by
    refine ⟨(Store.makesFrame_enter l .computed args s).2.1, ?_, bound "name", bound "body"⟩
    have ordinary : ∀ x ∈ forEachParams.names ++ forEachParams.rest.toList,
        x ∉ catalog.map Builtin.name := by decide
    exact Store.Sees.enter (l := l) defined.sees distinct_forEachParams fits defined.inUse
      .computed ordinary
  obtain ⟨t, costs⟩ := costs_forEach (i := i) room short squares enough told (bound "items")
  exact ⟨t, costs_enter fits costs⟩

end Interpreter

end Sexpr
