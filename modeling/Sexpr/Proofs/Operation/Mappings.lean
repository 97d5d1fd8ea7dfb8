/-
Vectors of pairs as finite maps.

A vector is a mapping exactly if its items are the keys and values of a table, in turn, and no
key occurs twice (`Node.pairs?_eq_some_iff`). Putting a value into it is putting it into the
table (`Operation.flattens_put`), so that the operations on mappings have the laws of maps:
`Operation.mappings_are_maps`.
-/

import Sexpr.Proofs.Node.Data
import Sexpr.Proofs.Operation.Bounds
import Sexpr.Proofs.Table

namespace Sexpr

/-! ### Reading mappings -/

namespace Node

/-- The items are the keys and the values of the table, in turn. -/
inductive Flattens : Table Node → List Node → Prop where
  | nil : Flattens [] []
  | cons (p : Place) (key : String) (value : Node) {pairs : Table Node} {items : List Node} :
      Flattens pairs items → Flattens ((key, value) :: pairs) (.atom p key :: value :: items)

variable {pairs more : Table Node} {items others : List Node}

theorem Flattens.append (h : Flattens pairs items) (k : Flattens more others) :
    Flattens (pairs ++ more) (items ++ others) := by
  induction h with
  | nil => exact k
  | cons p key value _ ih => exact .cons p key value ih

theorem Flattens.length_mod_two (h : Flattens pairs items) : items.length % 2 = 0 := by
  induction h with
  | nil => rfl
  | cons p key value _ ih =>
    rw [List.length_cons, List.length_cons]
    omega

/-- Items that flatten the same table differ in the places of the keys at most. -/
theorem Flattens.unplaced_eq (h : Flattens pairs items) (k : Flattens pairs others) :
    unplacedAll items = unplacedAll others := by
  induction h generalizing others with
  | nil =>
    cases k
    rfl
  | cons p key value _ ih =>
    cases k with
    | cons q _ _ k => simp only [unplacedAll, unplaced, ih k]

theorem flattens_flatMap (f : String × Node → Node) (t : Table Node) :
    Flattens (t.map fun entry => (entry.1, f entry))
      (t.flatMap fun entry => [.atom .computed entry.1, f entry]) := by
  induction t with
  | nil => exact .nil
  | cons entry t ih => exact .cons .computed entry.1 (f entry) ih

theorem flattens_of_pairsFrom {seen : List String} (h : pairsFrom seen items = .ok (some pairs)) :
    Flattens pairs items ∧ (pairs.map Prod.fst).Nodup ∧ ∀ key ∈ pairs.map Prod.fst, key ∉ seen := by
  induction seen, items using pairsFrom.induct generalizing pairs with
  | case1 =>
    cases h
    exact ⟨.nil, List.nodup_nil, fun _ mem => nomatch mem⟩
  | case2 seen p key value rest repeated =>
    rw [pairsFrom_cons, if_pos repeated] at h
    cases h
  | case3 seen p key value rest new fault failed
  | case4 seen p key value rest new failed =>
    rw [pairsFrom_cons, if_neg new, failed] at h
    cases h
  | case5 seen p key value rest new pairs found ih =>
    rw [pairsFrom_cons, if_neg new, found] at h
    cases h
    obtain ⟨flattens, distinct, unseen⟩ := ih found
    refine ⟨.cons p key value flattens, List.nodup_cons.mpr ⟨?_, distinct⟩, ?_⟩
    · exact fun repeated => unseen key repeated List.mem_cons_self
    · rintro name mem isSeen
      rcases List.mem_cons.mp mem with rfl | mem
      · exact new isSeen
      · exact unseen name mem (List.mem_cons_of_mem key isSeen)
  | case6 items seen notNil notPair =>
    rw [pairsFrom] at h
    · cases h
    · exact notNil
    · exact notPair

theorem pairsFrom_of_flattens (h : Flattens pairs items) {seen : List String}
    (distinct : (pairs.map Prod.fst).Nodup) (unseen : ∀ key ∈ pairs.map Prod.fst, key ∉ seen) :
    pairsFrom seen items = .ok (some pairs) := by
  induction h generalizing seen with
  | nil => rfl
  | @cons p key value pairs items _ ih =>
    obtain ⟨fresh, distinct⟩ := List.nodup_cons.mp distinct
    obtain ⟨new, unseen⟩ := List.forall_mem_cons.mp unseen
    have behind : pairsFrom (key :: seen) items = .ok (some pairs) := by
      refine ih distinct fun name mem isSeen => ?_
      rcases List.mem_cons.mp isSeen with rfl | isSeen
      · exact fresh mem
      · exact unseen name mem isSeen
    rw [pairsFrom_cons, if_neg new, behind]
    rfl

/-- A vector is a mapping exactly if its items are the keys and values of a table with distinct
names. -/
theorem pairs?_eq_some_iff :
    pairs? items = .ok (some pairs) ↔ Flattens pairs items ∧ (pairs.map Prod.fst).Nodup := by
  unfold pairs?
  constructor
  · intro h
    split at h
    · cases h
    · obtain ⟨flattens, distinct, _⟩ := flattens_of_pairsFrom h
      exact ⟨flattens, distinct⟩
  · rintro ⟨flattens, distinct⟩
    have even := flattens.length_mod_two
    rw [if_neg (by omega)]
    exact pairsFrom_of_flattens flattens distinct fun _ _ => List.not_mem_nil

end Node

namespace Operation

variable {pairs : Table Node} {items : List Node} {p q : Place} {key : String}

/-- The items that putting a value under a key gives are those of the table with it. -/
theorem flattens_put (distinct : (pairs.map Prod.fst).Nodup) (q : Place) (key : String)
    (value : Node) :
    Node.Flattens (pairs.put key value) (put key (.atom q key) value pairs) := by
  have kept := Node.flattens_flatMap
    (fun entry => if entry.1 = key then value else entry.2) pairs
  unfold put
  by_cases mem : key ∈ pairs.map Prod.fst
  · rw [Table.put_of_mem distinct mem, if_pos (Table.any_eq_true_iff.mpr mem)]
    exact kept
  · rw [Table.replace_of_notMem mem] at kept
    rw [Table.put_of_notMem mem, if_neg fun found => mem (Table.any_eq_true_iff.mp found)]
    exact kept.append (.cons q key value .nil)

theorem mapping_of_pairs (op : Operation) (isMapping : Node.pairs? items = .ok (some pairs)) :
    op.mapping (.vector p items) = .ok pairs := by
  simp only [mapping, vector, isMapping, Bind.bind, Except.bind, Pure.pure, Except.pure]

theorem value_mapHas (isMapping : Node.pairs? items = .ok (some pairs)) :
    mapHas.value [.vector p items, .atom q key] =
      .ok (truthValue (pairs.any (·.1 = key))) := by
  show (do
    let pairs ← mapping .mapHas (.vector p items)
    return truthValue (pairs.any (·.1 = key))) = _
  rw [mapping_of_pairs .mapHas isMapping]
  rfl

theorem value_mapGet (isMapping : Node.pairs? items = .ok (some pairs)) :
    mapGet.value [.vector p items, .atom q key] =
      match pairs.lookup key with
      | some node => .ok (node.moveTo .computed)
      | none => .error (.failure (.missingKey key)) := by
  show (do
    let pairs ← mapping .mapGet (.vector p items)
    match pairs.lookup key with
    | some node => return node.moveTo .computed
    | none => fail (.missingKey key)) = _
  rw [mapping_of_pairs .mapGet isMapping]
  rfl

theorem value_mapPut (isMapping : Node.pairs? items = .ok (some pairs)) (value : Node) :
    mapPut.value [.vector p items, .atom q key, value] =
      .ok (row (put key (.atom q key) value pairs)) := by
  show (do
    let pairs ← mapping .mapPut (.vector p items)
    return row (put key (.atom q key) value pairs)) = _
  rw [mapping_of_pairs .mapPut isMapping]
  rfl

/-- What is put into a mapping makes a mapping. -/
theorem pairs?_put (isMapping : Node.pairs? items = .ok (some pairs)) (q : Place) (key : String)
    (value : Node) :
    Node.pairs? (put key (.atom q key) value pairs) = .ok (some (pairs.put key value)) := by
  have distinct := (Node.pairs?_eq_some_iff.mp isMapping).2
  exact Node.pairs?_eq_some_iff.mpr
    ⟨flattens_put distinct q key value, Table.nodup_names_put key value distinct⟩

theorem value_mapGet_eq_error_iff (isMapping : Node.pairs? items = .ok (some pairs)) :
    mapGet.value [.vector p items, .atom q key] = .error (.failure (.missingKey key)) ↔
      key ∉ pairs.map Prod.fst := by
  rw [value_mapGet isMapping, ← Table.exists_lookup_iff]
  cases pairs.lookup key with
  | some node => simp
  | none => simp

theorem truthValue_inj {a b : Bool} : truthValue a = truthValue b ↔ a = b := by
  cases a <;> cases b <;> simp [truthValue, Node.ofBool]

theorem value_mapHas_eq_true_iff (isMapping : Node.pairs? items = .ok (some pairs)) :
    mapHas.value [.vector p items, .atom q key] = .ok (truthValue true) ↔
      key ∈ pairs.map Prod.fst := by
  rw [value_mapHas isMapping, Except.ok.injEq, truthValue_inj, Table.any_eq_true_iff]

theorem value_mapHas_eq_false_iff (isMapping : Node.pairs? items = .ok (some pairs)) :
    mapHas.value [.vector p items, .atom q key] = .ok (truthValue false) ↔
      key ∉ pairs.map Prod.fst := by
  rw [value_mapHas isMapping, Except.ok.injEq, truthValue_inj, ← Table.any_eq_true_iff,
    Bool.not_eq_true]

theorem exists_value_mapGet_iff (isMapping : Node.pairs? items = .ok (some pairs)) :
    (∃ n, mapGet.value [.vector p items, .atom q key] = .ok n) ↔ key ∈ pairs.map Prod.fst := by
  rw [value_mapGet isMapping, ← Table.exists_lookup_iff]
  cases pairs.lookup key with
  | some node => exact ⟨fun _ => ⟨node, rfl⟩, fun _ => ⟨_, rfl⟩⟩
  | none => simp

/-- A vector is a mapping exactly if its items are the keys and values of a table with distinct
names. Mappings behave as maps of finitely many keys do. Putting a value under a key makes a
mapping with the same keys in the same order, and the key behind them exactly if it is not there
yet. The value is then found under the key, and under every other key what was found before, or
the same fault. A key is there exactly if something is found under it. Of two values that are
put under the same key the second stays. -/
theorem mappings_are_maps :
    (∀ items pairs, Node.pairs? items = .ok (some pairs) ↔
      Node.Flattens pairs items ∧ (pairs.map Prod.fst).Nodup) ∧
    ∀ (p : Place) (items : List Node) (pairs : Table Node),
      Node.pairs? items = .ok (some pairs) → ∀ (q : Place) (key : String),
        (mapHas.value [.vector p items, .atom q key] = .ok (truthValue true) ↔
          ∃ n, mapGet.value [.vector p items, .atom q key] = .ok n) ∧
        (mapHas.value [.vector p items, .atom q key] = .ok (truthValue false) ↔
          mapGet.value [.vector p items, .atom q key] = .error (.failure (.missingKey key))) ∧
        ∀ value, ∃ items' pairs',
          mapPut.value [.vector p items, .atom q key, value] = .ok (row items') ∧
          Node.pairs? items' = .ok (some pairs') ∧
          (mapHas.value [.vector p items, .atom q key] = .ok (truthValue true) ∧
              pairs'.map Prod.fst = pairs.map Prod.fst ∨
            mapHas.value [.vector p items, .atom q key] = .ok (truthValue false) ∧
              pairs'.map Prod.fst = pairs.map Prod.fst ++ [key]) ∧
          (∀ r, mapGet.value [row items', .atom r key] = .ok (value.moveTo .computed)) ∧
          (∀ r other, other ≠ key →
            mapGet.value [row items', .atom r other] =
              mapGet.value [.vector p items, .atom r other] ∧
            mapHas.value [row items', .atom r other] =
              mapHas.value [.vector p items, .atom r other]) ∧
          ∀ r s value', ∃ twice once,
            mapPut.value [row items', .atom r key, value'] = .ok (row twice) ∧
            mapPut.value [.vector p items, .atom s key, value'] = .ok (row once) ∧
            (row twice).unplaced = (row once).unplaced := by
  refine ⟨fun _ _ => Node.pairs?_eq_some_iff, ?_⟩
  intro p items pairs isMapping q key
  refine ⟨?_, ?_, fun value => ?_⟩
  · rw [value_mapHas_eq_true_iff isMapping, exists_value_mapGet_iff isMapping]
  · rw [value_mapHas_eq_false_iff isMapping, value_mapGet_eq_error_iff isMapping]
  · have isMapping' := pairs?_put isMapping q key value
    have distinct := (Node.pairs?_eq_some_iff.mp isMapping).2
    refine ⟨_, _, value_mapPut isMapping value, isMapping', ?_, ?_, ?_, ?_⟩
    · rw [value_mapHas_eq_true_iff isMapping, value_mapHas_eq_false_iff isMapping,
        Table.names_put]
      by_cases mem : key ∈ pairs.map Prod.fst
      · exact .inl ⟨mem, if_pos mem⟩
      · exact .inr ⟨mem, if_neg mem⟩
    · intro r
      rw [row, value_mapGet isMapping', Table.lookup_put_self]
    · intro r other different
      rw [row, value_mapGet isMapping', value_mapGet isMapping, value_mapHas isMapping',
        value_mapHas isMapping, Table.lookup_put_of_ne value pairs different,
        Table.any_put_of_ne different]
      exact ⟨rfl, rfl⟩
    · intro r s value'
      refine ⟨_, _, value_mapPut isMapping' value', value_mapPut isMapping value', ?_⟩
      have distinct' := Table.nodup_names_put key value distinct
      have twice := flattens_put distinct' r key value'
      rw [Table.put_put] at twice
      have once := flattens_put distinct s key value'
      rw [row, row, Node.unplaced, Node.unplaced, twice.unplaced_eq once]

/-- A key that is put into a mapping of two. -/
theorem new_key_found :
    let value (n : Int64) : Node := .number .computed (.int n)
    let items : List Node := [.atom .computed "a", value 1, .atom .computed "b", value 2]
    ∃ items', mapPut.value [.vector .computed items, .atom .computed "c", value 3] =
        .ok (row items') ∧
      mapGet.value [row items', .atom .computed "c"] = .ok (value 3) ∧
      mapGet.value [row items', .atom .computed "b"] = .ok (value 2) := by
  intro value items
  have isMapping : Node.pairs? items = .ok (some [("a", value 1), ("b", value 2)]) :=
    Node.pairs?_eq_some_iff.mpr ⟨.cons .computed "a" _ (.cons .computed "b" _ .nil), by decide⟩
  have laws := mappings_are_maps.2 .computed items _ isMapping .computed "c"
  obtain ⟨items', _, isPut, _, _, found, others, _⟩ := laws.2.2 (value 3)
  have before := (others .computed "b" (by decide)).1
  exact ⟨items', isPut, found .computed, before.trans (value_mapGet isMapping)⟩

end Operation

end Sexpr
