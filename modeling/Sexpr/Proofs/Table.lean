/-
What tables hold.

With distinct names, a table is what it says under each name (`Table.lookup_eq_some_iff`). Putting
a value under a name that is there changes this value only, and merging puts the entries of one
table over those of another. Sorted tables that say the same are the same
(`Table.sorted_eq_of_lookup`).
-/

import Sexpr.Table

namespace Sexpr.Table

variable {α : Type} {t u entries : Table α} {name : String} {value : α}

/-! ### What is there -/

theorem mem_of_lookup (h : t.lookup name = some value) : (name, value) ∈ t := by
  obtain ⟨front, back, rfl, _⟩ := List.lookup_eq_some_iff.mp h
  simp

/-- A table with distinct names holds what it lists. -/
theorem lookup_eq_some_iff (distinct : (t.map Prod.fst).Nodup) :
    t.lookup name = some value ↔ (name, value) ∈ t := by
  induction t with
  | nil => simp
  | cons entry rest ih =>
    obtain ⟨other, old⟩ := entry
    obtain ⟨fresh, distinct⟩ := List.nodup_cons.mp distinct
    rw [List.lookup_cons, List.mem_cons, Prod.mk.injEq]
    by_cases same : name = other
    · subst same
      have notBehind : (name, value) ∉ rest := fun mem =>
        fresh (List.mem_map.mpr ⟨_, mem, rfl⟩)
      simp [notBehind, eq_comm]
    · rw [beq_eq_false_iff_ne.mpr same]
      simp [same, ih distinct]

theorem lookup_eq_none_iff : t.lookup name = none ↔ name ∉ t.map Prod.fst := by
  rw [List.lookup_eq_none_iff, List.mem_map]
  simp only [bne_iff_ne, not_exists, not_and]
  exact forall₂_congr fun _ _ => ne_comm

theorem exists_lookup_iff : (∃ value, t.lookup name = some value) ↔ name ∈ t.map Prod.fst := by
  rw [← Option.ne_none_iff_exists', ne_eq, lookup_eq_none_iff, Decidable.not_not]

theorem any_eq_true_iff : (t.any (·.1 = name)) = true ↔ name ∈ t.map Prod.fst := by
  simp [List.any_eq_true, List.mem_map]

theorem nodup_of_names (distinct : (t.map Prod.fst).Nodup) : t.Nodup :=
  List.Pairwise.of_map Prod.fst (fun _ _ apart same => apart (congrArg Prod.fst same)) distinct

/-! ### Putting -/

theorem mem_put {entry : String × α} (h : entry ∈ put name value t) :
    entry = (name, value) ∨ entry ∈ t := by
  induction t with
  | nil => exact .inl (List.mem_singleton.mp h)
  | cons first rest ih =>
    obtain ⟨other, old⟩ := first
    unfold put at h
    split at h
    · rcases List.mem_cons.mp h with rfl | h
      · exact .inl rfl
      · exact .inr (List.mem_cons_of_mem _ h)
    · rcases List.mem_cons.mp h with rfl | h
      · exact .inr List.mem_cons_self
      · rcases ih h with new | old
        · exact .inl new
        · exact .inr (List.mem_cons_of_mem _ old)

/-- The second of two values under the same name stays. -/
theorem put_put (name : String) (old new : α) (t : Table α) :
    put name new (put name old t) = put name new t := by
  induction t with
  | nil => simp [put]
  | cons entry rest ih =>
    obtain ⟨other, value⟩ := entry
    by_cases same : other = name
    · simp [put, same]
    · simp [put, same, ih]

/-- A name that is not there yet comes last. -/
theorem put_of_notMem (absent : name ∉ t.map Prod.fst) (value : α) :
    put name value t = t ++ [(name, value)] := by
  induction t with
  | nil => rfl
  | cons entry rest ih =>
    obtain ⟨notHere, notBehind⟩ := List.ne_and_not_mem_of_not_mem_cons absent
    rw [put, if_neg (Ne.symm notHere), ih notBehind, List.cons_append]

/-- Where a name is absent, no value is replaced. -/
theorem replace_of_notMem (absent : name ∉ t.map Prod.fst) (value : α) :
    t.map (fun entry => (entry.1, if entry.1 = name then value else entry.2)) = t := by
  refine (List.map_congr_left fun entry mem => ?_).trans (List.map_id t)
  have different : entry.1 ≠ name := fun same => absent (same ▸ List.mem_map_of_mem mem)
  rw [if_neg different]
  rfl

/-- Where names are distinct, putting a value under one that is there changes its value only. -/
theorem put_of_mem (distinct : (t.map Prod.fst).Nodup) (mem : name ∈ t.map Prod.fst) (value : α) :
    put name value t = t.map fun entry => (entry.1, if entry.1 = name then value else entry.2) := by
  induction t with
  | nil => cases mem
  | cons entry rest ih =>
    obtain ⟨other, old⟩ := entry
    obtain ⟨fresh, distinct⟩ := List.nodup_cons.mp distinct
    by_cases same : other = name
    · subst same
      rw [put, if_pos rfl, List.map_cons, replace_of_notMem fresh, if_pos rfl]
    · have memBehind : name ∈ rest.map Prod.fst :=
        (List.mem_cons.mp mem).resolve_left (Ne.symm same)
      rw [put, if_neg same, ih distinct memBehind, List.map_cons, if_neg same]

/-- Another name is there if it was there before. -/
theorem any_put_of_ne {other : String} (different : other ≠ name) :
    (t.put name value).any (·.1 = other) = t.any (·.1 = other) := by
  rw [Bool.eq_iff_iff, any_eq_true_iff, any_eq_true_iff, names_put]
  split
  · rfl
  · rw [List.mem_append, List.mem_singleton, or_iff_left different]

/-! ### Merging -/

/-- Each name stays in a table once, whatever is put into it. -/
theorem nodup_names_merge (distinct : (t.map Prod.fst).Nodup) (entries : Table α) :
    ((t.merge entries).map Prod.fst).Nodup := by
  induction entries generalizing t with
  | nil => exact distinct
  | cons entry entries ih => exact ih (nodup_names_put entry.1 entry.2 distinct)

/-- The entries of the second table hide those of the first. -/
theorem lookup_merge (distinct : (entries.map Prod.fst).Nodup) (t : Table α) (name : String) :
    (t.merge entries).lookup name = (entries.lookup name).or (t.lookup name) := by
  induction entries generalizing t with
  | nil => rfl
  | cons entry entries ih =>
    obtain ⟨other, value⟩ := entry
    obtain ⟨fresh, distinct⟩ := List.nodup_cons.mp distinct
    have later : (t.merge ((other, value) :: entries)).lookup name =
        (entries.lookup name).or ((put other value t).lookup name) := ih distinct _
    rw [later, List.lookup_cons]
    by_cases same : name = other
    · subst same
      rw [lookup_eq_none_iff.mpr fresh, lookup_put_self, beq_self_eq_true, Option.none_or,
        Option.some_or]
    · rw [lookup_put_of_ne value t same, beq_eq_false_iff_ne.mpr same]

/-- The tables put together, each one over those behind it. -/
def mergeAll (tables : List (Table α)) : Table α :=
  tables.foldr (fun own inherited => inherited.merge own) []

theorem nodup_names_mergeAll (tables : List (Table α)) :
    ((mergeAll tables).map Prod.fst).Nodup := by
  induction tables with
  | nil => exact List.nodup_nil
  | cons own others ih => exact nodup_names_merge ih own

theorem lookup_mergeAll {tables : List (Table α)}
    (distinct : ∀ t ∈ tables, (t.map Prod.fst).Nodup) (name : String) :
    (mergeAll tables).lookup name = tables.findSome? (·.lookup name) := by
  induction tables with
  | nil => rfl
  | cons own others ih =>
    obtain ⟨ownDistinct, othersDistinct⟩ := List.forall_mem_cons.mp distinct
    have merged : (mergeAll (own :: others)).lookup name =
        (own.lookup name).or ((mergeAll others).lookup name) := lookup_merge ownDistinct _ name
    rw [merged, ih othersDistinct, List.findSome?_cons]
    cases own.lookup name <;> rfl

/-! ### Tables in order -/

/-- The entries in the order of their names. -/
abbrev sorted (t : Table α) : Table α :=
  t.mergeSort fun a b => a.1 ≤ b.1

theorem nodup_names_sorted (distinct : (t.map Prod.fst).Nodup) :
    (t.sorted.map Prod.fst).Nodup :=
  ((List.mergeSort_perm t _).map Prod.fst).nodup_iff.mpr distinct

/-- A table with distinct names is in strict order once it is sorted by them. -/
theorem pairwise_lt_sorted (distinct : (t.map Prod.fst).Nodup) :
    t.sorted.Pairwise fun a b => a.1 < b.1 := by
  have ordered : t.sorted.Pairwise fun a b => decide (a.1 ≤ b.1) := by
    apply List.pairwise_mergeSort
    · intro a b c first second
      rw [decide_eq_true_eq] at first second ⊢
      exact String.le_trans first second
    · intro a b
      rw [Bool.or_eq_true, decide_eq_true_eq, decide_eq_true_eq]
      exact String.le_total a.1 b.1
  have apart := List.pairwise_map.mp (nodup_names_sorted distinct)
  refine (ordered.and apart).imp fun {a b} both => ?_
  rw [← String.not_le]
  exact fun back => both.2 (String.le_antisymm (of_decide_eq_true both.1) back)

/-- Sorting changes nothing that is looked up. -/
theorem lookup_sorted (distinct : (t.map Prod.fst).Nodup) (name : String) :
    t.sorted.lookup name = t.lookup name := by
  ext value
  rw [lookup_eq_some_iff (nodup_names_sorted distinct), lookup_eq_some_iff distinct,
    (List.mergeSort_perm t _).mem_iff]

/-- Sorted tables that say the same are the same. -/
theorem sorted_eq_of_lookup (distinct : (t.map Prod.fst).Nodup)
    (distinct' : (u.map Prod.fst).Nodup) (same : ∀ name, t.lookup name = u.lookup name) :
    t.sorted = u.sorted := by
  have perm : t.Perm u := by
    refine (List.perm_ext_iff_of_nodup (nodup_of_names distinct) (nodup_of_names distinct')).mpr ?_
    rintro ⟨name, value⟩
    rw [← lookup_eq_some_iff distinct, ← lookup_eq_some_iff distinct', same]
  refine List.Perm.eq_of_pairwise (fun a b _ _ less greater => ?_) (pairwise_lt_sorted distinct)
    (pairwise_lt_sorted distinct')
    ((List.mergeSort_perm t _).trans (perm.trans (List.mergeSort_perm u _).symm))
  exact absurd greater (String.lt_asymm less)

end Sexpr.Table
