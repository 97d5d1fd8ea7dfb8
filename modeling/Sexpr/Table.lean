/-
Tables: values by name.

A table lists each name once, in the order in which the names were first put.
`put` replaces the value of a name that is there and appends one that is not;
`List.lookup` is the view that says what a table means.
-/

namespace Sexpr

/-- Values by name, each name once. -/
abbrev Table (α : Type) := List (String × α)

namespace Table

variable {α : Type}

/-- Puts a value under a name: in place of the old one, or at the end. -/
def put (name : String) (value : α) : Table α → Table α
  | [] => [(name, value)]
  | (other, old) :: rest =>
    if other = name then (name, value) :: rest else (other, old) :: put name value rest

/-- The entries of a second table put into a first one. -/
def merge (t entries : Table α) : Table α :=
  entries.foldl (fun t (name, value) => put name value t) t

theorem lookup_put_self (name : String) (value : α) (t : Table α) :
    (put name value t).lookup name = some value := by
  induction t with
  | nil => simp [put]
  | cons entry rest ih =>
    obtain ⟨other, old⟩ := entry
    by_cases h : other = name
    · simp [put, h]
    · have : (name == other) = false := beq_eq_false_iff_ne.mpr (Ne.symm h)
      simp [put, h, List.lookup_cons, this, ih]

theorem lookup_put_of_ne {name key : String} (value : α) (t : Table α) (h : key ≠ name) :
    (put name value t).lookup key = t.lookup key := by
  induction t with
  | nil => simp [put, List.lookup_cons, beq_eq_false_iff_ne.mpr h]
  | cons entry rest ih =>
    obtain ⟨other, old⟩ := entry
    by_cases e : other = name
    · subst e
      simp [put, List.lookup_cons, beq_eq_false_iff_ne.mpr h]
    · simp only [put, if_neg e, List.lookup_cons, ih]

/-- Putting a value keeps the names and their order; a new name comes last. -/
theorem names_put (name : String) (value : α) (t : Table α) :
    (put name value t).map Prod.fst
      = if name ∈ t.map Prod.fst then t.map Prod.fst else t.map Prod.fst ++ [name] := by
  induction t with
  | nil => simp [put]
  | cons entry rest ih =>
    obtain ⟨other, old⟩ := entry
    by_cases h : other = name
    · simp [put, h]
    · simp only [put, if_neg h, List.map_cons, ih, List.mem_cons, Ne.symm h, false_or]
      split <;> rfl

/-- Each name stays in a table once. -/
theorem nodup_names_put {t : Table α} (name : String) (value : α)
    (h : (t.map Prod.fst).Nodup) : ((put name value t).map Prod.fst).Nodup := by
  rw [names_put]
  split
  · exact h
  · rename_i absent
    rw [List.nodup_append]
    refine ⟨h, by simp, ?_⟩
    intro a ha b hb
    rw [List.mem_singleton.mp hb]
    rintro rfl
    exact absent ha

end Table

end Sexpr
