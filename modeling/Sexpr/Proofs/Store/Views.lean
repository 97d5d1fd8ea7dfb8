/-
What is seen from a frame.

Names are looked up from a frame, asked for, and listed. A store is well formed if parents are
older and every frame binds a name once (`Store.WellFormed`). Then the three views agree with
each other, and with the frames above as they are recorded: what is seen under a name is what
the nearest frame that binds it binds it to (`Store.NearestBinds`). Each view can also be taken
from the frame and the same view of its parent (`Store.WellFormed.views_up`). The embedding
program gets no other stores to see (`Embedding.wellFormed_of_leads`). Main statement:
`Store.views_agree`.
-/

import Sexpr.Proofs.Run.Embedding
import Sexpr.Proofs.Run.Expansion
import Sexpr.Proofs.Table

namespace Sexpr

namespace Store

variable {s : Store} {id : FrameId} {above : List FrameId} {name : String} {node : Node}

/-! ### Well-formed stores -/

/-- Every frame binds a name once. -/
def Tidy (s : Store) : Prop :=
  ∀ id, ((s.frame id).bindings.map Prod.fst).Nodup

/-- Parents are older, and every frame binds a name once. -/
structure WellFormed (s : Store) : Prop where
  older : ∀ {id parent}, (s.frame id).parent = some parent → parent < id
  tidy : s.Tidy

theorem tidy_empty (serial : Nat) : (empty serial).Tidy := by
  intro id
  cases id <;> exact List.nodup_nil

theorem Tidy.define (h : s.Tidy) (frame : FrameId) (name : String) (node : Node) :
    (s.define frame name node).Tidy := by
  intro id
  rw [Store.define, frame_update]
  split
  · exact Table.nodup_names_put name node (h id)
  · exact h id

theorem Tidy.push (h : s.Tidy) (parent : FrameId) (name : String) :
    (s.push parent name).2.Tidy := by
  intro id
  rw [frame_push]
  split
  · exact List.nodup_nil
  · exact h id

theorem Tidy.number (h : s.Tidy) (serial : Nat) : Tidy { s with serial := serial } := h

theorem Tidy.register (h : s.Tidy) (frame : FrameId) (name : String) (arity : Arity)
    (routine : Routine) : (s.register frame name arity routine).Tidy :=
  (h.number _).define frame name _

theorem Tidy.setProgram (h : s.Tidy) (frame : FrameId) (program : String) :
    (s.setProgram frame program).Tidy := by
  intro id
  rw [Store.setProgram, frame_update]
  split <;> exact h id

theorem tidy_global (serial : Nat) : (global serial).Tidy := by
  refine global_induction (motive := Tidy) (tidy_empty serial) fun s builtin h => ?_
  cases builtin with
  | form f => exact h.define root f.name _
  | operation op => exact h.register root op.name op.arity (.operation op)

/-! ### The frames above -/

/-- The nearest of the frames that bind the name binds it to the node. -/
def NearestBinds (s : Store) (frames : List FrameId) (name : String) (node : Node) : Prop :=
  ∃ nearer frame farther, frames = nearer ++ frame :: farther ∧
    (name, node) ∈ (s.frame frame).bindings ∧
    ∀ other ∈ nearer, name ∉ (s.frame other).bindings.map Prod.fst

theorem WellFormed.find?_eq_findSome? (h : s.WellFormed) (ancestors : s.Ancestors id above)
    (name : String) :
    s.find? id name =
      (id :: above).findSome? fun frame => (s.frame frame).bindings.lookup name := by
  rw [find?, ancestors.chain_eq h.older, List.findSome?_map]
  rfl

theorem WellFormed.find?_eq_some_iff (h : s.WellFormed) (ancestors : s.Ancestors id above) :
    s.find? id name = some node ↔ s.NearestBinds (id :: above) name node := by
  rw [h.find?_eq_findSome? ancestors, List.findSome?_eq_some_iff]
  simp only [NearestBinds, Table.lookup_eq_some_iff (h.tidy _), Table.lookup_eq_none_iff]

theorem WellFormed.find?_eq_none_iff (h : s.WellFormed) (ancestors : s.Ancestors id above) :
    s.find? id name = none ↔
      ∀ frame ∈ id :: above, name ∉ (s.frame frame).bindings.map Prod.fst := by
  rw [h.find?_eq_findSome? ancestors, List.findSome?_eq_none_iff]
  simp only [Table.lookup_eq_none_iff]

/-! ### The views -/

theorem lookup_eq_ok_iff : s.lookup id name = .ok node ↔ s.find? id name = some node := by
  unfold lookup
  cases s.find? id name <;> simp

theorem eq_unbound_of_lookup {fault : Fault} (failed : s.lookup id name = .error fault) :
    fault = .unbound name := by
  unfold lookup at failed
  split at failed <;> cases failed
  rfl

theorem visible_eq (s : Store) (id : FrameId) :
    s.visible id = (Table.mergeAll (s.chain id)).sorted :=
  rfl

/-- What is listed is what is found. -/
theorem WellFormed.mem_visible_iff (h : s.WellFormed) :
    (name, node) ∈ s.visible id ↔ s.find? id name = some node := by
  obtain ⟨above, ancestors⟩ := exists_ancestors h.older id
  have distinct : ∀ own ∈ s.chain id, (own.map Prod.fst).Nodup := by
    rw [ancestors.chain_eq h.older]
    intro own mem
    obtain ⟨frame, _, rfl⟩ := List.mem_map.mp mem
    exact h.tidy frame
  rw [visible_eq, (List.mergeSort_perm _ _).mem_iff,
    ← Table.lookup_eq_some_iff (Table.nodup_names_mergeAll _), Table.lookup_mergeAll distinct]
  rfl

/-- Each view goes up on its own: it takes what the frame binds, and for the rest what the same
view gives from the parent. -/
theorem WellFormed.views_up (h : s.WellFormed) (id : FrameId) :
    (∀ name, s.lookup id name =
      match (s.frame id).bindings.lookup name with
      | some node => .ok node
      | none => (s.frame id).parent.elim (.error (.unbound name)) (s.lookup · name)) ∧
    (∀ name, s.contains id name =
      (((s.frame id).bindings.lookup name).isSome ||
        (s.frame id).parent.any (s.contains · name))) ∧
    s.visible id =
      (Table.merge ((s.frame id).parent.elim [] s.visible) (s.frame id).bindings).sorted := by
  rw [← parent?_eq h.older id]
  refine ⟨fun name => ?_, fun name => ?_, ?_⟩
  · rw [lookup, find?_eq]
    cases (s.frame id).bindings.lookup name with
    | some node => rfl
    | none => cases s.parent? id <;> rfl
  · rw [contains, find?_eq]
    cases (s.frame id).bindings.lookup name with
    | some node => rfl
    | none => cases s.parent? id <;> rfl
  · have distinct := Table.nodup_names_mergeAll ((s.parent? id).elim [] s.chain)
    have inherited : (s.parent? id).elim [] s.visible =
        (Table.mergeAll ((s.parent? id).elim [] s.chain)).sorted := by
      cases s.parent? id with
      | none => exact List.mergeSort_nil.symm
      | some parent => rfl
    have sortedDistinct := Table.nodup_names_sorted distinct
    rw [visible_eq, Store.chain_eq, inherited]
    refine Table.sorted_eq_of_lookup (Table.nodup_names_mergeAll _)
      (Table.nodup_names_merge sortedDistinct _) fun name => ?_
    have merged := Table.lookup_merge (h.tidy id)
      (Table.mergeAll ((s.parent? id).elim [] s.chain)) name
    rw [Table.lookup_merge (h.tidy id), Table.lookup_sorted distinct]
    exact merged

end Store

/-! ### Stores that there are -/

/-- Evaluation keeps frames tidy, whatever is captured. -/
def Invariant.tidy : Invariant where
  toScope := Invariant.any.toScope
  Good := Store.Tidy
  find _ _ := Invariant.fits_any _ _
  define frame name _ good _ := good.define frame name _
  push name good _ := good.push _ name
  number good := good.number _

namespace Embedding

variable {s t : Embedding}

theorem store_finish (s : Embedding) (x : Run Node) (w : World) :
    (s.finish (x w)).2.store = (x.final w).store := by
  unfold Run.final
  cases x w <;> rfl

theorem tidy_run (h : s.store.Tidy) {x : Run Node} {steps : Nat}
    (keeps : Invariant.tidy.Alongside {} 0 Invariant.tidy.Fits x x) :
    (s.finish (x { s.world with steps })).2.store.Tidy := by
  rw [store_finish]
  have good : Invariant.tidy.Holds 0 { s.world with steps } := ⟨h, Nat.zero_le _⟩
  exact (keeps.outcome good).1.good

/-- One deed keeps frames tidy. -/
theorem tidy_act (h : s.store.Tidy) (d : Deed) : (s.act d).2.store.Tidy := by
  have admitted {hosts : Array Host} : ∀ host ∈ hosts, Invariant.tidy.AdmitsHost host :=
    fun _ _ _ _ node _ _ _ => Invariant.fits_any _ node
  cases d with
  | push parent name => exact h.push parent _
  | define frame name node => exact h.define frame name node
  | register frame name arity host => exact h.register frame name arity _
  | setProgram frame program => exact h.setProgram frame program
  | evaluate limits steps fuel frame node =>
    let i : Interpreter := { limits, hosts := s.hosts }
    have serves : Invariant.tidy.Serves {} (i.evalAt fuel) (i.evalAt fuel) :=
      Interpreter.evalAt_serves admitted (.inr rfl) fuel
    exact tidy_run (x := i.eval fuel frame node) h
      (serves 0 trivial (Invariant.fits_any 0 node))
  | expand limits steps fuel frame node =>
    let i : Interpreter := { limits, hosts := s.hosts }
    exact tidy_run (x := i.expand fuel frame node) h
      (Interpreter.expand_alongside admitted fuel (Invariant.fits_any 0 node))

/-- Whatever is done to a new store, it is well formed. -/
theorem wellFormed_of_leads (new : s.IsNew) (leads : s.Leads t) : t.store.WellFormed where
  older := (new.sound.leads leads).1.store.older
  tidy := by
    induction leads with
    | refl =>
      obtain ⟨_, serial, empty | global⟩ := new
      · exact empty ▸ Store.tidy_empty serial
      · exact global ▸ Store.tidy_global serial
    | step d _ _ ih => exact tidy_act ih d

end Embedding

/-- Whatever the embedding program does to a new store, it is well formed. From every frame of a
well-formed store, the bindings that are listed are in strict order of their names. Looking a
name up gives just the node that is listed under it. A name is contained exactly if it can be
looked up, that is if some frame on the way up binds it. Looking it up fails only because it is
unbound, and gives what the nearest frame that binds the name binds it to, whatever the frames
above do. -/
theorem Store.views_agree :
    (∀ s t : Embedding, s.IsNew → s.Leads t → t.store.WellFormed) ∧
    ∀ s : Store, s.WellFormed → ∀ id : FrameId,
      (s.visible id).Pairwise (fun a b => a.1 < b.1) ∧
      ∃ above, s.Ancestors id above ∧ ∀ name : String,
        (∀ node, s.lookup id name = .ok node ↔ (name, node) ∈ s.visible id) ∧
        (s.contains id name = true ↔ ∃ node, s.lookup id name = .ok node) ∧
        (s.contains id name = true ↔
          ∃ frame ∈ id :: above, name ∈ (s.frame frame).bindings.map Prod.fst) ∧
        (∀ fault, s.lookup id name = .error fault → fault = .unbound name) ∧
        ∀ node, s.lookup id name = .ok node ↔ s.NearestBinds (id :: above) name node := by
  refine ⟨fun s t => Embedding.wellFormed_of_leads, fun s wellFormed id => ⟨?_, ?_⟩⟩
  · exact Table.pairwise_lt_sorted (Table.nodup_names_mergeAll _)
  · obtain ⟨above, ancestors⟩ := exists_ancestors wellFormed.older id
    refine ⟨above, ancestors, fun name => ⟨fun node => ?_, contains_iff, ?_, ?_, fun node => ?_⟩⟩
    · rw [lookup_eq_ok_iff, wellFormed.mem_visible_iff]
    · have absent : s.find? id name = none ↔ _ := wellFormed.find?_eq_none_iff ancestors
      rw [contains, Option.isSome_iff_ne_none, ne_eq, absent]
      simp only [not_forall, not_not, exists_prop]
    · exact fun fault => eq_unbound_of_lookup
    · rw [lookup_eq_ok_iff, wellFormed.find?_eq_some_iff ancestors]

/-- A name that is bound again below the root is listed as it is bound there. -/
theorem Store.views_of_shadowed :
    let value (n : Int64) : Node := .number .computed (.int n)
    let s : Embedding := { world := ⟨.empty 1, 0, ""⟩ }
    let named := (s.act (.define root "b" (value 1))).2
    let pushed := (named.act (.push root none)).2
    let t := (pushed.act (.define 1 "b" (value 3))).2
    ("b", value 3) ∈ t.store.visible 1 ∧ ("b", value 1) ∉ t.store.visible 1 := by
  intro value s named pushed t
  have fits (size : Nat) (n : Int64) : (value n).CapturesBelow size := by
    intro p l body mem
    cases List.mem_singleton.mp mem
  have leads : s.Leads t :=
    .step _ (.step _ (.step _ .refl ⟨Nat.zero_lt_one, fits _ 1⟩) Nat.zero_lt_one)
      ⟨Nat.one_lt_two, fits _ 3⟩
  have wellFormed := views_agree.1 s t ⟨rfl, 1, .inl rfl⟩ leads
  obtain ⟨_, _, _, views⟩ := views_agree.2 t.store wellFormed 1
  have listed := (views "b").1
  have found : t.store.lookup 1 "b" = .ok (value 3) := by
    rw [lookup_eq_ok_iff, find?_eq]
    rfl
  refine ⟨(listed _).mp found, fun hidden => ?_⟩
  have same := (listed _).mpr hidden
  rw [found] at same
  cases same

end Sexpr
