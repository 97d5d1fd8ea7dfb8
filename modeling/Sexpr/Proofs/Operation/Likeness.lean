/-
Operations do not look at places.

`Matches Q x y` says that two computations give results that `Q` relates, or the same
fault. Given arguments that are alike, an operation gives results that are alike, or the
same fault with the same wording, and it writes the same. Main statement:
`Operation.matches_value`. All that is asked of the relation between places is that
computed nodes are alike.
-/

import Sexpr.Proofs.Node.Likeness

namespace Sexpr

variable {α β γ δ : Type} {R : Place → Place → Prop}

/-- The computations give results that are related, or the same fault. -/
inductive Matches (Q : α → β → Prop) : Except Fault α → Except Fault β → Prop where
  | ok {a : α} {b : β} : Q a b → Matches Q (.ok a) (.ok b)
  | error (fault : Fault) : Matches Q (.error fault) (.error fault)

namespace Matches

variable {Q : α → β → Prop} {S : γ → δ → Prop}

theorem bind {x : Except Fault α} {y : Except Fault β} {f : α → Except Fault γ}
    {g : β → Except Fault δ} (h : Matches Q x y) (next : ∀ a b, Q a b → Matches S (f a) (g b)) :
    Matches S (x >>= f) (y >>= g) := by
  cases h with
  | ok related => exact next _ _ related
  | error fault => exact .error fault

theorem map {x : Except Fault α} {y : Except Fault β} {f : α → γ} {g : β → δ} (h : Matches Q x y)
    (next : ∀ a b, Q a b → S (f a) (g b)) : Matches S (f <$> x) (g <$> y) :=
  h.bind fun a b related => .ok (next a b related)

/-- A computation matches itself. -/
theorem refl {Q : α → α → Prop} (h : ∀ a, Q a a) (x : Except Fault α) : Matches Q x x := by
  cases x with
  | ok a => exact .ok (h a)
  | error fault => exact .error fault

/-- Both go on in the same way after the same computation. -/
theorem bindSame (x : Except Fault α) {f : α → Except Fault γ} {g : α → Except Fault δ}
    (next : ∀ a, Matches S (f a) (g a)) : Matches S (x >>= f) (x >>= g) := by
  cases x with
  | ok a => exact next a
  | error fault => exact .error fault

theorem mapM {P : γ → δ → Prop} {f : γ → Except Fault α} {g : δ → Except Fault β} {as : List γ}
    {bs : List δ} (h : List.Forall₂ P as bs) (each : ∀ a b, P a b → Matches Q (f a) (g b)) :
    Matches (List.Forall₂ Q) (as.mapM f) (bs.mapM g) := by
  induction h with
  | nil => exact .ok .nil
  | cons first _ ih =>
    rw [List.mapM_cons, List.mapM_cons]
    refine (each _ _ first).bind fun _ _ related => ih.bind fun _ _ rest => .ok ?_
    exact .cons related rest

end Matches

/-! ### Lists and tables -/

theorem forall₂_getElem? {Q : α → β → Prop} {as : List α} {bs : List β} (h : List.Forall₂ Q as bs)
    (i : Nat) : Option.Rel Q as[i]? bs[i]? := by
  induction h generalizing i with
  | nil => exact .none
  | cons first _ ih =>
    cases i with
    | zero => exact .some first
    | succ i => exact ih i

theorem forall₂_eraseIdx {Q : α → β → Prop} {as : List α} {bs : List β} (h : List.Forall₂ Q as bs)
    (i : Nat) : List.Forall₂ Q (as.eraseIdx i) (bs.eraseIdx i) := by
  induction h generalizing i with
  | nil => exact .nil
  | cons first others ih =>
    cases i with
    | zero => exact others
    | succ i => exact .cons first (ih i)

/-- The tables have the same names in the same order, with nodes that are alike. -/
def Table.Alike (R : Place → Place → Prop) : Table Node → Table Node → Prop :=
  List.Forall₂ fun a b => a.1 = b.1 ∧ Node.Alike R a.2 b.2

namespace Table.Alike

variable {t u : Table Node}

theorem lookup (h : Table.Alike R t u) (name : String) :
    Option.Rel (Node.Alike R) (t.lookup name) (u.lookup name) := by
  induction h with
  | nil => exact .none
  | @cons a b _ _ first _ ih =>
    rw [List.lookup_cons, List.lookup_cons, first.1]
    cases name == b.1 with
    | true => exact .some first.2
    | false => exact ih

theorem put (h : Table.Alike R t u) (name : String) {n m : Node} (alike : Node.Alike R n m) :
    Table.Alike R (t.put name n) (u.put name m) := by
  induction h with
  | nil => exact .cons ⟨rfl, alike⟩ .nil
  | @cons a b _ _ first others ih =>
    obtain ⟨key, old⟩ := a
    obtain ⟨_, new⟩ := b
    obtain ⟨rfl, unchanged⟩ := first
    simp only [Table.put]
    by_cases same : key = name
    · rw [if_pos same, if_pos same]
      exact .cons ⟨rfl, alike⟩ others
    · rw [if_neg same, if_neg same]
      exact .cons ⟨rfl, unchanged⟩ ih

theorem any_eq (h : Table.Alike R t u) (name : String) :
    t.any (·.1 = name) = u.any (·.1 = name) := by
  induction h with
  | nil => rfl
  | cons first _ ih => simp only [List.any_cons, first.1, ih]

end Table.Alike

namespace Node

/-- The pairs of alike items are alike, or refused for the same reason. -/
theorem matches_pairsFrom : ∀ {ns ms : List Node}, List.Forall₂ (Alike R) ns ms →
    ∀ seen : List String,
      Matches (Option.Rel (Table.Alike R)) (pairsFrom seen ns) (pairsFrom seen ms)
  | _, _, .nil, seen => .ok (.some .nil)
  | _, _, .cons key .nil, seen => by
    cases key <;> exact .ok .none
  | _, _, .cons key (.cons value rest), seen => by
    cases key with
    | atom name =>
      rw [pairsFrom_cons, pairsFrom_cons]
      by_cases repeated : name ∈ seen
      · rw [if_pos repeated, if_pos repeated]
        exact .error _
      · rw [if_neg repeated, if_neg repeated]
        refine (matches_pairsFrom rest (name :: seen)).map fun _ _ found => ?_
        cases found with
        | none => exact .none
        | some pairs => exact .some (.cons ⟨rfl, value⟩ pairs)
    | _ => exact .ok .none

theorem matches_pairs? {ns ms : List Node} (h : List.Forall₂ (Alike R) ns ms) :
    Matches (Option.Rel (Table.Alike R)) (pairs? ns) (pairs? ms) := by
  rw [pairs?, pairs?, h.length_eq]
  split
  · exact .ok .none
  · exact matches_pairsFrom h []

end Node

namespace Operation

open Node (Alike)

variable (op : Operation) {n m : Node} {ns ms : List Node}

/-! ### Operands -/

theorem refuse_eq_of_alike (α : Type) (required : Requirement) (h : Alike R n m) :
    (op.refuse required n : Except Fault α) = op.refuse required m := by
  rw [refuse, refuse, h.mention_eq]

theorem matches_argument (h : List.Forall₂ (Alike R) ns ms) (index : Nat) :
    Matches (Alike R) (op.argument ns index) (op.argument ms index) := by
  have found := forall₂_getElem? h index
  unfold argument
  rw [h.length_eq]
  generalize ns[index]? = a at *
  generalize ms[index]? = b at *
  cases found with
  | none => exact .error _
  | some alike => exact .ok alike

theorem number_eq_of_alike (h : Alike R n m) : op.number n = op.number m := by
  have refused := op.refuse_eq_of_alike Number .number h
  cases h with
  | number value => rfl
  | _ => exact refused

theorem integer_eq_of_alike (h : Alike R n m) : op.integer n = op.integer m := by
  have refused := op.refuse_eq_of_alike Int .number h
  cases h with
  | number value => cases value <;> rfl
  | _ => exact refused

theorem text_eq_of_alike (h : Alike R n m) : op.text n = op.text m := by
  have refused := op.refuse_eq_of_alike String .text h
  cases h with
  | text value => rfl
  | _ => exact refused

theorem texts_eq_of_alike (h : List.Forall₂ (Alike R) ns ms) :
    ns.mapM op.text = ms.mapM op.text := by
  induction h with
  | nil => rfl
  | cons first _ ih => rw [List.mapM_cons, List.mapM_cons, op.text_eq_of_alike first, ih]

theorem atom_eq_of_alike (h : Alike R n m) : op.atom n = op.atom m := by
  have refused := op.refuse_eq_of_alike String .atom h
  cases h with
  | atom name => rfl
  | _ => exact refused

theorem matches_refuse (required : Requirement) (Q : α → β → Prop) (h : Alike R n m) :
    Matches Q (op.refuse required n) (op.refuse required m) := by
  rw [refuse, refuse, h.mention_eq]
  exact .error _

theorem matches_vector (h : Alike R n m) :
    Matches (List.Forall₂ (Alike R)) (op.vector n) (op.vector m) := by
  have refused := op.matches_refuse .vector (List.Forall₂ (Alike R)) h
  cases h with
  | vector _ items => exact .ok items
  | _ => exact refused

theorem matches_mapping (h : Alike R n m) :
    Matches (Table.Alike R) (op.mapping n) (op.mapping m) := by
  refine (op.matches_vector h).bind fun _ _ items => ?_
  refine (Node.matches_pairs? items).bind fun _ _ found => ?_
  cases found with
  | none => exact .error _
  | some pairs => exact .ok pairs

theorem position_eq_of_alike (len : Nat) (h : Alike R n m) :
    op.position len n = op.position len m := by
  rw [position, position, op.integer_eq_of_alike h]

/-! ### Results -/

theorem accumulate_eq_of_alike (combine : Number → Number → Except ArithmeticFault Number)
    (neutral : Number) (h : List.Forall₂ (Alike R) ns ms) :
    op.accumulate combine neutral ns = op.accumulate combine neutral ms := by
  unfold accumulate
  induction h generalizing neutral with
  | nil => rfl
  | cons first _ ih =>
    rw [List.foldlM_cons, List.foldlM_cons, op.number_eq_of_alike first]
    exact congrArg _ (funext ih)

theorem order_eq_of_alike {a b : Node} (h : Alike R n m) (k : Alike R a b) :
    op.order n a = op.order m b := by
  have first := op.refuse_eq_of_alike Ordering .comparable h
  have second := op.refuse_eq_of_alike Ordering .comparable k
  cases h with
  | number value =>
    cases k with
    | number other => rfl
    | _ => exact second
  | text value =>
    cases k with
    | text other => rfl
    | _ => exact second
  | _ => exact first

theorem forall₂_stride {Q : α → β → Prop} {as : List α} {bs : List β} (step skip : Nat)
    (h : List.Forall₂ Q as bs) : List.Forall₂ Q (stride step skip as) (stride step skip bs) := by
  induction h generalizing skip with
  | nil =>
    rw [stride, stride]
    exact .nil
  | cons first _ ih =>
    cases skip with
    | zero => exact .cons first (ih _)
    | succ skip => exact ih skip

theorem forall₂_cut {Q : α → β → Prop} {as : List α} {bs : List β} (start stop step : Nat)
    (h : List.Forall₂ Q as bs) :
    List.Forall₂ Q (cut start stop step as) (cut start stop step bs) :=
  forall₂_stride step 0 (List.forall₂_take _ (List.forall₂_drop _ h))

theorem forall₂_put (computed : R .computed .computed) (key : String) {keyNode keyNode' : Node}
    (hkey : Alike R keyNode keyNode') (hvalue : Alike R n m) {pairs pairs' : Table Node}
    (h : Table.Alike R pairs pairs') :
    List.Forall₂ (Alike R) (put key keyNode n pairs) (put key keyNode' m pairs') := by
  have kept : List.Forall₂ (Alike R)
      (pairs.flatMap fun entry => [.atom .computed entry.1, if entry.1 = key then n else entry.2])
      (pairs'.flatMap fun entry =>
        [.atom .computed entry.1, if entry.1 = key then m else entry.2]) := by
    refine List.rel_flatMap h fun a b entry => ?_
    rw [entry.1]
    refine .cons (.atom _ computed) (.cons ?_ .nil)
    by_cases replaced : b.1 = key
    · rw [if_pos replaced, if_pos replaced]
      exact hvalue
    · rw [if_neg replaced, if_neg replaced]
      exact entry.2
  unfold put
  dsimp only
  rw [h.any_eq key]
  split
  · exact kept
  · exact List.rel_append kept (.cons hkey (.cons hvalue .nil))

theorem alike_getD (computed : R .computed .computed) (h : List.Forall₂ (Alike R) ns ms) (i : Nat) :
    Alike R (ns.getD i (.nil .computed)) (ms.getD i (.nil .computed)) := by
  have found := forall₂_getElem? h i
  rw [List.getD_eq_getElem?_getD, List.getD_eq_getElem?_getD]
  generalize ns[i]? = a at *
  generalize ms[i]? = b at *
  cases found with
  | none => exact .atom _ computed
  | some alike => exact alike

theorem matches_ordered (computed : R .computed .computed) (test : Ordering → Bool)
    (h : List.Forall₂ (Alike R) ns ms) :
    Matches (Alike R) (op.ordered test ns) (op.ordered test ms) := by
  refine (op.matches_argument h 0).bind fun a b first => ?_
  refine (op.matches_argument h 1).bind fun c d second => ?_
  rw [op.order_eq_of_alike first second]
  exact .bindSame _ fun ordering => .ok (.atom _ computed)

/-- The results of an operation on alike arguments are alike, or refused by the same fault. -/
theorem matches_value (computed : R .computed .computed) (h : List.Forall₂ (Alike R) ns ms) :
    Matches (Alike R) (op.value ns) (op.value ms) := by
  have argument := op.matches_argument h
  have result (n : Number) : Matches (Alike R) (.ok (numeric n)) (.ok (numeric n)) :=
    .ok (.number n computed)
  have answer (b : Bool) : Matches (Alike R) (.ok (truthValue b)) (.ok (truthValue b)) :=
    .ok (.atom _ computed)
  have made {as bs : List Node} (items : List.Forall₂ (Alike R) as bs) :
      Matches (Alike R) (.ok (row as)) (.ok (row bs)) := .ok (.vector computed items)
  cases op
  case add | mul =>
    simp only [value, sum, product, accumulate_eq_of_alike _ _ _ h]
    exact .bindSame _ result
  case sub =>
    refine (argument 0).bind fun a b first => ?_
    rw [sum, accumulate_eq_of_alike _ _ _ (List.forall₂_drop 1 h), number_eq_of_alike _ first]
    exact .bindSame _ fun _ => .bindSame _ fun _ => .bindSame _ result
  case div =>
    refine (argument 0).bind fun a b first => ?_
    rw [product, accumulate_eq_of_alike _ _ _ (List.forall₂_drop 1 h), number_eq_of_alike _ first]
    exact .bindSame _ fun _ => .bindSame _ fun _ => .bindSame _ result
  case equal | unequal =>
    refine (argument 0).bind fun a b first => (argument 1).bind fun c d second => ?_
    rw [first.same_eq second]
    exact answer _
  case greater | less | greaterEqual | lessEqual => exact matches_ordered _ computed _ h
  case truth | negation =>
    refine (argument 0).bind fun a b first => ?_
    rw [first.isTruthy_eq]
    exact answer _
  case concat =>
    rw [value, texts_eq_of_alike _ h]
    exact .bindSame _ fun texts => .ok (.text _ computed)
  case print => exact (argument 0).bind fun a b first => .ok (first.moveTo computed)
  case putLine =>
    refine (argument 0).bind fun a b first => ?_
    rw [text_eq_of_alike _ first]
    exact .bindSame _ fun s => .ok (.text s computed)
  case merge =>
    refine (Matches.mapM h fun a b alike => matches_vector _ alike).bind fun _ _ rows => ?_
    exact made (List.rel_flatten rows)
  case slice =>
    refine (argument 0).bind fun a b first => ?_
    refine (matches_vector _ first).bind fun as bs items => ?_
    rw [items.length_eq]
    refine (argument 1).bind fun a b second => ?_
    rw [integer_eq_of_alike _ second]
    refine .bindSame _ fun start => ?_
    refine (argument 2).bind fun a b third => ?_
    rw [integer_eq_of_alike _ third]
    refine .bindSame _ fun stop => ?_
    have fourth := forall₂_getElem? h 3
    generalize ns[3]? = a at *
    generalize ms[3]? = b at *
    cases fourth with
    | none => exact made (forall₂_cut _ _ _ items)
    | some step =>
      dsimp only
      rw [integer_eq_of_alike _ step]
      exact .bindSame _ fun step => .bindSame _ fun step => made (forall₂_cut _ _ _ items)
  case index =>
    refine (argument 1).bind fun a b second => ?_
    refine (matches_vector _ second).bind fun as bs items => ?_
    refine (argument 0).bind fun a b first => ?_
    rw [items.length_eq, position_eq_of_alike _ _ first]
    exact .bindSame _ fun i => .ok ((alike_getD computed items i).moveTo computed)
  case remove =>
    refine (argument 1).bind fun a b second => ?_
    refine (matches_vector _ second).bind fun as bs items => ?_
    refine (argument 0).bind fun a b first => ?_
    rw [items.length_eq, position_eq_of_alike _ _ first]
    exact .bindSame _ fun i => made (forall₂_eraseIdx items i)
  case length =>
    refine (argument 0).bind fun a b first => ?_
    have refused := matches_refuse .length .vectorOrText (Alike R) first
    cases first with
    | vector _ items =>
      dsimp only
      rw [items.length_eq]
      exact result _
    | text s => exact result _
    | _ => exact refused
  case cons =>
    refine (argument 1).bind fun a b second => ?_
    refine (matches_vector _ second).bind fun as bs items => ?_
    exact (argument 0).bind fun a b first => made (.cons first items)
  case snoc =>
    refine (argument 0).bind fun a b first => ?_
    refine (matches_vector _ first).bind fun as bs items => ?_
    exact (argument 1).bind fun a b second => made (List.rel_append items (.cons second .nil))
  case isMap =>
    refine (argument 0).bind fun a b first => ?_
    refine (matches_vector _ first).bind fun as bs items => ?_
    refine (Node.matches_pairs? items).bind fun a b found => ?_
    cases found <;> exact answer _
  case mapHas =>
    refine (argument 0).bind fun a b first => ?_
    refine (matches_mapping _ first).bind fun as bs pairs => ?_
    refine (argument 1).bind fun a b second => ?_
    rw [atom_eq_of_alike _ second]
    refine .bindSame _ fun key => ?_
    rw [pairs.any_eq]
    exact answer _
  case mapGet =>
    refine (argument 0).bind fun a b first => ?_
    refine (matches_mapping _ first).bind fun as bs pairs => ?_
    refine (argument 1).bind fun a b second => ?_
    rw [atom_eq_of_alike _ second]
    refine .bindSame _ fun key => ?_
    have found := pairs.lookup key
    generalize as.lookup key = a at *
    generalize bs.lookup key = b at *
    cases found with
    | none => exact .error _
    | some alike => exact .ok (alike.moveTo computed)
  case mapPut =>
    refine (argument 0).bind fun a b first => ?_
    refine (matches_mapping _ first).bind fun as bs pairs => ?_
    refine (argument 1).bind fun a b second => ?_
    rw [atom_eq_of_alike _ second]
    refine .bindSame _ fun key => ?_
    exact (argument 2).bind fun a b third => made (forall₂_put computed key second third pairs)

/-- An operation writes the same, whatever the places of its arguments. -/
theorem echo_eq_of_alike (h : List.Forall₂ (Alike R) ns ms) : op.echo ns = op.echo ms := by
  cases h with
  | nil => rfl
  | cons first _ =>
    cases op
    case print => rw [echo, echo, first.print_eq]
    case putLine => cases first <;> rfl
    all_goals rfl

end Operation

end Sexpr
