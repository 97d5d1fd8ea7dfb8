/-
What operations give.

`Yields Q x` says that `x` gives a result with the property `Q`, or a fault that is
not the fault of a limit. Operations take numbers and texts apart and put vectors
together, and do nothing to other nodes. So a property of nodes that plain data have
and vectors inherit from their items (`Node.Hereditary`) passes from the arguments of
an operation to its result. Main statement: `Operation.yields_value`.
-/

import Sexpr.Proofs.Run.Limits
import Sexpr.Proofs.Table

namespace Sexpr

variable {α β : Type} {P : Node → Prop}

/-- The result has the property `Q`; a fault is not that of a limit. -/
def Yields (Q : α → Prop) : Except Fault α → Prop
  | .ok a => Q a
  | .error fault => fault.isLimit = false

/-- A property that numbers, texts and atoms have, that vectors inherit from their
items, and that is not a matter of places. -/
structure Node.Hereditary (P : Node → Prop) : Prop where
  number : ∀ p n, P (.number p n)
  text : ∀ p s, P (.text p s)
  atom : ∀ p name, P (.atom p name)
  vector : ∀ p ns, P (.vector p ns) ↔ ∀ n ∈ ns, P n
  moveTo : ∀ p {n}, P n → P (n.moveTo p)

namespace Yields

theorem pure {Q : α → Prop} {a : α} (h : Q a) : Yields Q (Pure.pure a) := h

theorem bind {Q : α → Prop} {R : β → Prop} {x : Except Fault α} {f : α → Except Fault β}
    (h : Yields Q x) (k : ∀ a, Q a → Yields R (f a)) : Yields R (x >>= f) := by
  cases x with
  | ok a => exact k a h
  | error fault => exact h

/-- A computation whose result does not matter. -/
theorem bindAny {Q : α → Prop} {R : β → Prop} {x : Except Fault α} {f : α → Except Fault β}
    (h : Yields Q x) (k : ∀ a, Yields R (f a)) : Yields R (x >>= f) :=
  h.bind fun a _ => k a

theorem mapM {Q : β → Prop} {f : α → Except Fault β} {as : List α}
    (h : ∀ a ∈ as, Yields Q (f a)) : Yields (∀ b ∈ ·, Q b) (as.mapM f) := by
  induction as with
  | nil => exact fun b mem => nomatch mem
  | cons a as ih =>
    rw [List.mapM_cons]
    apply (h a List.mem_cons_self).bind
    intro b hb
    apply (ih fun c mem => h c (List.mem_cons_of_mem a mem)).bind
    intro bs hbs c mem
    rcases List.mem_cons.mp mem with rfl | mem
    · exact hb
    · exact hbs c mem

end Yields

theorem Arity.yields_check (expected : Arity) (callee : String) (given : Nat) :
    Yields (fun _ => True) (expected.check callee given) := by
  unfold check
  split
  · trivial
  · rfl

/-! ### Mappings -/

theorem Node.yields_pairsFrom (seen : List String) (items : List Node) (h : ∀ n ∈ items, P n) :
    Yields (fun found => ∀ pairs, found = some pairs → ∀ entry ∈ pairs, P entry.2)
      (pairsFrom seen items) := by
  fun_induction pairsFrom seen items with
  | case1 =>
    rintro pairs ⟨⟩ entry mem
    cases mem
  | case2 => rfl
  | case3 seen p key value rest new fault failed ih =>
    rw [failed] at ih
    exact ih fun n mem => h n (by simp [mem])
  | case4 => exact fun pairs found => nomatch found
  | case5 seen p key value rest new pairs found ih =>
    rw [found] at ih
    rintro pairs ⟨⟩ entry mem
    rcases List.mem_cons.mp mem with rfl | mem
    · exact h value (by simp)
    · exact ih (fun n mem => h n (by simp [mem])) pairs rfl entry mem
  | case6 => exact fun pairs found => nomatch found

theorem Node.yields_pairs? (items : List Node) (h : ∀ n ∈ items, P n) :
    Yields (fun found => ∀ pairs, found = some pairs → ∀ entry ∈ pairs, P entry.2)
      (pairs? items) := by
  unfold pairs?
  split
  · exact fun pairs found => nomatch found
  · exact yields_pairsFrom [] items h

namespace Operation

/-! ### Operands -/

theorem yields_argument (op : Operation) {args : List Node} (h : ∀ a ∈ args, P a) (index : Nat) :
    Yields P (op.argument args index) := by
  unfold argument
  split
  · rename_i node found
    exact h node (List.mem_of_getElem? found)
  · rfl

theorem yields_number (op : Operation) (n : Node) : Yields (fun _ => True) (op.number n) := by
  cases n with
  | number p x => trivial
  | _ => rfl

theorem yields_integer (op : Operation) (n : Node) : Yields (fun _ => True) (op.integer n) := by
  unfold integer
  split
  · trivial
  · rfl
  · rfl

theorem yields_text (op : Operation) (n : Node) : Yields (fun _ => True) (op.text n) := by
  cases n with
  | text p s => trivial
  | _ => rfl

theorem yields_atom (op : Operation) (n : Node) : Yields (fun _ => True) (op.atom n) := by
  cases n with
  | atom p name => trivial
  | _ => rfl

theorem yields_vector (hP : Node.Hereditary P) (op : Operation) {n : Node} (h : P n) :
    Yields (∀ item ∈ ·, P item) (op.vector n) := by
  cases n with
  | vector p items => exact (hP.vector p items).mp h
  | _ => rfl

theorem yields_mapping (hP : Node.Hereditary P) (op : Operation) {n : Node} (h : P n) :
    Yields (∀ entry ∈ ·, P entry.2) (op.mapping n) := by
  apply (yields_vector hP op h).bind
  intro items hitems
  apply (Node.yields_pairs? items hitems).bind
  intro found hfound
  split
  · exact hfound _ rfl
  · rfl

theorem yields_position (op : Operation) (len : Nat) (n : Node) :
    Yields (fun _ => True) (op.position len n) := by
  apply (yields_integer op n).bindAny
  intro index
  dsimp only
  generalize (if index < 0 then index + (len : Int) else index) = resolved
  split
  · trivial
  · rfl

/-! ### Results -/

theorem yields_arithmetic (r : Except ArithmeticFault Number) :
    Yields (fun _ => True) (arithmetic r) := by
  cases r with
  | ok n => trivial
  | error fault => rfl

theorem yields_accumulate (op : Operation)
    (combine : Number → Number → Except ArithmeticFault Number) (neutral : Number)
    (args : List Node) : Yields (fun _ => True) (op.accumulate combine neutral args) := by
  unfold accumulate
  induction args generalizing neutral with
  | nil => trivial
  | cons a args ih =>
    rw [List.foldlM_cons]
    apply Yields.bindAny
    · exact (yields_number op a).bindAny fun n => yields_arithmetic _
    · exact ih

theorem yields_order (op : Operation) (a b : Node) :
    Yields (fun _ => True) (op.order a b) := by
  unfold order
  split
  · split
    · trivial
    · rfl
  · trivial
  · rfl
  · rfl
  · rfl

theorem yields_ordered (hP : Node.Hereditary P) (op : Operation) (test : Ordering → Bool)
    {args : List Node} (h : ∀ a ∈ args, P a) : Yields P (op.ordered test args) := by
  apply (yields_argument op h 0).bindAny
  intro a
  apply (yields_argument op h 1).bindAny
  intro b
  exact (yields_order op a b).bindAny fun ordering => hP.atom _ _

theorem yields_positiveStep (step : Int) : Yields (fun _ => True) (positiveStep step) := by
  unfold positiveStep
  split
  · trivial
  · rfl

theorem mem_of_mem_stride {α : Type} {a : α} {step skip : Nat} {items : List α}
    (h : a ∈ stride step skip items) : a ∈ items := by
  fun_induction stride step skip items with
  | case1 => exact h
  | case2 x xs ih =>
    rcases List.mem_cons.mp h with rfl | h
    · exact List.mem_cons_self
    · exact List.mem_cons_of_mem x (ih h)
  | case3 skip x xs ih => exact List.mem_cons_of_mem x (ih h)

/-- A slice has no items of its own. -/
theorem mem_of_mem_cut {α : Type} {a : α} {start stop step : Nat} {items : List α}
    (h : a ∈ cut start stop step items) : a ∈ items :=
  List.mem_of_mem_drop (List.mem_of_mem_take (mem_of_mem_stride h))

theorem forall_mem_put (hP : Node.Hereditary P) {key : String} {keyNode value : Node}
    {pairs : Table Node} (hkey : P keyNode) (hvalue : P value) (h : ∀ entry ∈ pairs, P entry.2) :
    ∀ n ∈ put key keyNode value pairs, P n := by
  have kept : ∀ n ∈ pairs.flatMap fun entry =>
      [Node.atom .computed entry.1, if entry.1 = key then value else entry.2], P n := by
    intro n mem
    obtain ⟨⟨name, node⟩, isEntry, mem⟩ := List.mem_flatMap.mp mem
    rcases List.mem_cons.mp mem with rfl | mem
    · exact hP.atom _ _
    · rw [List.mem_singleton.mp mem]
      split
      · exact hvalue
      · exact h _ isEntry
  intro n mem
  unfold put at mem
  dsimp only at mem
  split at mem
  · exact kept n mem
  · rcases List.mem_append.mp mem with mem | mem
    · exact kept n mem
    · rcases List.mem_cons.mp mem with rfl | mem
      · exact hkey
      · rw [List.mem_singleton.mp mem]
        exact hvalue

theorem prop_getD (hP : Node.Hereditary P) {ns : List Node} (h : ∀ n ∈ ns, P n) (i : Nat) :
    P (ns.getD i (.nil .computed)) := by
  rw [List.getD_eq_getElem?_getD]
  cases found : ns[i]? with
  | none => exact hP.atom _ _
  | some n => exact h n (List.mem_of_getElem? found)

/-- An operation gives what has the property, if its arguments have it, and no fault
of a limit. -/
theorem yields_value (hP : Node.Hereditary P) (op : Operation) {args : List Node}
    (h : ∀ a ∈ args, P a) : Yields P (op.value args) := by
  have argument := yields_argument op h
  have row {ns : List Node} (all : ∀ n ∈ ns, P n) : P (row ns) := (hP.vector _ ns).mpr all
  cases op
  case add => exact (yields_accumulate _ _ _ _).bindAny fun n => hP.number _ n
  case sub =>
    apply (argument 0).bindAny
    intro first
    apply (yields_accumulate _ _ _ _).bindAny
    intro subtrahend
    apply (yields_number _ first).bindAny
    intro n
    exact (yields_arithmetic _).bindAny fun n => hP.number _ n
  case mul => exact (yields_accumulate _ _ _ _).bindAny fun n => hP.number _ n
  case div =>
    apply (argument 0).bindAny
    intro first
    apply (yields_accumulate _ _ _ _).bindAny
    intro divisor
    apply (yields_number _ first).bindAny
    intro n
    exact (yields_arithmetic _).bindAny fun n => hP.number _ n
  case equal | unequal =>
    exact (argument 0).bindAny fun a => (argument 1).bindAny fun b => hP.atom _ _
  case greater | less | greaterEqual | lessEqual => exact yields_ordered hP _ _ h
  case truth | negation => exact (argument 0).bindAny fun a => hP.atom _ _
  case concat => exact (Yields.mapM fun a _ => yields_text _ a).bindAny fun texts => hP.text _ _
  case print => exact (argument 0).bind fun a ha => hP.moveTo _ ha
  case putLine =>
    exact (argument 0).bindAny fun a => (yields_text _ a).bindAny fun s => hP.text _ s
  case merge =>
    apply (Yields.mapM fun a mem => yields_vector hP _ (h a mem)).bind
    intro rows hrows
    apply row
    intro n mem
    obtain ⟨ns, isRow, mem⟩ := List.mem_flatten.mp mem
    exact hrows ns isRow n mem
  case slice =>
    apply (argument 0).bind
    intro v hv
    apply (yields_vector hP _ hv).bind
    intro ns hns
    have slice (start stop step : Nat) : P (Operation.row (cut start stop step ns)) :=
      row fun n mem => hns n (mem_of_mem_cut mem)
    apply (argument 1).bindAny
    intro start
    apply (yields_integer _ start).bindAny
    intro start
    apply (argument 2).bindAny
    intro stop
    apply (yields_integer _ stop).bindAny
    intro stop
    dsimp only
    split
    · exact slice _ _ _
    · rename_i step _
      apply (yields_integer _ step).bindAny
      intro step
      exact (yields_positiveStep step).bindAny fun step => slice _ _ _
  case index =>
    apply (argument 1).bind
    intro v hv
    apply (yields_vector hP _ hv).bind
    intro ns hns
    apply (argument 0).bindAny
    intro i
    exact (yields_position _ _ i).bindAny fun i => hP.moveTo _ (prop_getD hP hns i)
  case remove =>
    apply (argument 1).bind
    intro v hv
    apply (yields_vector hP _ hv).bind
    intro ns hns
    apply (argument 0).bindAny
    intro i
    apply (yields_position _ _ i).bindAny
    intro i
    exact row fun n mem => hns n (List.mem_of_mem_eraseIdx mem)
  case length =>
    apply (argument 0).bindAny
    intro a
    split
    · exact hP.number _ _
    · exact hP.number _ _
    · rfl
  case cons =>
    apply (argument 1).bind
    intro v hv
    apply (yields_vector hP _ hv).bind
    intro ns hns
    apply (argument 0).bind
    intro a ha
    exact row (List.forall_mem_cons.mpr ⟨ha, hns⟩)
  case snoc =>
    apply (argument 0).bind
    intro v hv
    apply (yields_vector hP _ hv).bind
    intro ns hns
    apply (argument 1).bind
    intro a ha
    exact row (List.forall_mem_append.mpr ⟨hns, List.forall_mem_singleton.mpr ha⟩)
  case isMap =>
    apply (argument 0).bind
    intro v hv
    apply (yields_vector hP _ hv).bind
    intro ns hns
    exact (Node.yields_pairs? ns hns).bindAny fun found => hP.atom _ _
  case mapHas =>
    apply (argument 0).bind
    intro v hv
    apply (yields_mapping hP _ hv).bindAny
    intro pairs
    apply (argument 1).bindAny
    intro key
    exact (yields_atom _ key).bindAny fun key => hP.atom _ _
  case mapGet =>
    apply (argument 0).bind
    intro v hv
    apply (yields_mapping hP _ hv).bind
    intro pairs hpairs
    apply (argument 1).bindAny
    intro key
    apply (yields_atom _ key).bindAny
    intro key
    split
    · rename_i node found
      exact hP.moveTo _ (hpairs _ (Table.mem_of_lookup found))
    · rfl
  case mapPut =>
    apply (argument 0).bind
    intro v hv
    apply (yields_mapping hP _ hv).bind
    intro pairs hpairs
    apply (argument 1).bind
    intro keyNode hkey
    apply (yields_atom _ keyNode).bindAny
    intro key
    apply (argument 2).bind
    intro value hvalue
    exact row (forall_mem_put hP hkey hvalue hpairs)

end Operation

end Sexpr
