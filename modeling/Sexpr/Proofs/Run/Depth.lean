/-
The limit on depth ends every run that cannot repeat itself.

Only two forms evaluate over and over at one depth: `loop`, and `eval` with what it
unwraps. All else that evaluation does leads one level further down. A node is free of
repeats if neither form occurs in it, at any level, quoted or in the body of a closure.
What is free of repeats cannot get hold of the two forms, since they come from nowhere
else. Main statement: `Interpreter.evalAt_ends_of_isRepeatFree`.
-/

import Sexpr.Proofs.Run.Bindings

namespace Sexpr

/-- The form evaluates over and over at one depth. -/
def Form.repeats : Form → Bool
  | .loop | .evaluate => true
  | _ => false

namespace Node

mutual

/-- No form that repeats itself occurs in the node, however deep. -/
def isRepeatFree : Node → Bool
  | .form _ f => !f.repeats
  | .call _ items | .vector _ items => allRepeatFree items
  | .quoted _ inner => isRepeatFree inner
  | .closure _ _ body => isRepeatFree body
  | .number _ _ | .symbol _ _ | .text _ _ | .atom _ _ | .primitive _ _ => true

def allRepeatFree : List Node → Bool
  | [] => true
  | n :: ns => isRepeatFree n && allRepeatFree ns

end

theorem allRepeatFree_iff {ns : List Node} :
    allRepeatFree ns = true ↔ ∀ n ∈ ns, n.isRepeatFree = true := by
  induction ns with
  | nil => simp [allRepeatFree]
  | cons n ns ih => simp [allRepeatFree, ih]

theorem hereditary_isRepeatFree : Hereditary (·.isRepeatFree = true) where
  number := fun _ _ => by simp [isRepeatFree]
  text := fun _ _ => by simp [isRepeatFree]
  atom := fun _ _ => by simp [isRepeatFree]
  vector := fun p ns => by simp [isRepeatFree, allRepeatFree_iff]
  moveTo := fun p {n} h => by
    cases n <;> exact h

end Node

/-- Code and values in which nothing repeats itself. -/
def Vocabulary.repeatFree : Vocabulary where
  Code := (·.isRepeatFree = true)
  Value := (·.isRepeatFree = true)
  hereditary := Node.hereditary_isRepeatFree
  code_of_value := id
  value_of_isConstant := fun h _ => h
  code_of_call := fun h => by simpa [Node.isRepeatFree, Node.allRepeatFree_iff] using h
  code_of_vector := fun h => by simpa [Node.isRepeatFree, Node.allRepeatFree_iff] using h
  value_quoted_iff := by simp [Node.isRepeatFree]
  value_closure_iff := by simp [Node.isRepeatFree]

namespace Interpreter

variable {i : Interpreter}

/-- Fuel beyond the levels that are left is enough, since every evaluation on the way is
one level further down. -/
theorem evalAt_serves_repeatFree
    (hosts : ∀ host ∈ i.hosts,
      (Contract.bindings .repeatFree fun _ => False).Admits host)
    {fuel depth : Nat} (enough : i.limits.depth - depth < fuel) :
    (Contract.bindings .repeatFree fun _ => False).Serves (i.evalAt fuel) depth := by
  induction fuel generalizing depth with
  | zero => cases enough
  | succ fuel ih =>
    apply step_keeps_bindings hosts
    · exact fun room => ih (by omega)
    · intro _
      constructor
      · rintro ⟨p, isFree⟩
        simp [Contract.bindings, Vocabulary.repeatFree, Node.isRepeatFree, Form.repeats] at isFree
      · rintro ⟨p, isFree⟩
        simp [Contract.bindings, Vocabulary.repeatFree, Node.isRepeatFree, Form.repeats] at isFree

/-- Where the forms that repeat themselves occur neither in the node nor in what is bound,
the limit on depth alone ends evaluation, with a value or a signal; and neither the value or
payload nor any binding contains such a form then. The functions of the embedding program are
taken to answer, and not to bring such forms in. -/
theorem evalAt_ends_of_isRepeatFree (i : Interpreter) (fuel : Nat) (node : Node)
    (frame : FrameId) (depth : Nat) (w : World)
    (hosts : ∀ host ∈ i.hosts, host.Preserves (·.isRepeatFree = true) ∧
      ∀ args status, host args ≠ .exit status)
    (code : node.isRepeatFree = true) (bound : w.store.All (·.isRepeatFree = true))
    (enough : i.limits.depth - depth < fuel) :
    match i.evalAt fuel node frame depth w with
    | .ok value w' => value.isRepeatFree = true ∧ w'.store.All (·.isRepeatFree = true)
    | .error (.raised s) w' =>
      s.payload.isRepeatFree = true ∧ w'.store.All (·.isRepeatFree = true)
    | .error (.exited _) _ | .error .outOfFuel _ => False := by
  have admits : ∀ host ∈ i.hosts,
      (Contract.bindings .repeatFree fun _ => False).Admits host := by
    intro host isHost
    obtain ⟨preserves, answers⟩ := hosts host isHost
    exact Host.Preserves.admits preserves answers
  have ends := evalAt_serves_repeatFree admits enough frame code w bound
  cases ended : i.evalAt fuel node frame depth w with
  | ok value w' =>
    rw [ended] at ends
    exact ends.symm
  | error stop w' =>
    rw [ended] at ends
    cases stop with
    | raised s => exact ends.symm
    | exited status => exact ends.2
    | outOfFuel => exact ends.2

/-- `((fn [f] (f f)) (fn [f] (f f)))` comes to an end at the tenth level, with nothing bound
that repeats itself. -/
theorem selfApplication_ends :
    let count : Host := fun args => .value (.number .computed (.int (.ofNat args.length)))
    let i : Interpreter := { limits := ⟨10, none⟩, hosts := #[count] }
    let twice : Node := .call .computed [.form .computed .lambda,
      .vector .computed [.symbol .computed "f"],
      .call .computed [.symbol .computed "f", .symbol .computed "f"]]
    let run := i.evalAt 11 (.call .computed [twice, twice]) Store.root 0
    let w : World := ⟨.empty 0, 0, ""⟩
    run.raises (.depthExceeded 10) w = true ∧
      (run.final w).store.All (·.isRepeatFree = true) := by
  intro count i twice run w
  have hosts : ∀ host ∈ i.hosts, host.Preserves (·.isRepeatFree = true) ∧
      ∀ args status, host args ≠ .exit status := by
    intro host isHost
    rw [List.mem_singleton.mp (Array.mem_def.mp isHost)]
    refine ⟨?_, fun args status replied => nomatch replied⟩
    rintro args _ v ⟨⟩
    rfl
  have ends := evalAt_ends_of_isRepeatFree i 11 (.call .computed [twice, twice]) Store.root 0 w
    hosts (by decide) (Store.all_empty 0) (by decide)
  refine ⟨by decide +kernel, ?_⟩
  unfold Run.final
  split
  · rename_i ended
    rw [show i.evalAt 11 _ _ _ _ = _ from ended] at ends
    exact ends.2
  · rename_i stop w' ended
    rw [show i.evalAt 11 _ _ _ _ = _ from ended] at ends
    cases stop with
    | raised s => exact ends.2
    | _ => exact ends.elim

end Interpreter

end Sexpr
