/-
Where unwrapping comes to rest.

The form `eval` evaluates its operand and then, in rounds, what is quoted in the latest value.
It rests when a round gives nothing quoted, or nothing new (`Interpreter.Stage.Rests`). As long
as every round gives a value, the form ends exactly when some round comes to rest, and then
with the value of that round. What is equal need not evaluate alike, and evaluating it twice
need not give the same twice, so a value at which unwrapping rests is fixed only under
conditions (`Interpreter.Stage.Rests.isFixed`). Main statement: `Interpreter.eval_quoted_rests`.
-/

import Mathlib.Logic.Relation
import Sexpr.Proofs.Run.Expansion
import Sexpr.Proofs.Run.Places

namespace Sexpr

/-- The node is something quoted. -/
def Node.isQuoted : Node → Bool
  | .quoted _ _ => true
  | _ => false

/-- A run that ends does so with more fuel. -/
theorem Run.Agrees.eq_of_ends {α : Type} {x y : Run α} (h : Agrees (· = .outOfFuel) x y)
    {w : World} (done : x.ends w = true) : x w = y w := by
  rcases h w with ⟨stop, w', stopped, rfl⟩ | same
  · simp [ends, stopped] at done
  · exact same

/-- If a run in two parts ends, then so does its first part. -/
theorem Run.ends_of_bind {α β : Type} {x : Run α} {f : α → Run β} {w : World}
    (h : (x >>= f).ends w = true) : x.ends w = true := by
  unfold ends at h ⊢
  simp only [Bind.bind, EStateM.bind] at h
  split
  · rename_i stopped
    simp [stopped] at h
  · rfl

theorem Run.ends_traced {α : Type} (p : Place) (x : Run α) (w : World) :
    (x.traced p).ends w = x.ends w := by
  unfold ends traced
  rcases x w with ⟨a, w'⟩ | ⟨s | _ | _, w'⟩ <;> rfl

namespace Interpreter

variable {i : Interpreter} {frame : FrameId} {depth : Nat}

section

variable {node : Node} {w : World} {r r' : EStateM.Result Stop World Node}

/-- With enough fuel, an evaluation that ends in some way ends so. -/
theorem EndsIn.eventually (h : i.EndsIn node frame depth w r) :
    ∃ n, ∀ m, n ≤ m → i.evalAt m node frame depth w = r := by
  obtain ⟨n, ends, rfl⟩ := h
  exact ⟨n, fun m le => ((i.evalAt_refines le node frame depth).eq_of_ends ends).symm⟩

theorem EndsIn.eq_of_ends (h : i.EndsIn node frame depth w r) {n : Nat}
    (ends : (i.evalAt n node frame depth).ends w = true) :
    i.evalAt n node frame depth w = r := by
  obtain ⟨m, eventually⟩ := h.eventually
  rw [← eventually (max n m) (Nat.le_max_right n m)]
  exact (i.evalAt_refines (Nat.le_max_left n m) node frame depth).eq_of_ends ends

theorem EndsIn.unique (h : i.EndsIn node frame depth w r) (h' : i.EndsIn node frame depth w r') :
    r = r' := by
  obtain ⟨n, ends, rfl⟩ := h
  exact h'.eq_of_ends ends

end

/-! ### Rounds -/

/-- How far unwrapping has come: the latest value, and the world in which it was found. -/
structure Stage where
  value : Node
  world : World

/-- A round of unwrapping: what is quoted is evaluated. -/
def Round (i : Interpreter) (frame : FrameId) (depth : Nat) (a b : Stage) : Prop :=
  ∃ p inner, a.value = .quoted p inner ∧
    i.EndsIn inner frame depth a.world (.ok b.value b.world)

/-- Unwrapping rests behind a round that gave nothing quoted, or nothing new. -/
def Stage.Rests (a b : Stage) : Prop :=
  b.value.isQuoted = false ∨ b.value.same a.value = true

/-- Unwrapping gets from one stage to another in rounds behind which it does not rest. -/
def Unwraps (i : Interpreter) (frame : FrameId) (depth : Nat) : Stage → Stage → Prop :=
  Relation.ReflTransGen fun a b => i.Round frame depth a b ∧ ¬ a.Rests b

/-- Every round that is reached gives a value. -/
def Proceeds (i : Interpreter) (frame : FrameId) (depth : Nat) (start : Stage) : Prop :=
  ∀ a, i.Unwraps frame depth start a → a.value.isQuoted = true → ∃ b, i.Round frame depth a b

/-- Unwrapping comes to rest behind the round from `a` to `b`. -/
structure RestsAt (i : Interpreter) (frame : FrameId) (depth : Nat) (start a b : Stage) :
    Prop where
  reached : i.Unwraps frame depth start a
  round : i.Round frame depth a b
  rests : a.Rests b

theorem Round.isQuoted {a b : Stage} (h : i.Round frame depth a b) : a.value.isQuoted = true := by
  obtain ⟨p, inner, quoted, _⟩ := h
  rw [quoted]
  rfl

theorem Round.unique {a b c : Stage} (h : i.Round frame depth a b)
    (k : i.Round frame depth a c) : b = c := by
  obtain ⟨p, inner, quoted, ends⟩ := h
  obtain ⟨q, other, quoted', ends'⟩ := k
  obtain ⟨rfl, rfl⟩ := Node.quoted.inj (quoted.symm.trans quoted')
  obtain ⟨value, world⟩ := EStateM.Result.ok.inj (ends.unique ends')
  cases b
  cases c
  simp_all

theorem Stage.not_rests_iff {a b : Stage} :
    ¬ a.Rests b ↔ b.value.isQuoted = true ∧ b.value.same a.value = false := by
  simp [Rests]

end Interpreter

namespace Call

open Interpreter

variable {i : Interpreter} {c : Call} {frame : FrameId} {depth m : Nat}

/-- The value of the round decides whether another round follows. -/
theorem unwrap_of_round (evaluates : c.eval = i.evalAt m) {a b : Stage} {p : Place} {inner : Node}
    (quoted : a.value = .quoted p inner)
    (value : i.evalAt m inner c.frame (c.depth + 1) a.world = .ok b.value b.world) (fuel : Nat) :
    c.unwrap (fuel + 1) a.value a.world =
      if b.value.same a.value then .ok b.value b.world else c.unwrap fuel b.value b.world := by
  have ran : c.run inner a.world = .ok b.value b.world := by
    rw [run, runIn, evaluates, value]
  rw [quoted, unwrap]
  simp only [Bind.bind, EStateM.bind, ran]
  split <;> rfl

theorem unwrap_of_not_isQuoted {v : Node} (h : v.isQuoted = false) (fuel : Nat) :
    c.unwrap (fuel + 1) v = pure v := by
  cases v with
  | quoted p inner => cases h
  | _ => rfl

/-- Unwrapping that comes to an end has come to rest. -/
theorem restsAt_of_unwrap (evaluates : c.eval = i.evalAt m) {fuel : Nat} {start : Stage}
    (quoted : start.value.isQuoted = true) (proceeds : i.Proceeds c.frame (c.depth + 1) start)
    (ends : (c.unwrap fuel start.value).ends start.world = true) :
    ∃ a b, i.RestsAt c.frame (c.depth + 1) start a b ∧
      c.unwrap fuel start.value start.world = .ok b.value b.world := by
  induction fuel generalizing start with
  | zero =>
    rw [unwrap] at ends
    cases ends
  | succ fuel ih =>
    obtain ⟨next, round⟩ := proceeds start .refl quoted
    have ⟨p, inner, isQuoted, endsIn⟩ := round
    have ran : (i.evalAt m inner c.frame (c.depth + 1)).ends start.world = true := by
      rw [isQuoted, unwrap] at ends
      have ran := Run.ends_of_bind ends
      rwa [run, runIn, evaluates] at ran
    have goesOn := unwrap_of_round evaluates isQuoted (endsIn.eq_of_ends ran) fuel
    rw [Run.ends, goesOn] at ends
    rw [goesOn]
    by_cases rests : start.Rests next
    · refine ⟨start, next, ⟨.refl, round, rests⟩, ?_⟩
      split
      · rfl
      · rename_i new
        have plain := rests.resolve_right new
        rw [if_neg new] at ends
        cases fuel with
        | zero => cases ends
        | succ fuel =>
          rw [unwrap_of_not_isQuoted plain]
          rfl
    · obtain ⟨stillQuoted, new⟩ := Stage.not_rests_iff.mp rests
      rw [new] at ends ⊢
      have proceeds' : i.Proceeds c.frame (c.depth + 1) next :=
        fun a reached => proceeds a (.head ⟨round, rests⟩ reached)
      obtain ⟨a, b, restsAt, value⟩ := ih stillQuoted proceeds' ends
      exact ⟨a, b, ⟨.head ⟨round, rests⟩ restsAt.reached, restsAt.round, restsAt.rests⟩, value⟩

/-- Where unwrapping comes to rest, it comes to an end, if the fuel is enough. -/
theorem unwrap_of_restsAt {start a b : Stage} (h : i.RestsAt frame depth start a b) :
    ∃ n, ∀ c : Call, c.frame = frame → c.depth + 1 = depth → ∀ m, c.eval = i.evalAt m → n ≤ m →
      ∀ fuel, n ≤ fuel → c.unwrap fuel start.value start.world = .ok b.value b.world := by
  obtain ⟨reached, round, rests⟩ := h
  induction reached using Relation.ReflTransGen.head_induction_on with
  | refl =>
    obtain ⟨p, inner, quoted, endsIn⟩ := round
    obtain ⟨n, eventually⟩ := endsIn.eventually
    refine ⟨n + 2, ?_⟩
    rintro c rfl rfl m evaluates enough fuel fuelled
    obtain ⟨fuel, rfl⟩ : ∃ k, fuel = k + 1 + 1 := ⟨fuel - 2, by omega⟩
    rw [unwrap_of_round evaluates quoted (eventually m (by omega))]
    split
    · rfl
    · rename_i new
      rw [unwrap_of_not_isQuoted (rests.resolve_right new)]
      rfl
  | head step _ ih =>
    obtain ⟨⟨p, inner, quoted, endsIn⟩, goesOn⟩ := step
    obtain ⟨n, eventually⟩ := endsIn.eventually
    obtain ⟨n', later⟩ := ih
    refine ⟨max n n' + 1, ?_⟩
    rintro c rfl rfl m evaluates enough fuel fuelled
    obtain ⟨fuel, rfl⟩ : ∃ k, fuel = k + 1 := ⟨fuel - 1, by omega⟩
    rw [unwrap_of_round evaluates quoted (eventually m (by omega)),
      if_neg (by simpa using (Stage.not_rests_iff.mp goesOn).2)]
    exact later c rfl rfl m evaluates (by omega) _ (by omega)

end Call

namespace Interpreter

variable {i : Interpreter} {frame : FrameId} {depth : Nat}

/-! ### The form -/

theorem evalAt_symbol (free : i.limits.budget = none) (room : depth < i.limits.depth) (fuel : Nat)
    {w : World} {name : String} {value : Node} (bound : w.store.find? frame name = some value)
    (p : Place) :
    i.evalAt (fuel + 1) (.symbol p name) frame depth w = .ok value (w.later 1) := by
  rw [evalAt_succ free room]
  show Run.ofExcept p (w.store.lookup frame name) (w.later 1) = _
  rw [Store.lookup, bound]
  rfl

/-- A call by name applies what the name stands for two steps later. -/
theorem evalAt_call (free : i.limits.budget = none) (room : depth + 1 < i.limits.depth)
    (fuel : Nat) {w : World} {name : String} {callee : Node}
    (bound : w.store.find? frame name = some callee) (args : List Node) (place p : Place) :
    i.evalAt (fuel + 2) (.call place (.symbol p name :: args)) frame depth w =
      Run.traced place (i.apply (fuel + 1) (i.evalAt (fuel + 1)) place frame depth
        (.symbol p name) callee args) (w.later 2) := by
  rw [evalAt_succ free (Nat.lt_of_succ_lt room)]
  show Run.traced place (i.evalAt (fuel + 1) (.symbol p name) frame (depth + 1) >>= fun callee =>
    i.apply (fuel + 1) (i.evalAt (fuel + 1)) place frame depth (.symbol p name) callee args)
      (w.later 1) = _
  have looked : i.evalAt (fuel + 1) (.symbol p name) frame (depth + 1) (w.later 1) =
      .ok callee (w.later 2) :=
    @evalAt_symbol i frame (depth + 1) free room fuel (w.later 1) name _ bound p
  simp only [Run.traced, Bind.bind, EStateM.bind, looked]

/-- A call of a special form by name carries out the form two steps later. -/
theorem evalAt_form (free : i.limits.budget = none) (room : depth + 1 < i.limits.depth)
    (fuel : Nat) {w : World} {name : String} {f : Form} {q : Place}
    (bound : w.store.find? frame name = some (.form q f)) {args : List Node}
    (accepted : f.arity.check f.name args.length = .ok ()) (place p : Place) :
    i.evalAt (fuel + 2) (.call place (.symbol p name :: args)) frame depth w =
      Run.traced place (f.run ⟨place, frame, depth, i.limits, fuel + 1, i.evalAt (fuel + 1)⟩ args)
        (w.later 2) := by
  rw [evalAt_call free room fuel bound, apply, accepted]
  rfl

/-- A quoted node is unwrapped four steps later. -/
theorem evalAt_eval_quote (free : i.limits.budget = none) (room : 3 ≤ i.limits.depth)
    {w : World} {q q' : Place} (evaluates : w.store.find? frame "eval" = some (.form q .evaluate))
    (quotes : w.store.find? frame "quote" = some (.form q' .quote)) (place p p' p'' : Place)
    (n : Node) (fuel : Nat) :
    i.evalAt (fuel + 3)
        (.call place [.symbol p "eval", .call p' [.symbol p'' "quote", n]]) frame 0 w =
      Run.traced place ((⟨place, frame, 0, i.limits, fuel + 2, i.evalAt (fuel + 2)⟩ : Call).unwrap
        (fuel + 2) (.quoted p' n)) (w.later 4) := by
  have quoted : i.evalAt (fuel + 2) (.call p' [.symbol p'' "quote", n]) frame 1 (w.later 2) =
      .ok (.quoted p' n) (w.later 4) := by
    rw [@evalAt_form i frame 1 free room fuel (w.later 2) _ _ _ quotes _ rfl]
    rfl
  rw [evalAt_form free (by omega) (fuel + 1) evaluates rfl]
  simp only [Run.traced, Form.run, Bind.bind, EStateM.bind, Call.run, Call.runIn, quoted]

/-- Unwrapping a quoted node ends only if it comes to rest. -/
theorem exists_restsAt (free : i.limits.budget = none) (room : 3 ≤ i.limits.depth) {w : World}
    {place p p' p'' q q' : Place}
    (evaluates : w.store.find? frame "eval" = some (.form q .evaluate))
    (quotes : w.store.find? frame "quote" = some (.form q' .quote)) {n : Node}
    (proceeds : i.Proceeds frame 1 ⟨.quoted p' n, w.later 4⟩)
    {r : EStateM.Result Stop World Node} (endsIn : i.EndsIn
      (.call place [.symbol p "eval", .call p' [.symbol p'' "quote", n]]) frame 0 w r) :
    ∃ a b, i.RestsAt frame 1 ⟨.quoted p' n, w.later 4⟩ a b := by
  obtain ⟨fuel, ends, _⟩ := endsIn
  have more := (i.evalAt_refines (Nat.le_add_right fuel 3) _ frame 0).eq_of_ends ends
  rw [Run.ends, more, evalAt_eval_quote free room evaluates quotes] at ends
  have unwrapped := (Run.ends_traced place _ (w.later 4)).symm.trans ends
  obtain ⟨a, b, restsAt, _⟩ :=
    @Call.restsAt_of_unwrap i ⟨place, frame, 0, i.limits, fuel + 2, i.evalAt (fuel + 2)⟩ (fuel + 2)
      rfl (fuel + 2) ⟨.quoted p' n, w.later 4⟩ rfl proceeds unwrapped
  exact ⟨a, b, restsAt⟩

/-! ### Names that lead to one another -/

/-- The first name is bound to the second one, quoted. -/
def Leads (s : Store) (frame : FrameId) (x y : String) : Prop :=
  ∃ p q, s.find? frame x = some (.quoted p (.symbol q y))

/-- Unwrapping has come to a name and left the store as it was. -/
def Stage.IsAt (s : Store) (x : String) (a : Stage) : Prop :=
  a.world.store = s ∧ ∃ p q, a.value = .quoted p (.symbol q x)

/-- A round looks up a name that is quoted. -/
theorem round_symbol (free : i.limits.budget = none) (room : depth < i.limits.depth) {w : World}
    {x : String} {value : Node} (bound : w.store.find? frame x = some value) (p q : Place) :
    i.Round frame depth ⟨.quoted p (.symbol q x), w⟩ ⟨value, w.later 1⟩ := by
  have looked := evalAt_symbol free room 0 bound q
  exact ⟨p, _, rfl, 1, by rw [Run.ends, looked], looked⟩

section

variable {s : Store} {names : List String} {x y : String} {a b : Stage}

/-- A round goes from one name to the next, and unwrapping rests if that is the same name. -/
theorem Stage.IsAt.round (free : i.limits.budget = none) (room : depth < i.limits.depth)
    (isAt : a.IsAt s x) (leads : Leads s frame x y) :
    ∃ b, i.Round frame depth a b ∧ b.IsAt s y ∧ (a.Rests b ↔ y = x) := by
  obtain ⟨value, world⟩ := a
  obtain ⟨rfl, p, q, rfl⟩ := isAt
  obtain ⟨p', q', bound⟩ := leads
  refine ⟨_, round_symbol free room bound p q, ⟨rfl, p', q', rfl⟩, ?_⟩
  simp [Rests, Node.isQuoted, Node.same]

/-- Unwrapping does not leave names of which each leads to some other, or to itself. -/
theorem Stage.IsAt.unwraps (free : i.limits.budget = none) (room : depth < i.limits.depth)
    (closed : ∀ x ∈ names, ∃ y ∈ names, Leads s frame x y) (isAt : a.IsAt s x) (mem : x ∈ names)
    (h : i.Unwraps frame depth a b) : ∃ y ∈ names, b.IsAt s y := by
  induction h with
  | refl => exact ⟨x, mem, isAt⟩
  | tail _ step ih =>
    obtain ⟨y, mem, isAt⟩ := ih
    obtain ⟨z, mem', leads⟩ := closed y mem
    obtain ⟨next, round, isAt', _⟩ := isAt.round free room leads
    exact ⟨z, mem', step.1.unique round ▸ isAt'⟩

theorem Stage.IsAt.proceeds (free : i.limits.budget = none) (room : depth < i.limits.depth)
    (closed : ∀ x ∈ names, ∃ y ∈ names, Leads s frame x y) (isAt : a.IsAt s x)
    (mem : x ∈ names) : i.Proceeds frame depth a := by
  intro b reached _
  obtain ⟨y, mem, isAt⟩ := isAt.unwraps free room closed mem reached
  obtain ⟨z, _, leads⟩ := closed y mem
  obtain ⟨c, round, _⟩ := isAt.round free room leads
  exact ⟨c, round⟩

end

/-! ### Fixed values -/

/-- What the node quotes evaluates to an equal node. -/
def IsFixed (i : Interpreter) (frame : FrameId) (node : Node) (w : World) : Prop :=
  ∃ p inner again w', node = .quoted p inner ∧ i.EndsIn inner frame 0 w (.ok again w') ∧
    again.same node = true

/-- Without a budget, an evaluation that gives a value gives it one level further up and some
steps earlier, too. -/
theorem EndsIn.earlier (free : i.limits.budget = none) {node value : Node} {w u : World} {k : Nat}
    (h : i.EndsIn node frame 1 (w.later k) (.ok value u)) :
    ∃ u', i.EndsIn node frame 0 w (.ok value u') := by
  obtain ⟨n, _, ended⟩ := h
  have done : (i.evalAt n node frame 1).completes (w.later k) = true := by
    rw [Run.completes, ended]
  have same := evalAt_eq_delayed free (Nat.le_refl n) k node frame w done
  rw [ended] at same
  cases ended' : i.evalAt n node frame 0 w with
  | ok value' u' =>
    rw [ended'] at same
    obtain ⟨rfl, _⟩ := EStateM.Result.ok.inj same
    exact ⟨u', n, by rw [Run.ends, ended'], ended'⟩
  | error stop u' =>
    rw [ended'] at same
    cases same

/-- Without a budget, an evaluation that gives a value gives it some steps later, too. -/
theorem EndsIn.later (free : i.limits.budget = none) {node value : Node} {w u : World}
    (h : i.EndsIn node frame 0 w (.ok value u)) (k : Nat) :
    i.EndsIn node frame 0 (w.later k) (.ok value (u.later k)) := by
  obtain ⟨n, _, ended⟩ := h
  have serves : Invariant.any.Serves ⟨k, 0⟩ (i.evalAt n) (i.evalAt n) :=
    evalAt_serves i.admitsHost_any (.inl free) n
  have alongside : Invariant.any.Alongside ⟨k, 0⟩ 0 _ (i.evalAt n node frame 0)
      (i.evalAt n node frame 0) := serves 0 trivial (Invariant.fits_any 0 node)
  have same := alongside w ⟨trivial, Nat.zero_le _⟩
  rw [ended] at same
  generalize ended' : i.evalAt n node frame 0 (w.later k) = r at same
  cases same with
  | ok later _ _ =>
    rw [later] at ended'
    exact ⟨n, by rw [Run.ends, ended'], ended'⟩
  | excused excuse => exact absurd excuse.1 (Nat.lt_irrefl 0)

/-- The steps that have been counted do not matter for what a node evaluates to. -/
theorem EndsIn.uncounted (free : i.limits.budget = none) {node value : Node} {w u v : World}
    (h : i.EndsIn node frame 1 w (.ok value u)) (store : v.store = w.store)
    (output : v.output = w.output) : ∃ u', i.EndsIn node frame 0 v (.ok value u') := by
  have counted (w : World) : w = World.later w.steps ⟨w.store, 0, w.output⟩ := by
    simp [World.later]
  rw [counted w, ← store, ← output] at h
  obtain ⟨u', alone⟩ := h.earlier free
  rw [counted v]
  exact ⟨_, alone.later free v.steps⟩

/-- A value at which unwrapping rests because it is not new, and not only equal but the same up
to places, is fixed in a world with the store and the output of before the round. -/
theorem Round.isFixed (free : i.limits.budget = none)
    (hosts : ∀ host ∈ i.hosts, host.IgnoresPlaces) {a b : Stage} (round : i.Round frame 1 a b)
    (equal : b.value.same a.value = true) (unplaced : b.value.unplaced = a.value.unplaced)
    {v : World} (store : v.store = a.world.store) (output : v.output = a.world.output) :
    i.IsFixed frame b.value v := by
  obtain ⟨p, inner, quoted, n, _, ended⟩ := round
  obtain ⟨q, inner', isQuoted, unplaced'⟩ : ∃ q inner', b.value = .quoted q inner' ∧
      inner.unplaced = inner'.unplaced := by
    rw [quoted] at unplaced
    cases found : b.value with
    | quoted q inner' =>
      rw [found] at unplaced
      exact ⟨q, inner', rfl, (Node.quoted.inj unplaced).2.symm⟩
    | _ =>
      rw [found] at unplaced
      cases unplaced
  have alike := erased_evalAt FrameInfo.inherited_id hosts unplaced' (Eq.refl a.world.unplaced)
    frame 1 n
  rw [ended] at alike
  cases ended' : i.evalAt n inner' frame 1 a.world with
  | error stop u =>
    rw [ended'] at alike
    cases alike
  | ok again u =>
    rw [ended'] at alike
    have same : b.value.unplaced = again.unplaced := (EStateM.Result.ok.inj alike).1
    have endsIn : i.EndsIn inner' frame 1 a.world (.ok again u) :=
      ⟨n, by rw [Run.ends, ended'], ended'⟩
    obtain ⟨u', endsIn⟩ := endsIn.uncounted free store output
    refine ⟨q, inner', again, u', isQuoted, endsIn, ?_⟩
    rw [← equal]
    have any : ∀ p q : Place, True := fun _ _ => trivial
    exact (Node.alike_of_unplaced_eq any same.symm).same_eq (Node.alike_of_unplaced_eq any unplaced)

/-- Unwrapping a quoted node, as long as every round gives a value, ends exactly if it comes to
rest, and then with the value and in the world of the round behind which it rests. Such a value
is not quoted, or it is equal to what was quoted in that round. If the two are the same up to
places, and functions of the embedding program ignore places, what it quotes evaluates to an
equal node in a world with the store and the output of before the round: so in the resulting
one, if the round has changed neither. -/
theorem eval_quoted_rests (i : Interpreter) (free : i.limits.budget = none)
    (room : 3 ≤ i.limits.depth) (w : World) (frame : FrameId) (place p p' p'' q q' : Place)
    (evaluates : w.store.find? frame "eval" = some (.form q .evaluate))
    (quotes : w.store.find? frame "quote" = some (.form q' .quote)) (n : Node)
    (proceeds : i.Proceeds frame 1 ⟨.quoted p' n, w.later 4⟩) :
    let call : Node := .call place [.symbol p "eval", .call p' [.symbol p'' "quote", n]]
    let start : Stage := ⟨.quoted p' n, w.later 4⟩
    ((∃ r, i.EndsIn call frame 0 w r) ↔ ∃ a b, i.RestsAt frame 1 start a b) ∧
    ∀ a b, i.RestsAt frame 1 start a b →
      i.EndsIn call frame 0 w (.ok b.value b.world) ∧
      (b.value.isQuoted = true → b.value.same a.value = true ∧
        (b.value.unplaced = a.value.unplaced → (∀ host ∈ i.hosts, host.IgnoresPlaces) →
          ∀ v : World, v.store = a.world.store → v.output = a.world.output →
            i.IsFixed frame b.value v)) := by
  intro call start
  have called := evalAt_eval_quote free room evaluates quotes place p p' p'' n
  have ends {a b : Stage} (restsAt : i.RestsAt frame 1 start a b) :
      i.EndsIn call frame 0 w (.ok b.value b.world) := by
    obtain ⟨fuel, unwraps⟩ := Call.unwrap_of_restsAt restsAt
    have unwrapped := unwraps ⟨place, frame, 0, i.limits, fuel + 2, i.evalAt (fuel + 2)⟩ rfl rfl
      (fuel + 2) rfl (by omega) (fuel + 2) (by omega)
    have ended := (called fuel).trans (Run.traced_of_ok unwrapped place)
    exact ⟨fuel + 3, by rw [Run.ends, ended], ended⟩
  refine ⟨⟨?_, fun ⟨a, b, restsAt⟩ => ⟨_, ends restsAt⟩⟩, fun a b restsAt => ⟨ends restsAt, ?_⟩⟩
  · rintro ⟨r, endsIn⟩
    exact exists_restsAt free room evaluates quotes proceeds endsIn
  · intro quoted
    have equal : b.value.same a.value = true := restsAt.rests.resolve_left (by simp [quoted])
    exact ⟨equal, fun unplaced hosts v store output =>
      restsAt.round.isFixed free hosts equal unplaced store output⟩

/-- A world in which `eval` and `quote` name their forms, and other names what is given. -/
def worldWith (bindings : Bindings) : World where
  store := (Store.empty 1).defineAll Store.root
    (("eval", .form .computed .evaluate) :: ("quote", .form .computed .quote) :: bindings)

theorem find?_root {w : World} {x : String} {node : Node}
    (own : (w.store.frame Store.root).bindings.lookup x = some node) :
    w.store.find? Store.root x = some node := by
  rw [Store.find?_eq, own]
  rfl

/-- A name that leads to one that leads to itself: unwrapping rests at the second one, which
stays fixed. -/
theorem eval_quoted_chain :
    let i : Interpreter := {}
    let name (x : String) : Node := .symbol .computed x
    let quoted (n : Node) : Node := .quoted .computed n
    let w : World := worldWith [("a", quoted (name "b")), ("b", quoted (name "b"))]
    i.limits.budget = none ∧ 3 ≤ i.limits.depth ∧
      w.store.find? Store.root "eval" = some (.form .computed .evaluate) ∧
      w.store.find? Store.root "quote" = some (.form .computed .quote) ∧
      i.Proceeds Store.root 1 ⟨quoted (name "a"), w.later 4⟩ ∧
      i.EndsIn (.call .computed [name "eval", .call .computed [name "quote", name "a"]]) Store.root
        0 w (.ok (quoted (name "b")) (w.later 6)) ∧
      i.IsFixed Store.root (quoted (name "b")) (w.later 6) := by
  intro i name quoted w
  have evaluates := @find?_root w "eval" _ rfl
  have quotes := @find?_root w "quote" _ rfl
  have first := @find?_root w "a" _ rfl
  have second := @find?_root w "b" _ rfl
  have closed : ∀ x ∈ ["a", "b"], ∃ y ∈ ["a", "b"], Leads w.store Store.root x y := by
    simp only [List.forall_mem_cons]
    exact ⟨⟨"b", by simp, _, _, first⟩, ⟨"b", by simp, _, _, second⟩, by simp⟩
  have isAt : Stage.IsAt w.store "a" ⟨quoted (name "a"), w.later 4⟩ := ⟨rfl, _, _, rfl⟩
  have proceeds : i.Proceeds Store.root 1 ⟨quoted (name "a"), w.later 4⟩ :=
    isAt.proceeds rfl (by decide) closed List.mem_cons_self
  have new : ¬ Stage.Rests ⟨quoted (name "a"), w.later 4⟩ ⟨quoted (name "b"), w.later 5⟩ :=
    Stage.not_rests_iff.mpr ⟨rfl, by decide⟩
  have restsAt : i.RestsAt Store.root 1 ⟨quoted (name "a"), w.later 4⟩
      ⟨quoted (name "b"), w.later 5⟩ ⟨quoted (name "b"), w.later 6⟩ :=
    ⟨.single ⟨@round_symbol i _ _ rfl (by decide) (w.later 4) _ _ first _ _, new⟩,
      @round_symbol i _ _ rfl (by decide) (w.later 5) _ _ second _ _, .inr (by decide)⟩
  have rested := (eval_quoted_rests i rfl (by decide) w Store.root .computed .computed .computed
    .computed .computed .computed evaluates quotes _ proceeds).2 _ _ restsAt
  exact ⟨rfl, by decide, evaluates, quotes, proceeds, rested.1,
    (rested.2 rfl).2 rfl (by simp [i]) _ rfl rfl⟩

/-! ### Where unwrapping does not settle -/

/-- Among names of which each leads to another, unwrapping goes on for ever, although every
round gives a value. -/
theorem eval_diverges (free : i.limits.budget = none) (room : 3 ≤ i.limits.depth) {w : World}
    {place p p' p'' q q' r : Place}
    (evaluates : w.store.find? frame "eval" = some (.form q .evaluate))
    (quotes : w.store.find? frame "quote" = some (.form q' .quote)) {names : List String}
    (closed : ∀ x ∈ names, ∃ y ∈ names, y ≠ x ∧ Leads w.store frame x y) {x : String}
    (mem : x ∈ names) :
    let call : Node := .call place [.symbol p "eval", .call p' [.symbol p'' "quote", .symbol r x]]
    i.Proceeds frame 1 ⟨.quoted p' (.symbol r x), w.later 4⟩ ∧ i.Diverges call frame 0 w := by
  intro call
  have isAt : Stage.IsAt w.store x ⟨.quoted p' (.symbol r x), w.later 4⟩ := ⟨rfl, p', r, rfl⟩
  have closed' : ∀ x ∈ names, ∃ y ∈ names, Leads w.store frame x y := by
    intro x mem
    obtain ⟨y, mem', _, leads⟩ := closed x mem
    exact ⟨y, mem', leads⟩
  have deeper : 1 < i.limits.depth := by omega
  have proceeds := isAt.proceeds free deeper closed' mem
  refine ⟨proceeds, fun fuel => ?_⟩
  rw [Bool.eq_false_iff]
  intro ends
  obtain ⟨a, b, restsAt⟩ := exists_restsAt free room evaluates quotes proceeds ⟨fuel, ends, rfl⟩
  obtain ⟨y, mem, isAt⟩ := isAt.unwraps free deeper closed' mem restsAt.reached
  obtain ⟨z, _, other, leads⟩ := closed y mem
  obtain ⟨c, round, _, rests⟩ := isAt.round free deeper leads
  exact other (rests.mp (round.unique restsAt.round ▸ restsAt.rests))

/-- The evaluation gives something quoted, and with the same fuel what it quotes does not
evaluate to an equal node. -/
def givesUnfixed (i : Interpreter) (fuel : Nat) (node : Node) (frame : FrameId) (w : World) :
    Bool :=
  match i.evalAt fuel node frame 0 w with
  | .ok (.quoted p inner) u =>
    match i.evalAt fuel inner frame 0 u with
    | .ok again _ => !again.same (.quoted p inner)
    | .error .outOfFuel _ => false
    | .error _ _ => true
  | _ => false

theorem exists_unfixed {fuel : Nat} {node : Node} {w : World}
    (h : i.givesUnfixed fuel node frame w = true) :
    ∃ value u, i.EndsIn node frame 0 w (.ok value u) ∧ value.isQuoted = true ∧
      ¬ i.IsFixed frame value u := by
  unfold givesUnfixed at h
  split at h
  · rename_i p inner u ended
    refine ⟨_, u, ⟨fuel, by rw [Run.ends, ended], ended⟩, rfl, ?_⟩
    rintro ⟨_, _, again, u', ⟨⟩, endsIn, same⟩
    have ends : (i.evalAt fuel inner frame 0).ends u = true := by
      unfold Run.ends
      split
      · rename_i stopped
        simp [stopped] at h
      · rfl
    rw [endsIn.eq_of_ends ends] at h
    simp [same] at h
  · cases h

/-- Names that lead to one another in a circle never come to rest. What an evaluation has
changed, or what is equal but not the same, need not be fixed. And with too little depth
nothing is unwrapped. -/
theorem eval_unsettled :
    let i : Interpreter := {}
    let name (x : String) : Node := .symbol .computed x
    let quoted (n : Node) : Node := .quoted .computed n
    let eval (n : Node) : Node :=
      .call .computed [name "eval", .call .computed [name "quote", n]]
    let circle := worldWith [("a", quoted (name "b")), ("b", quoted (name "a"))]
    -- gives what `s` is bound to, and binds `s` to a number
    let change : Node := .call .computed [name "do",
      .call .computed [name "setn", name "t", name "s"],
      .call .computed [name "setn", name "s", .number .computed (.int 5)], name "t"]
    let changing := worldWith [("do", .form .computed .sequence), ("setn", .form .computed .bind),
      ("s", quoted change)]
    let item (n : Number) : Node :=
      .call .computed [name "at", .number .computed n, .vector .computed [name "q"]]
    let mixed := worldWith [("at", .primitive .computed ⟨0, "at", .exactly 2, .operation .index⟩),
      ("q", quoted (item (.float 0)))]
    ((∃ value u, i.EndsIn (name "a") Store.root 0 circle (.ok value u) ∧ value.isQuoted = true) ∧
      i.Proceeds Store.root 1 ⟨quoted (name "a"), circle.later 4⟩ ∧
      i.Diverges (eval (name "a")) Store.root 0 circle) ∧
    (∃ value u, i.EndsIn (eval (name "s")) Store.root 0 changing (.ok value u) ∧
      value.isQuoted = true ∧ ¬ i.IsFixed Store.root value u) ∧
    (∃ value u, i.EndsIn (eval (item (.int 0))) Store.root 0 mixed (.ok value u) ∧
      value.isQuoted = true ∧ ¬ i.IsFixed Store.root value u) ∧
    (Interpreter.evalAt { limits := ⟨2, none⟩ } 4 (eval (name "a")) Store.root 0).raises
      (.depthExceeded 2) circle = true := by
  intro i name quoted eval circle change changing item mixed
  have evaluates := @find?_root circle "eval" _ rfl
  have quotes := @find?_root circle "quote" _ rfl
  have first := @find?_root circle "a" _ rfl
  have second := @find?_root circle "b" _ rfl
  have closed : ∀ x ∈ ["a", "b"], ∃ y ∈ ["a", "b"], y ≠ x ∧ Leads circle.store Store.root x y := by
    simp only [List.forall_mem_cons]
    exact ⟨⟨"b", by simp, by simp, _, _, first⟩, ⟨"a", by simp, by simp, _, _, second⟩, by simp⟩
  have looked : i.evalAt 1 (name "a") Store.root 0 circle =
      .ok (quoted (name "b")) (circle.later 1) := evalAt_symbol rfl (by decide) 0 first .computed
  refine ⟨⟨⟨_, _, ⟨1, by rw [Run.ends, looked], looked⟩, rfl⟩, ?_⟩, ?_, ?_, ?_⟩
  · exact eval_diverges rfl (by decide) evaluates quotes closed List.mem_cons_self
  · exact @exists_unfixed i Store.root 9 _ _ (by decide +kernel)
  · exact @exists_unfixed i Store.root 9 _ _ (by decide +kernel)
  · decide +kernel

end Interpreter

end Sexpr
