/-
The traces of signals.

On its way out a signal records the expressions that it passes, from the inside out. What a
run ends with was made without a trace and has recorded the expressions that were being
evaluated when it was made, except where they are its origin or the latest entry
(`Signal.Clean`). Every expression is evaluated at least one level below the one around it, so
the limit on depth bounds how many there are (`Account.RaisesWithin`). Main statement:
`Interpreter.evalAt_trace`.
-/

import Mathlib.Data.List.Chain
import Sexpr.Proofs.Run.Signals

namespace Sexpr

/-! ### What a signal records -/

namespace Signal

/-- The signal behind the expressions at several places, of which it meets the first one first. -/
def along (s : Signal) (path : List Place) : Signal :=
  path.foldl through s

/-- A trace holds places with a span, none of them the origin, and none twice in a row. -/
structure Clean (s : Signal) : Prop where
  located : ∀ p ∈ s.trace, p.span.isSome = true
  foreign : ∀ p ∈ s.trace, p ≠ s.origin
  distinct : s.trace.IsChain (· ≠ ·)

theorem clean_of_trace_eq_nil {s : Signal} (h : s.trace = []) : s.Clean := by
  constructor <;> simp [h]

/-- The expression where a signal was made leaves no entry. So it does not matter that an empty
call, which only ever raises a fault itself, is no mark. -/
theorem through_origin (s : Signal) : s.through s.origin = s :=
  if_pos (.inr (.inl rfl))

theorem Clean.through {s : Signal} (h : s.Clean) (p : Place) : (s.through p).Clean := by
  unfold Signal.through
  split
  case isTrue => exact h
  case isFalse recorded =>
    obtain ⟨located, foreign, latest⟩ := by simpa only [not_or] using recorded
    constructor
    · intro q mem
      rcases List.mem_append.mp mem with old | new
      · exact h.located q old
      · rw [List.mem_singleton.mp new]
        simpa [Place.isComputed, Option.isSome_iff_ne_none] using located
    · intro q mem
      rcases List.mem_append.mp mem with old | new
      · exact h.foreign q old
      · exact List.mem_singleton.mp new ▸ foreign
    · refine List.isChain_append.mpr ⟨h.distinct, .singleton p, ?_⟩
      rintro q isLast r isHead rfl
      cases isHead
      exact latest isLast

theorem Clean.along {s : Signal} (h : s.Clean) (path : List Place) : (s.along path).Clean := by
  induction path generalizing s with
  | nil => exact h
  | cons p path ih => exact ih (h.through p)

theorem length_trace_along_le (s : Signal) (path : List Place) :
    (s.along path).trace.length ≤ s.trace.length + path.length := by
  induction path generalizing s with
  | nil => exact Nat.le_refl _
  | cons p path ih =>
    calc ((s.through p).along path).trace.length
      _ ≤ (s.through p).trace.length + path.length := ih _
      _ ≤ s.trace.length + 1 + path.length :=
        Nat.add_le_add_right (s.length_trace_through_le p) _
      _ = s.trace.length + (path.length + 1) := by omega

end Signal

namespace Mark

/-- What the mark leaves in a trace. -/
def place? : Mark → Option Place
  | .expression p => some p
  | .loop | .body => none

/-- The places of the expressions among the marks. -/
def places (marks : List Mark) : List Place :=
  marks.filterMap place?

theorem passAll_eq_along (marks : List Mark) (s : Signal) :
    passAll marks s = s.along (places marks) := by
  induction marks generalizing s with
  | nil => rfl
  | cons m marks ih =>
    cases m with
    | expression p => exact ih (s.through p)
    | loop | body => exact ih s

end Mark

/-! ### Which marks a signal passes -/

/-- A signal passes the innermost marks first. -/
theorem Situation.Follows.passed {s : Signal} {marks passed : List Mark} {last : Situation}
    (h : Follows (.flying s marks) (passed.map .passed) last) :
    ∃ outer, marks = passed ++ outer ∧ last = .flying (Mark.passAll passed s) outer := by
  induction passed generalizing s marks with
  | nil =>
    cases h
    exact ⟨marks, rfl, rfl⟩
  | cons m passed ih =>
    cases h with
    | cons step rest =>
      cases step with
      | pass spared =>
        obtain ⟨outer, rfl, rfl⟩ := ih rest
        exact ⟨outer, rfl, rfl⟩

/-- What a run ends with has passed all marks that were around it when it was made. -/
theorem Event.LeadTo.passed_of_ends {α : Type} {w w' : World} {earlier : List Event}
    {made s : Signal} {passed : List Mark}
    (h : LeadTo w (earlier ++ .raised made :: passed.map .passed)
      (.error (.raised s) w' : EStateM.Result _ _ α)) :
    marksAfter [] earlier = passed ∧ s = Mark.passAll passed made := by
  obtain ⟨marks, front, back⟩ := (h.2 []).raised
  obtain ⟨outer, rfl, landed⟩ := back.passed
  obtain ⟨rfl, rfl⟩ := Situation.flying.inj landed
  rw [List.append_nil] at front
  exact ⟨front.marksAfter, rfl⟩

/-! ### How many expressions a signal passes -/

/-- What happens last is that a signal without a trace is made and passes marks, among them no
more than `n` expressions. -/
def Event.RaisedWithin (n : Nat) (events : List Event) : Prop :=
  ∃ earlier made, ∃ passed : List Mark, events = earlier ++ .raised made :: passed.map .passed ∧
    made.trace = [] ∧ (Mark.places passed).length ≤ n

namespace Event.RaisedWithin

variable {n n' : Nat} {events : List Event}

theorem mono (h : RaisedWithin n events) (le : n ≤ n') : RaisedWithin n' events := by
  obtain ⟨earlier, made, passed, rfl, fresh, few⟩ := h
  exact ⟨earlier, made, passed, rfl, fresh, Nat.le_trans few le⟩

theorem after (h : RaisedWithin n events) (before : List Event) :
    RaisedWithin n (before ++ events) := by
  obtain ⟨earlier, made, passed, rfl, fresh, few⟩ := h
  exact ⟨before ++ earlier, made, passed, (List.append_assoc _ _ _).symm, fresh, few⟩

theorem passed (h : RaisedWithin n events) (m : Mark) :
    RaisedWithin (n + (Mark.places [m]).length) (events ++ [.passed m]) := by
  obtain ⟨earlier, made, passed, rfl, fresh, few⟩ := h
  refine ⟨earlier, made, passed ++ [m], ?_, fresh, ?_⟩
  · simp only [List.append_assoc, List.cons_append, List.map_append, List.map_cons, List.map_nil]
  · rw [Mark.places, List.filterMap_append, List.length_append]
    exact Nat.add_le_add_right few _

end Event.RaisedWithin

namespace Account

variable {α β : Type} {n n' : Nat}

/-- If the account ends with a signal, it has made it and led it past no more than `n`
expressions. -/
def RaisesWithin (n : Nat) (y : Account α) : Prop :=
  ∀ w s w', (y w).2 = .error (.raised s) w' → Event.RaisedWithin n (y w).1

namespace RaisesWithin

theorem mono {y : Account α} (h : y.RaisesWithin n) (le : n ≤ n') : y.RaisesWithin n' :=
  fun w s w' ends => (h w s w' ends).mono le

theorem pure (a : α) : RaisesWithin n (Pure.pure a) := by
  rintro w s w' ⟨⟩

theorem look : look.RaisesWithin n := by
  rintro w s w' ⟨⟩

theorem note (e : Event) : (note e).RaisesWithin n := by
  rintro w s w' ⟨⟩

theorem outOfFuel : (outOfFuel : Account α).RaisesWithin n := by
  rintro w s w' ⟨⟩

theorem exit (status : Int) : (exit status : Account α).RaisesWithin n := by
  rintro w s w' ⟨⟩

theorem raise {made : Signal} (fresh : made.trace = []) :
    (raise made : Account α).RaisesWithin n :=
  fun _ _ _ _ => ⟨[], made, [], rfl, fresh, Nat.zero_le n⟩

theorem fail (fault : Fault) (p : Place) : (fail fault p : Account α).RaisesWithin n :=
  raise rfl

theorem ofExcept (p : Place) (x : Except Fault α) : (ofExcept p x).RaisesWithin n := by
  cases x with
  | ok a => exact pure a
  | error fault => exact fail fault p

theorem bind {y : Account α} {g : α → Account β} (h : y.RaisesWithin n)
    (next : ∀ a, (g a).RaisesWithin n) : (y >>= g).RaisesWithin n := by
  intro w s w' ends
  cases outcome : (y w).2 with
  | ok a w₁ =>
    rw [bind_of_ok g outcome] at ends ⊢
    exact (next a w₁ s w' ends).after _
  | error stop w₁ =>
    rw [bind_of_error g outcome] at ends ⊢
    cases ends
    exact h w s w' outcome

theorem tick (limits : Limits) (p : Place) : (tick limits p).RaisesWithin n := by
  apply (note .ticked).bind
  intro _
  cases limits.budget with
  | none => exact pure ()
  | some budget =>
    apply look.bind
    intro w
    split
    · exact fail _ p
    · exact pure ()

theorem openFrame (parent : FrameId) (name : String) (bindings : Bindings) :
    (openFrame parent name bindings).RaisesWithin n :=
  look.bind fun _ => (note _).bind fun _ => pure _

theorem number : number.RaisesWithin n :=
  look.bind fun _ => (note _).bind fun _ => pure _

/-- A mark lengthens the way by itself. -/
theorem within (m : Mark) {y : Account α} (h : y.RaisesWithin n) :
    (y.within m).RaisesWithin (n + (Mark.places [m]).length) := by
  intro w s w' ends
  change (atMark m (y w).2).2 = _ at ends
  change Event.RaisedWithin _ (.entered m :: (y w).1 ++ (atMark m (y w).2).1)
  rcases outcome : (y w).2 with ⟨a, w₁⟩ | ⟨s₁ | status | _, w₁⟩
  · rw [outcome] at ends
    cases ends
  · rw [outcome] at ends
    cases caught : m.catches s₁ with
    | true =>
      rw [atMark_of_catches caught] at ends
      cases ends
    | false =>
      rw [atMark_of_spares caught, List.cons_append]
      exact ((h w s₁ w₁ outcome).passed m).after [.entered m]
  all_goals
    rw [outcome] at ends
    cases ends

theorem loop {y : Account α} (h : y.RaisesWithin n) : (y.within .loop).RaisesWithin n :=
  h.within .loop

theorem body {y : Account α} (h : y.RaisesWithin n) : (y.within .body).RaisesWithin n :=
  h.within .body

theorem expression (p : Place) {y : Account α} (h : y.RaisesWithin n) :
    (y.within (.expression p)).RaisesWithin (n + 1) :=
  h.within (.expression p)

theorem either (left : Node ⊕ Node) : (either left).RaisesWithin n := by
  cases left <;> exact pure _

end RaisesWithin

end Account

/-! ### Evaluation -/

/-- What is evaluated at the depth leads signals past no more than `n` expressions. -/
def Teller.RaisesWithin (t : Teller) (depth n : Nat) : Prop :=
  ∀ node frame, (t node frame depth).RaisesWithin n

namespace Call

open Account (RaisesWithin)

variable {c : Call} {t : Teller} {n : Nat}

theorem tell_raisesWithin (h : t.RaisesWithin (c.depth + 1) n) (node : Node) :
    (c.tell t node).RaisesWithin n :=
  h node c.frame

theorem tellAll_raisesWithin (h : t.RaisesWithin (c.depth + 1) n) (nodes : List Node) :
    (c.tellAll t nodes).RaisesWithin n := by
  induction nodes with
  | nil => exact .pure _
  | cons node nodes ih => exact (tell_raisesWithin h node).bind fun _ => ih

theorem tellDefine_raisesWithin (c : Call) (name : String) (value : Node) :
    (c.tellDefine name value).RaisesWithin n :=
  (RaisesWithin.note _).bind fun _ => .pure value

theorem tellName_raisesWithin (c : Call) (f : Form) (node : Node) :
    (c.tellName f node).RaisesWithin n := by
  cases node with
  | symbol p name => exact .pure name
  | _ => exact .fail _ _

theorem tellClosure_raisesWithin (c : Call) (f : Form) (kind : ClosureKind) (name : String)
    (params body : Node) : (c.tellClosure f kind name params body).RaisesWithin n :=
  (RaisesWithin.ofExcept _ _).bind fun _ => RaisesWithin.number.bind fun _ => .pure _

theorem tellPairs_raisesWithin (h : t.RaisesWithin (c.depth + 1) n) (frame : FrameId)
    (index : Nat) (pairs : List Node) : (c.tellPairs t frame index pairs).RaisesWithin n := by
  fun_induction c.tellPairs t frame index pairs with
  | case1 => exact .pure _
  | case2 index p q name value pairs ih =>
    exact (h value frame).bind fun _ => (RaisesWithin.note _).bind fun _ => ih
  | case3 => exact .fail _ _
  | case4 => exact .fail _ _

theorem tellUnwrap_raisesWithin (h : t.RaisesWithin (c.depth + 1) n) (fuel : Nat) (node : Node) :
    (c.tellUnwrap t fuel node).RaisesWithin n := by
  induction fuel generalizing node with
  | zero => exact .outOfFuel
  | succ fuel ih =>
    cases node with
    | quoted p inner =>
      apply (tell_raisesWithin h inner).bind
      intro next
      split
      · exact .pure next
      · exact ih next
    | _ => exact .pure _

theorem tellIterate_raisesWithin (h : t.RaisesWithin (c.depth + 1) n) (body : List Node)
    (fuel : Nat) : (c.tellIterate t body fuel).RaisesWithin n := by
  induction fuel with
  | zero => exact .outOfFuel
  | succ fuel ih =>
    apply (RaisesWithin.tick _ _).bind
    intro _
    apply (tellAll_raisesWithin h body).loop.bind
    intro left
    cases left with
    | inl payload => exact .pure payload
    | inr _ => exact ih

theorem tellLast_raisesWithin (h : t.RaisesWithin (c.depth + 1) n) (last : Node)
    (nodes : List Node) : (c.tellLast t last nodes).RaisesWithin n := by
  induction nodes generalizing last with
  | nil => exact .pure last
  | cons node nodes ih => exact (tell_raisesWithin h node).bind ih

/-- A condition, and what is done if it is true or false. -/
theorem branch_raisesWithin (h : t.RaisesWithin (c.depth + 1) n) (condition : Node)
    {yes no : Account Node} (hyes : yes.RaisesWithin n) (hno : no.RaisesWithin n) :
    RaisesWithin n (do if (← c.tell t condition).isTruthy then yes else no) := by
  apply (tell_raisesWithin h condition).bind
  intro value
  split
  · exact hyes
  · exact hno

theorem tellCases_raisesWithin (h : t.RaisesWithin (c.depth + 1) n) (clauses : List Node) :
    (c.tellCases t clauses).RaisesWithin n := by
  fun_induction c.tellCases t clauses with
  | case1 => exact .pure _
  | case2 p predicate expression clauses ih =>
    exact branch_raisesWithin h predicate (tell_raisesWithin h expression) ih
  | case3 => exact .fail _ _

theorem tellUntil_raisesWithin (h : t.RaisesWithin (c.depth + 1) n) (wanted : Bool)
    (nodes : List Node) : (c.tellUntil t wanted nodes).RaisesWithin n := by
  induction nodes with
  | nil => exact .pure _
  | cons node nodes ih =>
    apply (tell_raisesWithin h node).bind
    intro value
    split
    · exact .pure _
    · exact ih

theorem form_raisesWithin (h : t.RaisesWithin (c.depth + 1) n) (f : Form)
    (operands : List Node) : (f.tell c t operands).RaisesWithin n := by
  unfold Form.tell
  -- the cases are the equations of `Form.tell`, in their order there
  split
  case h_1 => exact .pure _
  case h_2 =>
    exact (tellName_raisesWithin c _ _).bind fun _ =>
      (tell_raisesWithin h _).bind fun _ => tellDefine_raisesWithin c _ _
  case h_3 =>
    apply (tell_raisesWithin h _).bind
    intro target
    split
    · exact (tell_raisesWithin h _).bind fun _ => tellDefine_raisesWithin c _ _
    · exact (tell_raisesWithin h _).bind fun _ => tellDefine_raisesWithin c _ _
    · exact .fail _ _
  case h_4 =>
    apply (tell_raisesWithin h _).bind
    intro value
    split
    · exact tell_raisesWithin h _
    · exact .fail _ _
  case h_5 =>
    exact (tell_raisesWithin h _).bind fun value => tellUnwrap_raisesWithin h c.fuel value
  case h_6 => exact tellClosure_raisesWithin c _ _ _ _ _
  case h_7 =>
    exact (tellName_raisesWithin c _ _).bind fun _ =>
      (tellClosure_raisesWithin c _ _ _ _ _).bind fun _ => tellDefine_raisesWithin c _ _
  case h_8 =>
    exact (tellName_raisesWithin c _ _).bind fun _ =>
      (tellClosure_raisesWithin c _ _ _ _ _).bind fun _ => tellDefine_raisesWithin c _ _
  case h_9 =>
    exact (RaisesWithin.openFrame c.frame "let" []).bind fun inner =>
      (tellPairs_raisesWithin h inner 0 _).bind fun _ => h _ inner
  case h_10 => exact .fail _ _
  case h_11 => exact tellLast_raisesWithin h _ _
  case h_12 => exact tellIterate_raisesWithin h _ c.fuel
  case h_13 => exact .raise rfl
  case h_14 => exact (tell_raisesWithin h _).bind fun _ => .raise rfl
  case h_15 => exact .raise rfl
  case h_16 => exact (tell_raisesWithin h _).bind fun _ => .raise rfl
  case h_17 => exact branch_raisesWithin h _ (tell_raisesWithin h _) (.pure _)
  case h_18 => exact branch_raisesWithin h _ (tell_raisesWithin h _) (tell_raisesWithin h _)
  case h_19 => exact branch_raisesWithin h _ (tell_raisesWithin h _) (.pure _)
  case h_20 => exact tellCases_raisesWithin h _
  case h_21 => exact tellUntil_raisesWithin h false _
  case h_22 => exact tellUntil_raisesWithin h true _
  case h_23 => exact .fail _ _

end Call

namespace Interpreter

open Account (RaisesWithin)

variable {t : Teller} {depth n : Nat}

theorem tellPerform_raisesWithin (i : Interpreter) (p : Primitive) (args : List Node)
    (place : Place) : (i.tellPerform p args place).RaisesWithin n := by
  unfold tellPerform
  split
  · exact (RaisesWithin.ofExcept _ _).bind fun node =>
      (RaisesWithin.note _).bind fun _ => .pure node
  · split
    · exact .fail _ _
    · split
      · exact .pure _
      · exact .fail _ _
      · exact .exit _

theorem tellArguments_raisesWithin (h : t.RaisesWithin depth n) (frame : FrameId)
    (nodes : List Node) : (tellArguments t frame depth nodes).RaisesWithin n := by
  induction nodes with
  | nil => exact .pure []
  | cons node nodes ih => exact (h node frame).bind fun _ => ih.bind fun _ => .pure _

theorem tellEnter_raisesWithin (h : t.RaisesWithin (depth + 1) n) (l : Lambda) (body : Node)
    (args : List Node) (place : Place) :
    (tellEnter t l body args place depth).RaisesWithin n := by
  apply (RaisesWithin.ofExcept _ _).bind
  intro _
  apply (RaisesWithin.openFrame _ _ _).bind
  intro frame
  exact (h body frame).body.bind .either

theorem tellApply_raisesWithin (i : Interpreter) (fuel : Nat)
    (h : t.RaisesWithin (depth + 1) n) (place : Place) (frame : FrameId) (head callee : Node)
    (args : List Node) :
    (i.tellApply fuel t place frame depth head callee args).RaisesWithin n := by
  unfold tellApply
  split
  · apply (RaisesWithin.ofExcept _ _).bind
    intro _
    let call : Call := ⟨place, frame, depth, i.limits, fuel, i.evalAt fuel⟩
    exact call.form_raisesWithin h _ args
  · split
    · exact (tellArguments_raisesWithin h frame args).bind fun values =>
        tellEnter_raisesWithin h _ _ values place
    · exact (tellEnter_raisesWithin h _ _ _ place).bind fun expansion => h expansion frame
  · apply (tellArguments_raisesWithin h frame args).bind
    intro values
    apply (RaisesWithin.ofExcept _ _).bind
    intro _
    exact (i.tellPerform_raisesWithin _ values place).bind fun _ => .pure _
  · exact .fail _ _

/-- One level further down there is one expression less to pass. -/
theorem tellStep_raisesWithin (i : Interpreter) (fuel : Nat)
    (h : depth < i.limits.depth → t.RaisesWithin (depth + 1) (i.limits.depth - (depth + 1))) :
    (i.tellStep fuel t).RaisesWithin depth (i.limits.depth - depth) := by
  intro node frame
  unfold tellStep
  split
  case isTrue => exact .fail _ _
  case isFalse room =>
    have below := h (Nat.lt_of_not_le room)
    have deeper : i.limits.depth - (depth + 1) + 1 = i.limits.depth - depth := by omega
    apply (RaisesWithin.tick _ _).bind
    intro _
    split
    · exact RaisesWithin.look.bind fun _ => .ofExcept _ _
    · apply ((tellArguments_raisesWithin below frame _).mono (by omega)).bind
      exact fun _ => .pure _
    · exact .fail _ _
    · refine RaisesWithin.bind (deeper ▸ RaisesWithin.expression _ ?_) .either
      exact (below _ frame).bind fun callee =>
        i.tellApply_raisesWithin fuel below _ frame _ callee _
    · exact .pure _

/-- A signal passes no more expressions than there are levels left. -/
theorem tell_raisesWithin (i : Interpreter) (fuel depth : Nat) :
    (i.tell fuel).RaisesWithin depth (i.limits.depth - depth) := by
  induction fuel generalizing depth with
  | zero => exact fun _ _ => .outOfFuel
  | succ fuel ih => exact i.tellStep_raisesWithin fuel fun _ => ih (depth + 1)

/-- What a run ends with was made without a trace and has recorded the expressions that were
being evaluated then, from the inside out. There are no more of them than levels left at the
start. Every entry of the trace has a span and is not the origin, and no two entries in a row
are equal. -/
theorem evalAt_trace (i : Interpreter) (fuel : Nat) (node : Node) (frame : FrameId) (depth : Nat)
    (w : World) {s : Signal} {w' : World}
    (ends : i.evalAt fuel node frame depth w = .error (.raised s) w') :
    let account := i.tell fuel node frame depth w
    account.2 = .error (.raised s) w' ∧
    ∃ earlier made,
      let around := Event.marksAfter [] earlier
      account.1 = earlier ++ .raised made :: around.map .passed ∧
      made.trace = [] ∧ s = made.along (Mark.places around) ∧
      (Mark.places around).length ≤ i.limits.depth - depth ∧
      s.Clean ∧ s.trace.length ≤ i.limits.depth - depth := by
  intro account
  obtain ⟨same, leads⟩ := i.tell_tells fuel node frame depth w
  rw [ends] at same leads
  obtain ⟨earlier, made, passed, journal, fresh, few⟩ :=
    i.tell_raisesWithin fuel depth node frame w s w' same
  rw [journal] at leads
  obtain ⟨inside, recorded⟩ := leads.passed_of_ends
  rw [Mark.passAll_eq_along] at recorded
  subst recorded
  refine ⟨same, earlier, made, ?_⟩
  rw [inside]
  refine ⟨journal, fresh, rfl, few, (Signal.clean_of_trace_eq_nil fresh).along _, ?_⟩
  calc (made.along (Mark.places passed)).trace.length
    _ ≤ made.trace.length + (Mark.places passed).length := made.length_trace_along_le _
    _ = (Mark.places passed).length := by rw [fresh, List.length_nil, Nat.zero_add]
    _ ≤ i.limits.depth - depth := few

/-- `(do (do ()))` with three levels: an empty call cannot be evaluated, and the signal passes
the inner sequence and then the whole text. -/
theorem evalAt_trace_nested :
    let i : Interpreter := { limits := ⟨3, none⟩ }
    let w : World := ⟨.empty 0, 0, ""⟩
    let sequence : Node := .form .computed .sequence
    let node : Node := .call (.within "text" 0 12) [sequence,
      .call (.within "text" 4 11) [sequence, .call (.within "text" 8 10) []]]
    let s : Signal := ⟨.fail (.mismatch .emptyCall), .within "text" 8 10,
      [.within "text" 4 11, .within "text" 0 12]⟩
    i.evalAt 4 node Store.root 0 w = .error (.raised s) { w with steps := 5 } ∧
    ∃ earlier made,
      let around := Event.marksAfter [] earlier
      (i.tell 4 node Store.root 0 w).1 = earlier ++ .raised made :: around.map .passed ∧
      made.trace = [] ∧ s = made.along (Mark.places around) ∧ s.Clean ∧ s.trace.length ≤ 3 := by
  intro i w sequence node s
  have ends : i.evalAt 4 node Store.root 0 w = .error (.raised s) { w with steps := 5 } :=
    rfl
  obtain ⟨_, earlier, made, journal, fresh, recorded, _, clean, short⟩ :=
    i.evalAt_trace 4 node Store.root 0 w ends
  exact ⟨ends, earlier, made, journal, fresh, recorded, clean, short⟩

end Interpreter

end Sexpr
