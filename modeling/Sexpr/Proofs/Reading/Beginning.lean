/-
How a text begins.

In front of the rest of a text some forms are finished, and behind them brackets and quote marks
are open, each inside the one before. `Grammar.Begun` says so in terms of the grammar alone. What
the reader has taken of a text is such a beginning, with the same forms finished and the same
stack open (`Grammar.Begun.advance`), and a text begins in one way only
(`Grammar.Begun.unique`).
-/

import Sexpr.Proofs.Reading.Acceptance
import Sexpr.Proofs.Reading.Extension

namespace Sexpr

open Grammar
open Text (byteLength byteLength_cons byteLength_append)
open Reading (Takes room_of_step step_leaf step_opening step_quote step_closing_inv)

namespace Grammar

/-- In front of `rest` there are some forms and then brackets and quote marks that are open, the
innermost first; a bracket is open with the items behind it, the latest first. -/
inductive Begun (comments : Bool) (label : String) :
    (front rest : List Char) → List Node → List Pending → Prop where
  | top {front rest : List Char} {nodes : List Node} : Forms comments label 0 front rest nodes →
      Begun comments label front rest nodes []
  | bracket {bracket : Bracket} {front body rest : List Char} {nodes items : List Node}
      {stack : List Pending} :
      Begun comments label front (bracket.opening :: (body ++ rest)) nodes stack →
      Forms comments label (byteLength front + 1) body rest items →
      Begun comments label (front ++ bracket.opening :: body) rest nodes
        (.bracket bracket (byteLength front) items.reverse :: stack)
  | quote {front gap rest : List Char} {nodes : List Node} {stack : List Pending} :
      Begun comments label front ('\'' :: (gap ++ rest)) nodes stack →
      Trivia comments gap rest →
      Begun comments label (front ++ '\'' :: gap) rest nodes (.quote (byteLength front) :: stack)

variable {comments : Bool} {label : String} {front rest : List Char} {nodes : List Node}
  {stack : List Pending}

/-! ### What is behind a beginning -/

theorem byteLength_opened (bracket : Bracket) (front body : List Char) :
    byteLength (front ++ bracket.opening :: body) = byteLength front + 1 + byteLength body := by
  have size : bracket.opening.utf8Size = 1 := by cases bracket <;> decide
  rw [byteLength_append, byteLength_cons, size, Nat.add_assoc]

theorem byteLength_marked (front gap : List Char) :
    byteLength (front ++ '\'' :: gap) = byteLength front + 1 + byteLength gap := by
  have size : Char.utf8Size '\'' = 1 := by decide
  rw [byteLength_append, byteLength_cons, size, Nat.add_assoc]

theorem Form.forms {offset : Nat} {text : List Char} {node : Node}
    (h : Form comments label offset text rest node) :
    Forms comments label offset text rest [node] := by
  have row : Forms comments label offset ([] ++ (text ++ [])) rest [node] :=
    .cons .nil h (.nil .nil)
  rwa [List.nil_append, List.append_nil] at row

theorem Begun.behind {gap : List Char} (h : Begun comments label front (gap ++ rest) nodes stack)
    (trivia : Trivia comments gap rest) : Begun comments label (front ++ gap) rest nodes stack := by
  cases h with
  | top forms =>
    have further := forms.append (.nil trivia)
    rw [List.append_nil] at further
    exact .top further
  | @bracket bracket front body _ _ items stack begun forms =>
    have further := forms.append (.nil trivia)
    rw [List.append_nil] at further
    rw [← List.append_assoc] at begun
    rw [List.append_assoc, List.cons_append]
    exact .bracket begun further
  | @quote front gap' _ _ stack begun trivia' =>
    rw [← List.append_assoc] at begun
    rw [List.append_assoc, List.cons_append]
    exact .quote begun (trivia'.append trivia)

/-- A form behind a beginning goes to what is open there. -/
theorem Begun.deliver {text : List Char} {node : Node} {stop : Nat}
    (h : Begun comments label front (text ++ rest) nodes stack)
    (form : Form comments label (byteLength front) text rest node)
    (reached : stop = byteLength front + byteLength text) :
    let progress := Reading.deliver label stop node stack
    Begun comments label (front ++ text) rest (nodes ++ progress.finished) progress.left := by
  induction stack generalizing front text node with
  | nil =>
    obtain ⟨forms⟩ := h
    rw [← Nat.zero_add (byteLength front)] at form
    exact .top (forms.append form.forms)
  | cons pending stack ih =>
    cases h with
    | @bracket bracket front body _ _ items _ begun forms =>
      rw [byteLength_opened] at form
      have further := forms.append form.forms
      rw [← List.append_assoc] at begun
      rw [List.append_assoc, List.cons_append]
      have opened := Begun.bracket begun further
      rw [List.reverse_append, List.reverse_singleton] at opened
      rw [← List.append_nil nodes] at opened
      exact opened
    | @quote front gap _ _ _ begun trivia =>
      rw [byteLength_marked] at form reached
      have quoted := Form.quoted trivia form
      rw [← List.append_assoc] at begun
      have further := ih begun quoted (by rw [reached, Reading.stop_quoted])
      rw [List.append_assoc, List.cons_append]
      rw [placeOf, Reading.stop_quoted, ← reached] at further
      exact further

/-! ### What the reader has taken -/

variable {settings : ReadSettings}

/-- A token that the reader takes behind a beginning makes another one. -/
theorem Begun.step {text : List Char} {token : Token} {progress : Progress}
    (h : Begun comments label front (text ++ rest) nodes stack)
    (lexed : Lexed (byteLength front) (text ++ rest) token rest)
    (taken : Reading.step settings label stack token = .ok progress) :
    Begun comments label (front ++ text) rest (nodes ++ progress.finished) progress.left := by
  generalize cut : text ++ rest = cs at lexed
  cases lexed with
  | opening bracket =>
    obtain rfl : text = [bracket.opening] := List.append_cancel_right cut
    rw [step_opening (room_of_step (by simp) taken)] at taken
    cases taken
    have opened : Begun comments label (front ++ [bracket.opening]) rest nodes _ :=
      .bracket h (.nil .nil)
    rw [← List.append_nil nodes] at opened
    exact opened
  | closing bracket =>
    obtain rfl : text = [bracket.closing] := List.append_cancel_right cut
    obtain ⟨start, items, outer, rfl, rfl⟩ := step_closing_inv taken
    cases h with
    | @bracket _ front body _ _ items _ begun forms =>
      have inner : bracket.opening :: (body ++ ([bracket.closing] ++ rest)) =
          (bracket.opening :: (body ++ [bracket.closing])) ++ rest := by simp
      rw [inner] at begun
      rw [List.reverse_reverse, List.append_assoc, List.cons_append]
      have reached : byteLength (front ++ bracket.opening :: body) + 1 =
          byteLength front + byteLength (bracket.opening :: (body ++ [bracket.closing])) := by
        rw [byteLength_opened, Reading.stop_sequence]
      have further := begun.deliver (.sequence forms) reached
      rw [placeOf, ← reached] at further
      exact further
  | quote =>
    obtain rfl : text = ['\''] := List.append_cancel_right cut
    rw [step_quote (room_of_step (by simp) taken)] at taken
    cases taken
    have opened : Begun comments label (front ++ ['\'']) rest nodes _ := .quote h .nil
    rw [← List.append_nil nodes] at opened
    exact opened
  | word isWord boundary =>
    obtain rfl := List.append_cancel_right cut
    rw [step_leaf (room_of_step (by simp) taken)] at taken
    cases taken
    exact h.deliver (.word isWord boundary) rfl
  | @text body value _ quotes =>
    obtain rfl : text = '"' :: (body ++ ['"']) := List.append_cancel_right (cut.trans (by simp))
    rw [step_leaf (room_of_step (by simp) taken)] at taken
    cases taken
    exact h.deliver (.text quotes) rfl

/-- Tokens that the reader takes behind a beginning make another one. -/
theorem Begun.advance {cs : List Char} {tokens others : List Token} {more : List Node}
    {left : List Pending} (h : Begun comments label front cs nodes stack)
    (scanned : Token.scan comments (byteLength front) cs = tokens ++ others)
    (taken : Reading.advance settings label stack tokens = (more, .ok left)) :
    ∃ text rest, cs = text ++ rest ∧
      Token.scan comments (byteLength (front ++ text)) rest = others ∧
      Begun comments label (front ++ text) rest (nodes ++ more) left := by
  induction tokens generalizing front cs nodes stack more with
  | nil =>
    cases taken
    refine ⟨[], cs, rfl, ?_, ?_⟩
    · rwa [List.append_nil]
    · rwa [List.append_nil, List.append_nil]
  | cons token tokens ih =>
    rcases Token.scan_cases comments (byteLength front) cs with
      ⟨_, empty⟩ | ⟨broken, isBroken, single⟩ |
        ⟨gap, text, first, rest, rfl, trivia, lexed, _, next⟩
    · rw [empty] at scanned
      cases scanned
    · rw [single] at scanned
      obtain ⟨rfl, _⟩ := List.cons.inj scanned
      obtain ⟨flaw, failed⟩ : ∃ flaw, Reading.step settings label stack broken = .error flaw :=
        Reading.step_broken isBroken
      rw [Reading.advance_of_error failed] at taken
      cases taken
    · rw [next, List.cons_append] at scanned
      obtain ⟨rfl, behind⟩ := List.cons.inj scanned
      cases stepped : Reading.step settings label stack first with
      | error flaw =>
        rw [Reading.advance_of_error stepped] at taken
        cases taken
      | ok progress =>
        rw [Reading.advance_of_step stepped] at taken
        obtain ⟨rfl, left⟩ := Prod.mk.inj taken
        obtain ⟨c, piece, rfl, stop, _⟩ := lexed.before
        rw [← byteLength_append] at lexed
        rw [← byteLength_append, ← byteLength_append] at stop
        rw [stop] at behind
        have further : Begun comments label (front ++ gap ++ c :: piece) rest _ _ :=
          (h.behind trivia).step lexed stepped
        obtain ⟨text, rest, rfl, scanned, begun⟩ := ih further behind (Prod.ext rfl left)
        refine ⟨gap ++ c :: piece ++ text, rest, by simp, ?_, ?_⟩
        · simpa only [List.append_assoc] using scanned
        · simpa only [List.append_assoc] using begun

/-- What the reader has taken of a text is its beginning. -/
theorem begun_of_advance {cs : List Char} {tokens others : List Token} {left : List Pending}
    (scanned : Token.scan comments 0 cs = tokens ++ others)
    (taken : Reading.advance settings label [] tokens = (nodes, .ok left)) :
    ∃ front rest, cs = front ++ rest ∧ Token.scan comments (byteLength front) rest = others ∧
      Begun comments label front rest nodes left := by
  have start : Begun comments label [] cs [] [] := .top (.nil .nil)
  exact start.advance scanned taken

/-- The reader takes every beginning, if it has room for it. -/
theorem Begun.takes (h : Begun comments label front rest nodes stack) :
    ∃ depth, ∀ settings : ReadSettings, depth ≤ settings.depth →
      Takes settings label comments [] 0 front rest nodes stack := by
  induction h with
  | @top front rest nodes forms =>
    refine ⟨Node.nestingAll nodes, fun settings room => ?_⟩
    exact Reading.takes_top forms (Node.nestingAll_le_iff.mp room)
  | @bracket bracket front body rest nodes items stack begun forms ih =>
    obtain ⟨depth, ih⟩ := ih
    refine ⟨max depth (stack.length + 1 + Node.nestingAll items), fun settings room => ?_⟩
    have below : ∀ n ∈ items, stack.length + 1 + n.nesting < settings.depth := by
      intro n mem
      have := Node.nestingAll_le_iff.mp (Nat.le_refl _) n mem
      omega
    have opened : Takes settings label comments stack (byteLength front) [bracket.opening]
        (body ++ rest) [] (.bracket bracket (byteLength front) [] :: stack) :=
      .token (.opening bracket _) (step_opening (by omega))
    have inside := Reading.takes_forms forms bracket (byteLength front) [] stack below
    rw [List.append_nil] at inside
    have start : byteLength front + 1 = byteLength front + byteLength [bracket.opening] := by
      cases bracket <;> rfl
    have behind : Takes settings label comments stack (0 + byteLength front)
        (bracket.opening :: body) rest []
        (.bracket bracket (byteLength front) items.reverse :: stack) := by
      rw [Nat.zero_add]
      exact opened.append (start ▸ inside)
    exact List.append_nil nodes ▸ (ih settings (by omega)).append behind
  | @quote front gap rest nodes stack begun trivia ih =>
    obtain ⟨depth, ih⟩ := ih
    refine ⟨max depth (stack.length + 1), fun settings room => ?_⟩
    have opened : Takes settings label comments stack (byteLength front) ['\'']
        (gap ++ rest) [] (.quote (byteLength front) :: stack) :=
      .token (.quote _) (step_quote (by omega))
    have behind : Takes settings label comments stack (0 + byteLength front) ('\'' :: gap) rest []
        (.quote (byteLength front) :: stack) := by
      rw [Nat.zero_add]
      exact opened.append (.trivia trivia)
    exact List.append_nil nodes ▸ (ih settings (by omega)).append behind

/-- A text begins in one way only. -/
theorem Begun.unique {others : List Node} {stack' : List Pending}
    (h : Begun comments label front rest nodes stack)
    (k : Begun comments label front rest others stack') : nodes = others ∧ stack = stack' := by
  obtain ⟨depth, takes⟩ := h.takes
  obtain ⟨depth', takes'⟩ := k.takes
  -- a reader with room for both takes the same tokens in both ways
  let roomy : ReadSettings := ⟨comments, max depth depth'⟩
  obtain ⟨tokens, scanned, taken⟩ := takes roomy (Nat.le_max_left _ _)
  obtain ⟨tokens', scanned', taken'⟩ := takes' roomy (Nat.le_max_right _ _)
  obtain rfl := List.append_cancel_right (scanned.symm.trans scanned')
  obtain ⟨rfl, left⟩ := Prod.mk.inj (taken.symm.trans taken')
  exact ⟨rfl, Except.ok.inj left⟩

end Grammar

end Sexpr
