/-
The limit on nesting.

The limit of the reader is a bound and nothing else. Where it is not reached, a larger one
changes nothing (`Reading.readTokens_deeper`). Where it is reached, as many brackets and quote
marks are open as it allows (`Reading.begun_of_tooDeep`). Main statement: `read_nesting`.
-/

import Sexpr.Proofs.Reading.Beginning
import Sexpr.Proofs.Reading.Spans

namespace Sexpr

open Grammar
open Text (byteLength byteLength_append)

/-- The settings with another limit. -/
def ReadSettings.withDepth (settings : ReadSettings) (depth : Nat) : ReadSettings :=
  { settings with depth := depth }

namespace Reading

variable {settings : ReadSettings} {label : String} {stop depth : Nat} {stack left : List Pending}

/-! ### A larger limit -/

theorem step_deeper (larger : settings.depth ≤ depth) (token : Token) :
    step settings label stack token = .error (.tooDeep settings.depth, token.start) ∨
      step (settings.withDepth depth) label stack token = step settings label stack token := by
  unfold step enter
  by_cases full : settings.depth ≤ stack.length
  · split
    · exact .inr rfl
    · exact .inl (if_pos full)
  · have room : ¬ (settings.withDepth depth).depth ≤ stack.length :=
      fun deep => full (Nat.le_trans larger deep)
    rw [if_neg full, if_neg room]
    exact .inr rfl

theorem flawAtEnd_deeper (larger : settings.depth ≤ depth) (stop : Nat) (stack : List Pending) :
    flawAtEnd settings stop stack = (.tooDeep settings.depth, stop) ∨
      flawAtEnd (settings.withDepth depth) stop stack = flawAtEnd settings stop stack := by
  unfold flawAtEnd
  by_cases full : settings.depth ≤ stack.length
  · split
    · exact .inr rfl
    · exact .inl (if_pos full)
  · have room : ¬ (settings.withDepth depth).depth ≤ stack.length :=
      fun deep => full (Nat.le_trans larger deep)
    rw [if_neg full, if_neg room]
    exact .inr rfl

/-- With a larger limit the reader finds the same, or it had reached the smaller one. -/
theorem readTokens_deeper (larger : settings.depth ≤ depth) (tokens : List Token) :
    (∃ offset, (readTokens settings label stop stack tokens).2 =
        some (.tooDeep settings.depth, offset)) ∨
      readTokens (settings.withDepth depth) label stop stack tokens =
        readTokens settings label stop stack tokens := by
  induction tokens generalizing stack with
  | nil =>
    cases stack with
    | nil => exact .inr rfl
    | cons pending stack =>
      rcases flawAtEnd_deeper larger stop (pending :: stack) with full | same
      · exact .inl ⟨stop, congrArg some full⟩
      · exact .inr (Prod.ext rfl (congrArg some same))
  | cons token tokens ih =>
    rcases @step_deeper settings label depth stack larger token with full | same
    · exact .inl ⟨_, by rw [readTokens_of_error full]⟩
    · cases stepped : step settings label stack token with
      | error flaw =>
        rw [stepped] at same
        exact .inr (by rw [readTokens_of_error stepped, readTokens_of_error same])
      | ok progress =>
        rw [stepped] at same
        rw [readTokens_of_step stepped, readTokens_of_step same, resume_eq, resume_eq]
        rcases @ih progress.left with full | same
        · exact .inl full
        · exact .inr (by rw [same])

/-! ### As much as the limit allows -/

theorem length_deliver_le (node : Node) :
    (deliver label stop node stack).left.length ≤ stack.length := by
  induction stack generalizing node with
  | nil => exact Nat.le_refl _
  | cons pending stack ih =>
    cases pending with
    | quote start => exact Nat.le_succ_of_le (ih _)
    | bracket kind start items => exact Nat.le_refl _

/-- No token leaves more open than the limit allows. -/
theorem length_step_le {token : Token} {progress : Progress}
    (fits : stack.length ≤ settings.depth)
    (taken : step settings label stack token = .ok progress) :
    progress.left.length ≤ settings.depth := by
  obtain ⟨lexeme, start, stop⟩ := token
  cases lexeme with
  | opening bracket =>
    have room := room_of_step (by simp) taken
    rw [step_opening room] at taken
    cases taken
    exact room
  | closing bracket =>
    obtain ⟨begun, items, outer, rfl, rfl⟩ := step_closing_inv taken
    exact Nat.le_trans (length_deliver_le _) (Nat.le_of_succ_le fits)
  | quote =>
    have room := room_of_step (by simp) taken
    rw [step_quote room] at taken
    cases taken
    exact room
  | leaf leaf =>
    rw [step_leaf (room_of_step (by simp) taken)] at taken
    cases taken
    exact Nat.le_trans (length_deliver_le _) fits
  | broken flaw offset =>
    obtain ⟨refused, failed⟩ : ∃ refused, step settings label stack _ = .error refused :=
      step_broken (rfl : Token.isBroken ⟨.broken flaw offset, start, stop⟩ = true)
    rw [failed] at taken
    cases taken

theorem length_advance_le {tokens : List Token} (fits : stack.length ≤ settings.depth)
    (taken : (advance settings label stack tokens).2 = .ok left) :
    left.length ≤ settings.depth := by
  induction tokens generalizing stack with
  | nil =>
    cases taken
    exact fits
  | cons token tokens ih =>
    cases stepped : step settings label stack token with
    | error flaw =>
      rw [advance_of_error stepped] at taken
      cases taken
    | ok progress =>
      rw [advance_of_step stepped] at taken
      exact ih (length_step_le fits stepped) taken

/-- The reader reaches its limit behind a beginning with as much open as the limit allows. -/
theorem begun_of_tooDeep {comments : Bool} {cs : List Char} {nodes : List Node} {flaw : Flaw}
    {offset : Nat}
    (h : readTokens settings label (byteLength cs) [] (Token.scan comments 0 cs) =
      (nodes, some (flaw, offset)))
    (deep : flaw.kind = .tooDeeplyNested) :
    ∃ front rest opened, cs = front ++ rest ∧ offset = byteLength front ∧
      Begun comments label front rest nodes opened ∧ opened.length = settings.depth := by
  have reached {left : List Pending} {tokens : List Token}
      (taken : advance settings label [] tokens = (nodes, .ok left))
      (full : settings.depth ≤ left.length) : left.length = settings.depth :=
    Nat.le_antisymm (length_advance_le (Nat.zero_le _) (congrArg Prod.snd taken)) full
  rcases flaw_cases h with
    ⟨tokens, token, others, left, scanned, taken, why⟩ | ⟨left, taken, notEmpty, isFlaw⟩
  · obtain ⟨front, rest, rfl, behind, begun⟩ := begun_of_advance scanned taken
    obtain ⟨gap, c, rest, rfl, trivia, _, rfl⟩ := Token.head_scan behind
    cases why with
    | tooDeep full =>
      refine ⟨front ++ gap, c :: rest, left, by simp, ?_, begun.behind trivia, reached taken full⟩
      rw [Token.start_next, byteLength_append]
    | unopened _ _ => cases deep
    | mismatched _ _ _ => cases deep
    | broken broken _ =>
      rcases Token.kind_of_next broken with other | other
      · cases other.symm.trans deep
      · cases other.symm.trans deep
  · -- the text ends behind trivia
    obtain ⟨front, gap, rfl, behind, begun⟩ := begun_of_advance (List.append_nil _).symm taken
    rw [← List.append_nil gap] at begun
    have whole := begun.behind (Token.scan_eq_nil_iff.mp behind)
    match left with
    | [] => exact absurd rfl notEmpty
    | .bracket _ _ _ :: _ =>
      cases isFlaw
      cases deep
    | .quote opening :: outer =>
      rw [flawAtEnd_quote] at isFlaw
      split at isFlaw
      · rename_i full
        cases isFlaw
        exact ⟨front ++ gap, [], _, by simp, rfl, whole, reached taken full⟩
      · cases isFlaw
        cases deep

end Reading

/-- The limit on nesting is a bound and nothing else. If it is not exceeded, a larger one gives
the same forms at the same places and the same error. The forms nest less deep than it says. If
it is exceeded, the text before the error begins in exactly one way: it holds the forms that were
read, and behind them as many brackets and quote marks are open as the limit allows. -/
theorem read_nesting (settings : ReadSettings) (label text : String) :
    let reading := read settings label text
    (∀ depth, settings.depth ≤ depth →
      (∀ error, reading.error = some error → error.kind ≠ .tooDeeplyNested) →
      read (settings.withDepth depth) label text = reading) ∧
    (∀ n ∈ reading.forms, n.nesting < settings.depth) ∧
    ∀ error, reading.error = some error → error.kind = .tooDeeplyNested →
      ∃ front rest span opened, text.toList = front ++ rest ∧
        error.place.span = some span ∧ span.start = byteLength front ∧
        opened.length = settings.depth ∧
        ∀ nodes stack, Begun settings.comments label front rest nodes stack ↔
          nodes = reading.forms ∧ stack = opened := by
  intro reading
  refine ⟨fun depth larger shallow => ?_, ?_, fun error failed deep => ?_⟩
  · rcases @Reading.readTokens_deeper settings label text.utf8ByteSize depth [] larger
      (Token.scan settings.comments 0 text.toList) with ⟨offset, full⟩ | same
    · have failed : reading.error =
          some (.ofFlaw label text (.tooDeep settings.depth) offset) := by
        simp only [reading, read, full]
        rfl
      exact absurd rfl (shallow _ failed)
    · simp only [reading, read, ReadSettings.withDepth] at same ⊢
      rw [same]
  · obtain ⟨_, _, _, _, room⟩ := Reading.program_of_forms settings label text
    exact room
  · simp only [reading, read] at failed ⊢
    generalize found : Reading.readTokens settings label text.utf8ByteSize []
      (Token.scan settings.comments 0 text.toList) = r at failed ⊢
    obtain ⟨nodes, _ | ⟨flaw, offset⟩⟩ := r
    · cases failed
    cases failed
    rw [← Text.byteLength_toList] at found
    obtain ⟨front, rest, opened, cut, start, begun, full⟩ := Reading.begun_of_tooDeep found deep
    refine ⟨front, rest, _, opened, cut, rfl, start, full, fun nodes stack => ?_⟩
    constructor
    · exact fun other => other.unique begun
    · rintro ⟨rfl, rfl⟩
      exact begun

/-- `('x y)` exceeds a limit of two in front of `x`, with a bracket and a quote mark open; any
limit beyond two will do. -/
theorem read_nesting_quoted :
    let text := "('x y)"
    let error := ReadError.ofFlaw "in" text (.tooDeep 2) 2
    ((read ⟨true, 2⟩ "in" text).error = some error ∧
      ∃ front rest span opened, text.toList = front ++ rest ∧
        error.place.span = some span ∧ span.start = byteLength front ∧ opened.length = 2 ∧
        ∀ nodes stack, Begun true "in" front rest nodes stack ↔
          nodes = (read ⟨true, 2⟩ "in" text).forms ∧ stack = opened) ∧
      read ⟨true, 7⟩ "in" text = read ⟨true, 3⟩ "in" text := by
  intro text error
  have failed : (read ⟨true, 2⟩ "in" text).error = some error := by decide +kernel
  have none : (read ⟨true, 3⟩ "in" text).error = none := by decide +kernel
  refine ⟨⟨failed, (read_nesting ⟨true, 2⟩ "in" text).2.2 error failed rfl⟩, ?_⟩
  refine (read_nesting ⟨true, 3⟩ "in" text).1 7 (by decide) fun error failed => ?_
  rw [none] at failed
  cases failed

end Sexpr
