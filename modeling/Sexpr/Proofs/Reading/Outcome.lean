/-
What the reader comes to.

A form takes some of the text, if it can be read, and a flaw needs none (`Progresses`). So fuel
for twice the length of the text is enough for any form, and what it comes to is what the reader
of tokens comes to. `Ends` says so of a run, with one rule for each way in which a run goes on.
Main statements: `form_ends` and `sequence_ends`, from the rules, and `exists_outcome_form` and
`exists_outcome_sequence`, there is one outcome for any fuel that is enough.
-/

import Sexpr.Proofs.Reading.Descent
import Sexpr.Proofs.Reading.Ending

namespace Sexpr.Descent

open Grammar Reading
open Text (byteLength byteLength_append)

/-! ### What is taken of a text -/

/-- A piece of the text at `offset` has been taken; the rest of the text begins at `stop`. -/
def Consumes (offset : Nat) (cs : List Char) (stop : Nat) (rest : List Char) : Prop :=
  ∃ piece, piece ≠ [] ∧ cs = piece ++ rest ∧ stop = offset + byteLength piece

section

variable {settings : ReadSettings} {label : String} {fuel depth offset stop : Nat}
  {cs rest : List Char}

theorem Consumes.shorter (h : Consumes offset cs stop rest) : rest.length < cs.length := by
  obtain ⟨piece, notEmpty, rfl, _⟩ := h
  simpa [List.length_pos_iff] using notEmpty

theorem Consumes.behind {gap : List Char}
    (h : Consumes (offset + byteLength gap) cs stop rest) :
    Consumes offset (gap ++ cs) stop rest := by
  obtain ⟨piece, notEmpty, rfl, rfl⟩ := h
  exact ⟨gap ++ piece, by simp [notEmpty], by simp, by rw [byteLength_append, Nat.add_assoc]⟩

theorem Consumes.trans {middle : Nat} {between : List Char}
    (h : Consumes offset cs middle between) (h' : Consumes middle between stop rest) :
    Consumes offset cs stop rest := by
  obtain ⟨piece, _, rfl, rfl⟩ := h
  exact h'.behind

/-- Where the text ends. -/
theorem Consumes.atEnd (h : Consumes offset cs stop rest) :
    stop + byteLength rest = offset + byteLength cs := by
  obtain ⟨piece, _, rfl, rfl⟩ := h
  rw [byteLength_append, Nat.add_assoc]

theorem consumes_of_next {c : Char} {token : Token}
    (next : Token.next offset c cs = (token, rest)) (whole : token.isBroken = false) :
    Consumes offset (c :: cs) token.stop rest := by
  have lexed := @lexed_next offset c cs (by rw [next]; exact whole)
  rw [next] at lexed
  obtain ⟨d, piece, cut, ends, _⟩ := lexed.before
  exact ⟨d :: piece, by simp, by rw [cut, List.cons_append], ends⟩

theorem consumes_of_unquote {body : List Char}
    (h : Text.unquote offset cs = .closed body stop rest) : Consumes offset cs stop rest := by
  obtain ⟨quoted, rfl, _, rfl⟩ := Text.quotes_of_unquote h
  refine ⟨quoted ++ ['"'], by simp, by simp, ?_⟩
  rw [byteLength_append, Nat.add_assoc]
  rfl

/-! ### The front of a text -/

/-- No trivia stands where text begins or ends. -/
theorem trivia_of_begins {comments : Bool} (begins : ∀ c ∈ cs.head?, Begins comments c)
    (enough : cs.length < fuel) (offset : Nat) :
    trivia comments fuel offset cs = some (offset, cs) := by
  rw [trivia_eq enough]
  cases cs with
  | nil => rfl
  | cons c rest => rw [Token.skipTrivia_of_begins (begins c rfl)]

/-- Trivia is skipped up to where text begins or ends. -/
theorem exists_front (comments : Bool) (offset : Nat) (cs : List Char) :
    ∃ gap front, cs = gap ++ front ∧
      (∀ fuel, cs.length < fuel →
        trivia comments fuel offset cs = some (offset + byteLength gap, front)) ∧
      (∀ c ∈ front.head?, Begins comments c) ∧
      Token.scan comments offset cs = Token.scan comments (offset + byteLength gap) front := by
  obtain ⟨gap, cut, shifted, skipped⟩ := skipped_skipTrivia comments false offset cs
  cases skip : Token.skipTrivia comments false offset cs with
  | mk start front =>
    simp only [skip] at cut shifted skipped
    subst cut shifted
    refine ⟨gap, front, rfl, fun fuel enough => ?_, ?_, Token.scan_trivia skipped offset⟩
    · rw [trivia_eq enough, skip]
    · cases front with
      | nil => simp
      | cons c rest =>
        rintro d ⟨⟩
        exact Token.begins_of_skipTrivia skip

/-- A token starts where it is looked for. -/
theorem next_cases (offset : Nat) (c : Char) (cs : List Char) :
    ∃ lexeme stop rest, Token.next offset c cs = (⟨lexeme, offset, stop⟩, rest) := by
  have start := Token.start_next offset c cs
  cases next : Token.next offset c cs with
  | mk token rest =>
    obtain ⟨lexeme, _, stop⟩ := token
    rw [next] at start
    cases start
    exact ⟨lexeme, stop, rest, rfl⟩

theorem scan_of_next {comments : Bool} {c : Char} {token : Token} (begins : Begins comments c)
    (next : Token.next offset c cs = (token, rest)) :
    Token.scan comments offset (c :: cs) =
      token :: if token.isBroken then [] else Token.scan comments token.stop rest := by
  rw [Token.scan_eq, Token.skipTrivia_of_begins begins]
  simp only [next]
  split
  · rfl
  · rfl

/-! ### The reader of tokens -/

/-- A form is to come: the text may not end, and the next token is taken as the first of one. -/
def Expects (settings : ReadSettings) (label : String) (stack : List Pending) :
    List Token → Prop
  | [] => ∃ start outer, stack = .quote start :: outer
  | token :: _ => step settings label stack token = enter settings label stack token

/-- What the reader of tokens finds, with `stack` open, behind a form that turns out so. -/
def proceed (settings : ReadSettings) (label : String) (stop : Nat) (stack : List Pending) :
    Except FlawAt Taken → List Node × Option FlawAt
  | .error flaw => ([], some flaw)
  | .ok taken => resume settings label stop (deliver label taken.stop taken.node stack)
      (Token.scan settings.comments taken.stop taken.rest)

theorem expects_quote (start : Nat) (stack : List Pending) (tokens : List Token) :
    Expects settings label (.quote start :: stack) tokens := by
  cases tokens with
  | nil => exact ⟨start, stack, rfl⟩
  | cons token tokens => rfl

/-- Some of the text has been taken if a form was read. -/
def Progresses (offset : Nat) (cs : List Char) : Except FlawAt Taken → Prop
  | .error _ => True
  | .ok taken => Consumes offset cs taken.stop taken.rest

theorem Progresses.behind {middle : Nat} {between : List Char} {outcome : Except FlawAt Taken}
    (taken : Consumes offset cs middle between) (h : Progresses middle between outcome) :
    Progresses offset cs outcome := by
  cases outcome with
  | error flaw => trivial
  | ok more => exact taken.trans h

/-- A run comes to an end, at a flaw or behind some of the text. The reader of tokens comes to the
same: with nothing `opened` it is to expect a form, otherwise it is to go on with what is. -/
def Ends (settings : ReadSettings) (label : String) (depth : Nat) (opened : List Pending)
    (offset : Nat) (cs : List Char) (run : ExceptT FlawAt Option Taken) : Prop :=
  ∃ outcome, run.run = some outcome ∧ Progresses offset cs outcome ∧
    ∀ stop stack, stop = offset + byteLength cs → stack.length = depth →
      (opened = [] → Expects settings label stack (Token.scan settings.comments offset cs)) →
      readTokens settings label stop (opened ++ stack) (Token.scan settings.comments offset cs) =
        proceed settings label stop stack outcome

namespace Ends

variable {kind : Bracket} {start after : Nat} {items : List Node} {c : Char}
  {run : ExceptT FlawAt Option Taken}

/-- Trivia in front of the text changes nothing. -/
theorem behind {opened : List Pending} {gap : List Char}
    (scanned : Token.scan settings.comments offset (gap ++ cs) =
      Token.scan settings.comments (offset + byteLength gap) cs)
    (h : Ends settings label depth opened (offset + byteLength gap) cs run) :
    Ends settings label depth opened offset (gap ++ cs) run := by
  obtain ⟨outcome, ran, progresses, reads⟩ := h
  refine ⟨outcome, ran, ?_, fun stop stack fits => ?_⟩
  · cases outcome with
    | error flaw => trivial
    | ok taken => exact Consumes.behind progresses
  · rw [scanned]
    exact reads stop stack (by rw [fits, byteLength_append, Nat.add_assoc])

/-! ### One form -/

theorem nothing (settings : ReadSettings) (label : String) (depth offset : Nat) :
    Ends settings label depth [] offset []
      (throw (if settings.depth ≤ depth then .tooDeep settings.depth else .endOfInput,
        offset)) := by
  refine ⟨_, rfl, trivial, ?_⟩
  rintro stop stack rfl rfl expects
  rw [Token.scan_nil] at expects ⊢
  obtain ⟨opening, outer, rfl⟩ := expects rfl
  rw [List.nil_append, readTokens, flawAtEnd_quote]
  · split <;> rfl
  · simp

/-- A token that cannot begin a form. -/
theorem refused {token : Token} {flaw : FlawAt} (begins : Begins settings.comments c)
    (next : Token.next offset c cs = (token, rest))
    (refuses : ∀ stack, stack.length = depth → enter settings label stack token = .error flaw) :
    Ends settings label depth [] offset (c :: cs) (throw flaw) := by
  refine ⟨.error flaw, rfl, trivial, fun stop stack _ height expects => ?_⟩
  rw [scan_of_next begins next] at expects ⊢
  exact readTokens_of_error (Eq.trans (expects rfl) (refuses stack height)) _

theorem leaf {leaf : Leaf} (room : ¬ settings.depth ≤ depth) (begins : Begins settings.comments c)
    (next : Token.next offset c cs = (⟨.leaf leaf, offset, after⟩, rest)) :
    Ends settings label depth [] offset (c :: cs)
      (return ⟨leaf.toNode (.within label offset after), after, rest⟩) := by
  refine ⟨.ok _, rfl, consumes_of_next next rfl, ?_⟩
  rintro stop stack fits rfl expects
  rw [scan_of_next begins next] at expects ⊢
  exact readTokens_of_step (Eq.trans (expects rfl) (if_neg room)) _

theorem opening (room : ¬ settings.depth ≤ depth) (begins : Begins settings.comments c)
    (next : Token.next offset c cs = (⟨.opening kind, offset, after⟩, rest))
    (h : Ends settings label depth [.bracket kind offset []] after rest run) :
    Ends settings label depth [] offset (c :: cs) run := by
  have taken := consumes_of_next next rfl
  obtain ⟨outcome, ran, progresses, reads⟩ := h
  refine ⟨outcome, ran, progresses.behind taken, ?_⟩
  rintro stop stack fits rfl expects
  rw [scan_of_next begins next] at expects ⊢
  rw [List.nil_append, readTokens_of_step (Eq.trans (expects rfl) (if_neg room))]
  exact reads stop stack (fits.trans taken.atEnd.symm) rfl (by simp)

theorem quote (room : ¬ settings.depth ≤ depth) (begins : Begins settings.comments c)
    (next : Token.next offset c cs = (⟨.quote, offset, after⟩, rest))
    (h : Ends settings label (depth + 1) [] after rest run) :
    Ends settings label depth [] offset (c :: cs) (do
      let ⟨inner, stop, rest⟩ ← run
      return ⟨.quoted (.within label offset stop) inner, stop, rest⟩) := by
  have taken := consumes_of_next next rfl
  obtain ⟨outcome, ran, progresses, reads⟩ := h
  have entered (stop : Nat) (stack : List Pending) (fits : stop = offset + byteLength (c :: cs))
      (height : stack.length = depth)
      (expects : ([] : List Pending) = [] → Expects settings label stack
        (Token.scan settings.comments offset (c :: cs))) :
      readTokens settings label stop stack (Token.scan settings.comments offset (c :: cs)) =
        proceed settings label stop (.quote offset :: stack) outcome := by
    subst height
    rw [scan_of_next begins next] at expects ⊢
    rw [readTokens_of_step (Eq.trans (expects rfl) (if_neg room))]
    exact reads stop _ (fits.trans taken.atEnd.symm) rfl fun _ => expects_quote _ _ _
  cases outcome with
  | error flaw => exact ⟨.error flaw, run_bind_error ran _, trivial, entered⟩
  | ok inner =>
    exact ⟨.ok ⟨.quoted _ inner.node, inner.stop, inner.rest⟩, run_bind_ok ran _,
      taken.trans progresses, entered⟩

/-! ### The items of a bracket -/

theorem unclosed (settings : ReadSettings) (label : String) (depth : Nat) (kind : Bracket)
    (start : Nat) (items : List Node) (offset : Nat) :
    Ends settings label depth [.bracket kind start items] offset []
      (throw (.unclosed kind, start)) := by
  refine ⟨_, rfl, trivial, ?_⟩
  rintro stop stack _ _ _
  rw [Token.scan_nil]
  rfl

theorem closing {found : Bracket} (begins : Begins settings.comments c)
    (next : Token.next offset c cs = (⟨.closing found, offset, after⟩, rest)) :
    Ends settings label depth [.bracket kind start items] offset (c :: cs)
      (if found = kind then return ⟨close (.within label start after) kind items, after, rest⟩
      else throw (.mismatched found kind, offset)) := by
  by_cases matched : found = kind
  · subst matched
    rw [if_pos rfl]
    refine ⟨.ok _, rfl, consumes_of_next next rfl, ?_⟩
    rintro stop stack fits rfl _
    rw [scan_of_next begins next]
    have closed : step settings label (.bracket found start items :: stack)
        ⟨.closing found, offset, after⟩ = .ok _ := if_pos rfl
    exact readTokens_of_step closed _
  · rw [if_neg matched]
    refine ⟨.error (.mismatched found kind, offset), rfl, trivial, ?_⟩
    rintro stop stack fits rfl _
    rw [scan_of_next begins next]
    have refused : step settings label (.bracket kind start items :: stack)
        ⟨.closing found, offset, after⟩ = .error _ := if_neg matched
    exact readTokens_of_error refused _

/-- An item, and then those behind it. -/
theorem item {more : Taken → ExceptT FlawAt Option Taken}
    (expects : ∀ stack, Expects settings label stack (Token.scan settings.comments offset cs))
    (h : Ends settings label (depth + 1) [] offset cs run)
    (h' : ∀ item, Consumes offset cs item.stop item.rest →
      Ends settings label depth [.bracket kind start (item.node :: items)] item.stop item.rest
        (more item)) :
    Ends settings label depth [.bracket kind start items] offset cs (run >>= more) := by
  obtain ⟨inner, ran, progresses, reads⟩ := h
  cases inner with
  | error flaw =>
    refine ⟨.error flaw, run_bind_error ran _, trivial, ?_⟩
    rintro stop stack fits rfl _
    exact reads stop (.bracket kind start items :: stack) fits rfl fun _ => expects _
  | ok item =>
    obtain ⟨outcome, goesOn, progresses', reads'⟩ := h' item progresses
    refine ⟨outcome, (run_bind_ok ran _).trans goesOn, progresses'.behind progresses, ?_⟩
    rintro stop stack fits rfl _
    calc readTokens settings label stop (.bracket kind start items :: stack)
          (Token.scan settings.comments offset cs)
        = readTokens settings label stop (.bracket kind start (item.node :: items) :: stack)
            (Token.scan settings.comments item.stop item.rest) :=
          reads stop (.bracket kind start items :: stack) fits rfl fun _ => expects _
      _ = proceed settings label stop stack outcome :=
          reads' stop stack (fits.trans progresses.atEnd.symm) rfl (by simp)

end Ends

mutual

/-- With fuel for twice the length of the text a form comes to an end. -/
theorem form_ends (settings : ReadSettings) (label : String) : ∀ (fuel depth offset : Nat)
    (cs : List Char), 2 * cs.length + 1 < fuel →
    Ends settings label depth [] offset cs (form settings label fuel depth offset cs)
  | 0, _, _, _, enough => absurd enough (Nat.not_lt_zero _)
  | fuel + 1, depth, offset, cs, enough => by
    obtain ⟨gap, front, rfl, skips, begins, scanned⟩ := exists_front settings.comments offset cs
    rw [form, skips fuel (by omega), lift_bind]
    dsimp only
    refine .behind scanned ?_
    rw [List.length_append] at enough
    by_cases full : settings.depth ≤ depth
    · rw [if_pos full]
      cases front with
      | nil => simpa only [if_pos full] using Ends.nothing settings label depth _
      | cons c rest =>
        obtain ⟨lexeme, after, behind, next⟩ := next_cases (offset + byteLength gap) c rest
        exact .refused (begins c rfl) next fun stack height => if_pos (height ▸ full)
    · rw [if_neg full]
      cases front with
      | nil => simpa only [if_neg full] using Ends.nothing settings label depth _
      | cons c rest =>
        obtain ⟨lexeme, after, behind, next⟩ := next_cases (offset + byteLength gap) c rest
        have begins := begins c rfl
        simp only [next]
        cases lexeme with
        | opening kind =>
          have shorter := (consumes_of_next next rfl).shorter
          exact .opening full begins next
            (sequence_ends settings label fuel depth kind _ [] after behind (by omega))
        | closing kind =>
          exact .refused begins next fun stack height => if_neg (height ▸ full)
        | quote =>
          have shorter := (consumes_of_next next rfl).shorter
          exact .quote full begins next
            (form_ends settings label fuel (depth + 1) after behind (by omega))
        | leaf leaf => exact .leaf full begins next
        | broken flaw place =>
          exact .refused begins next fun stack height => if_neg (height ▸ full)

/-- So do the items of a bracket, with fuel for one call more: the first of them may take as
much of the text as they do. -/
theorem sequence_ends (settings : ReadSettings) (label : String) : ∀ (fuel depth : Nat)
    (kind : Bracket) (start : Nat) (items : List Node) (offset : Nat) (cs : List Char),
    2 * cs.length + 2 < fuel →
    Ends settings label depth [.bracket kind start items] offset cs
      (sequence settings label fuel depth kind start items offset cs)
  | 0, _, _, _, _, _, _, enough => absurd enough (Nat.not_lt_zero _)
  | fuel + 1, depth, kind, start, items, offset, cs, enough => by
    obtain ⟨gap, front, rfl, skips, begins, scanned⟩ := exists_front settings.comments offset cs
    rw [sequence, skips fuel (by omega), lift_bind]
    dsimp only
    refine .behind scanned ?_
    rw [List.length_append] at enough
    cases front with
    | nil => exact .unclosed settings label depth kind start items _
    | cons c rest =>
      obtain ⟨lexeme, after, behind, next⟩ := next_cases (offset + byteLength gap) c rest
      have begins := begins c rfl
      simp only [next]
      split
      · rename_i found _ _ _ same
        cases same
        exact .closing begins next
      · rename_i other
        refine .item ?_ (form_ends settings label fuel (depth + 1) _ (c :: rest) (by omega))
          fun item taken => ?_
        · intro stack
          rw [scan_of_next begins next]
          exact step_eq_enter fun bracket closes => other bracket _ _ _ (by cases closes; rfl)
        · have shorter := taken.shorter
          exact sequence_ends settings label fuel depth kind start (item.node :: items) item.stop
            item.rest (by omega)

end

theorem exists_outcome_form (settings : ReadSettings) (label : String) (depth offset : Nat)
    (cs : List Char) :
    ∃ outcome, (∀ fuel, 2 * cs.length + 1 < fuel →
        (form settings label fuel depth offset cs).run = some outcome) ∧
      Progresses offset cs outcome := by
  obtain ⟨outcome, ended, progresses, _⟩ :=
    form_ends settings label (2 * cs.length + 2) depth offset cs (Nat.lt_succ_self _)
  exact ⟨outcome, Within.eventually
    (fun fuel => form_more settings label fuel depth offset cs) ended, progresses⟩

theorem exists_outcome_sequence (settings : ReadSettings) (label : String) (depth : Nat)
    (kind : Bracket) (start : Nat) (items : List Node) (offset : Nat) (cs : List Char) :
    ∃ outcome, (∀ fuel, 2 * cs.length + 2 < fuel →
        (sequence settings label fuel depth kind start items offset cs).run = some outcome) ∧
      Progresses offset cs outcome := by
  obtain ⟨outcome, ended, progresses, _⟩ :=
    sequence_ends settings label (2 * cs.length + 3) depth kind start items offset cs
      (Nat.lt_succ_self _)
  exact ⟨outcome, Within.eventually
    (fun fuel => sequence_more settings label fuel depth kind start items offset cs) ended,
    progresses⟩

/-- The next form outside of all brackets. -/
theorem form_ends_outside {c : Char} (begins : Begins settings.comments c)
    (enough : 2 * (c :: cs).length + 1 < fuel) (label : String) (offset : Nat) :
    ∃ outcome, (form settings label fuel 0 offset (c :: cs)).run = some outcome ∧
      Progresses offset (c :: cs) outcome ∧
      ∀ stop, stop = offset + byteLength (c :: cs) →
        readTokens settings label stop [] (Token.scan settings.comments offset (c :: cs)) =
          proceed settings label stop [] outcome := by
  obtain ⟨outcome, ran, progresses, reads⟩ :=
    form_ends settings label fuel 0 offset (c :: cs) enough
  obtain ⟨lexeme, after, behind, next⟩ := next_cases offset c cs
  refine ⟨outcome, ran, progresses, fun stop fits => reads stop [] fits rfl fun _ => ?_⟩
  rw [scan_of_next begins next]
  rfl

end

end Sexpr.Descent
