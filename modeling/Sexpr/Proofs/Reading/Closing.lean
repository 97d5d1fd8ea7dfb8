/-
Closing what is open.

Behind an open bracket the reader is as if the text began there, with less room
(`Reading.opened_of_advance`). So what stands behind the innermost open bracket makes up a text
of its own, and closing that bracket, or the literal in which a text ends, leaves at most
brackets open that begin before it (`Reading.closed_resume`). Main statement:
`unclosed_innermost`, a missing closing bracket or double quote is reported for the innermost
construct that is open, and supplying it makes progress.
-/

import Sexpr.Proofs.Reading.Brackets
import Sexpr.Proofs.Reading.Continuation
import Sexpr.Proofs.Reading.Shift

namespace Sexpr

open Grammar
open Text (byteLength byteLength_cons byteLength_append)

/-! ### Tokens in order -/

namespace Token

/-- Each token begins behind the one before. -/
theorem pairwise_start_scan (comments : Bool) (offset : Nat) (cs : List Char) :
    (scan comments offset cs).Pairwise (·.start < ·.start) := by
  induction size : cs.length using Nat.strongRecOn generalizing offset cs with
  | ind size ih =>
  rcases scan_cases comments offset cs with
    ⟨_, empty⟩ | ⟨broken, _, single⟩ | ⟨gap, text, first, rest, rfl, _, lexed, shorter, next⟩
  · rw [empty]
    exact .nil
  · rw [single]
    exact List.pairwise_singleton _ _
  · rw [next, List.pairwise_cons]
    refine ⟨fun later mem => ?_, ih rest.length (size ▸ shorter) _ _ rfl⟩
    obtain ⟨c, tail, rfl, _, taken, _⟩ := lexed.next
    obtain ⟨c', piece, _, stop, _⟩ := lexed.before
    obtain ⟨front, d, behind, _, rfl⟩ := mem_scan mem
    have start : first.start = offset + byteLength gap := by
      rw [← start_next (offset + byteLength gap) c tail, taken]
    have wide := c'.utf8Size_pos
    rw [start_next, start, stop, byteLength_cons]
    omega

/-- A text can be cut in front of a token, and what follows the token's first character be
replaced. -/
theorem scan_split {comments : Bool} {cs : List Char} {before after : List Token} {token : Token}
    (scanned : scan comments 0 cs = before ++ token :: after)
    (whole : ∀ earlier ∈ before, earlier.isBroken = false) :
    ∃ front c rest, cs = front ++ c :: rest ∧ token = (next (byteLength front) c rest).1 ∧
      ∀ rest', scan comments 0 (front ++ c :: rest') =
        before ++ scan comments (byteLength front) (c :: rest') := by
  obtain ⟨front, rest, rfl, goesOn⟩ := scan_cut scanned whole
  have behind := (goesOn rest id).symm.trans scanned
  obtain ⟨gap, c, rest, rfl, trivia, _, rfl⟩ := head_scan (List.append_cancel_left behind)
  refine ⟨front ++ gap, c, rest, by simp, by rw [byteLength_append, Nat.zero_add], ?_⟩
  intro rest'
  have sameHead : Boundary (gap ++ c :: rest) → Boundary (gap ++ c :: rest') := by
    cases gap <;> exact id
  rw [List.append_assoc, goesOn _ sameHead, scan_trivia (trivia.before (c :: rest') id),
    byteLength_append, Nat.zero_add]

end Token

namespace Reading

variable {settings : ReadSettings} {label : String} {stop : Nat} {stack inner outer : List Pending}
  {bracket : Bracket} {start : Nat} {items : List Node}

/-! ### Behind an open bracket -/

/-- A node that leaves a bracket open is delivered inside of it. -/
theorem opened_of_deliver {node : Node}
    (h : (deliver label stop node stack).left = inner ++ .bracket bracket start items :: outer) :
    ∃ inner' items', stack = inner' ++ .bracket bracket start items' :: outer ∧
      (deliver label stop node inner').left = inner := by
  induction stack generalizing node inner with
  | nil => simp [deliver, Progress.left] at h
  | cons pending stack ih =>
    cases pending with
    | quote begun =>
      obtain ⟨inner', items', rfl, left⟩ := ih h
      exact ⟨.quote begun :: inner', items', rfl, left⟩
    | bracket kind begun items' =>
      cases inner with
      | nil =>
        cases h
        exact ⟨[], items', rfl, rfl⟩
      | cons first inner =>
        obtain ⟨rfl, rfl⟩ := List.cons.inj h
        exact ⟨.bracket kind begun items' :: inner, items, rfl, rfl⟩

/-- A token that leaves a bracket open has opened it, or it does inside of it what it does
alone. -/
theorem opened_of_step {token : Token} {progress : Progress}
    (taken : step settings label stack token = .ok progress)
    (left : progress.left = inner ++ .bracket bracket start items :: outer) :
    (∃ inner' items' alone, stack = inner' ++ .bracket bracket start items' :: outer ∧
      step settings label inner' token = .ok alone ∧ alone.left = inner) ∨
    token.lexeme = .opening bracket ∧ token.start = start ∧ inner = [] ∧ stack = outer := by
  obtain ⟨lexeme, begun, stop⟩ := token
  -- inside of the bracket there is more room than there is on the whole stack
  have room {inner' : List Pending} {items' : List Node}
      (cut : stack = inner' ++ .bracket bracket start items' :: outer)
      (begins : ∀ closing, lexeme ≠ .closing closing) : inner'.length < settings.depth := by
    have whole := room_of_step begins taken
    rw [cut, List.length_append] at whole
    omega
  cases lexeme with
  | opening kind =>
    rw [step_opening (room_of_step (by simp) taken)] at taken
    cases taken
    cases inner with
    | nil =>
      cases left
      exact .inr ⟨rfl, rfl, rfl, rfl⟩
    | cons first inner =>
      obtain ⟨rfl, cut⟩ := List.cons.inj left
      exact .inl ⟨inner, items, _, cut, step_opening (room cut (by simp)), rfl⟩
  | closing kind =>
    obtain ⟨begun', items', stack, rfl, rfl⟩ := step_closing_inv taken
    obtain ⟨inner', items'', rfl, alone⟩ := opened_of_deliver left
    exact .inl ⟨.bracket kind begun' items' :: inner', items'', _, rfl,
      step_closing kind begun' items' inner' begun stop, alone⟩
  | quote =>
    rw [step_quote (room_of_step (by simp) taken)] at taken
    cases taken
    cases inner with
    | nil => cases left
    | cons first inner =>
      obtain ⟨rfl, cut⟩ := List.cons.inj left
      exact .inl ⟨inner, items, _, cut, step_quote (room cut (by simp)), rfl⟩
  | leaf value =>
    rw [step_leaf (room_of_step (by simp) taken)] at taken
    cases taken
    obtain ⟨inner', items', cut, alone⟩ := opened_of_deliver left
    exact .inl ⟨inner', items', _, cut, step_leaf (room cut (by simp)), alone⟩
  | broken flaw offset =>
    obtain ⟨flaw', failed⟩ : ∃ flaw', step settings label stack _ = .error flaw' :=
      step_broken (rfl : Token.isBroken ⟨.broken flaw offset, begun, stop⟩ = true)
    rw [failed] at taken
    cases taken

/-- Tokens that leave a bracket open that they have opened do behind it what they do alone. -/
theorem opened_of_advance {tokens : List Token}
    (h : (advance settings label stack tokens).2 =
      .ok (inner ++ .bracket bracket start items :: outer)) :
    (∃ inner' items', stack = inner' ++ .bracket bracket start items' :: outer ∧
      (advance settings label inner' tokens).2 = .ok inner) ∨
    ∃ before token after, tokens = before ++ token :: after ∧
      (advance settings label stack before).2 = .ok outer ∧
      token.lexeme = .opening bracket ∧ token.start = start ∧
      (advance settings label [] after).2 = .ok inner := by
  induction tokens generalizing stack with
  | nil =>
    cases h
    exact .inl ⟨inner, items, rfl, rfl⟩
  | cons token tokens ih =>
    cases stepped : step settings label stack token with
    | error flaw =>
      rw [advance_of_error stepped] at h
      cases h
    | ok progress =>
      rw [advance_of_step stepped] at h
      rcases ih h with ⟨inner', items', left, alone⟩ |
        ⟨before, opening, after, rfl, taken, opens, begins, alone⟩
      · rcases opened_of_step stepped left with
          ⟨inner'', items'', first, rfl, single, rfl⟩ | ⟨opens, begins, rfl, rfl⟩
        · refine .inl ⟨inner'', items'', rfl, ?_⟩
          rw [advance_of_step single, alone]
        · exact .inr ⟨[], token, tokens, rfl, rfl, opens, begins, alone⟩
      · refine .inr ⟨token :: before, opening, after, rfl, ?_, opens, begins, alone⟩
        rw [advance_of_step stepped, taken]

/-- What is open in front of a token begins before it. -/
theorem lt_of_mem_open {comments : Bool} {cs : List Char} {before after : List Token}
    {token : Token} {left : List Pending}
    (scanned : Token.scan comments 0 cs = before ++ token :: after)
    (taken : (advance settings label [] before).2 = .ok left)
    (mem : .bracket bracket start items ∈ left) : start < token.start := by
  have order := Token.pairwise_start_scan comments 0 cs
  rw [scanned] at order
  rcases bracket_of_advance taken mem with ⟨_, never⟩ | ⟨opening, earlier, _, rfl⟩
  · cases never
  · exact (List.pairwise_append.mp order).2.2 opening earlier token List.mem_cons_self

/-- Behind the innermost open bracket stands a text of its own. -/
theorem complete_behind {comments : Bool} {cs : List Char}
    (h : (advance settings label [] (Token.scan comments 0 cs)).2 =
      .ok (.bracket bracket start items :: outer)) :
    ∃ front rest, cs = front ++ bracket.opening :: rest ∧ start = byteLength front ∧
      (advance settings label [] (Token.scan comments (start + 1) rest)).2 = .ok [] ∧
      ∀ kind begun items', .bracket kind begun items' ∈ outer → begun < start := by
  rcases @opened_of_advance settings label [] [] outer bracket start items _ h with
    ⟨inner, _, never, _⟩ | ⟨before, token, after, scanned, taken, opens, rfl, alone⟩
  · cases inner <;> cases never
  obtain ⟨front, c, rest, rfl, isToken, goesOn⟩ :=
    Token.scan_split scanned (whole_of_advance (Prod.ext rfl taken))
  have opens' := opens
  rw [isToken] at opens'
  obtain ⟨rfl, begins⟩ := Token.opening_of_next opens'
  rw [← isToken] at begins
  refine ⟨front, rest, rfl, begins, ?_, fun kind begun items' => lt_of_mem_open scanned taken⟩
  -- the tokens behind the bracket are those of the text behind it
  rw [goesOn, Token.scan_lexed (.opening bracket rest)] at scanned
  obtain ⟨_, behind⟩ := List.cons.inj (List.append_cancel_left scanned)
  rw [begins, behind, alone]

/-! ### One more closing -/

/-- What a closing leaves: what it closes was the last of the text, or a bracket is open that
begins before `offset`. -/
inductive Closed (nodes : List Node) (offset : Nat) : List Node × Option FlawAt → Prop where
  | last (node : Node) : Closed nodes offset (nodes ++ [node], none)
  | outer {bracket : Bracket} {start : Nat} : start < offset →
      Closed nodes offset (nodes, some (.unclosed bracket, start))

/-- A node that is finished at the end of a text leaves open what was open around it. -/
theorem closed_resume {offset : Nat} (nodes : List Node)
    (further : ∀ bracket start items, .bracket bracket start items ∈ stack → start < offset)
    (reached : Nat) (node : Node) :
    Closed nodes offset
      (nodes ++ (resume settings label stop (deliver label reached node stack) []).1,
        (resume settings label stop (deliver label reached node stack) []).2) := by
  induction stack generalizing node with
  | nil => exact .last node
  | cons pending stack ih =>
    cases pending with
    | quote begun => exact ih (fun bracket start items mem =>
        further bracket start items (List.mem_cons_of_mem _ mem)) _
    | bracket kind begun items =>
      have ends : resume settings label stop
          (deliver label reached node (.bracket kind begun items :: stack)) [] =
            ([], some (.unclosed kind, begun)) := rfl
      rw [ends, List.append_nil]
      exact .outer (further kind begun items List.mem_cons_self)

/-- The innermost open bracket can be closed on a new line. -/
theorem closed_bracket {cs : List Char} {nodes : List Node}
    (h : advance settings label [] (Token.scan settings.comments 0 cs) =
      (nodes, .ok (.bracket bracket start items :: outer)))
    (further : ∀ kind begun items', .bracket kind begun items' ∈ outer → begun < start)
    (stop : Nat) :
    Closed nodes start (readTokens settings label stop []
      (Token.scan settings.comments 0 (cs ++ '\n' :: [bracket.closing]))) := by
  rw [scan_of_whole (whole_of_advance h), scan_line, readTokens_append h,
    Token.scan_lexed (.closing bracket []), Token.scan_nil,
    readTokens_of_step (step_closing bracket start items outer _ _)]
  exact closed_resume nodes further _ _

/-- A literal in which a text ends can be closed, unless the text ends inside an escape. -/
theorem closed_literal {front body text : List Char} {before : List Token} {nodes : List Node}
    {left : List Pending} (taken : advance settings label [] before = (nodes, .ok left))
    (quotes : Text.Quotes body text) (room : left.length < settings.depth)
    (scanned : Token.scan settings.comments 0 (front ++ '"' :: (body ++ ['"'])) =
      before ++ Token.scan settings.comments (byteLength front) ('"' :: (body ++ ['"'])))
    (further : ∀ kind begun items', .bracket kind begun items' ∈ left → begun < byteLength front)
    (stop : Nat) :
    Closed nodes (byteLength front) (readTokens settings label stop []
      (Token.scan settings.comments 0 (front ++ '"' :: (body ++ ['"'])))) := by
  rw [scanned, readTokens_append taken, Token.scan_lexed (.text [] quotes), Token.scan_nil,
    readTokens_of_step (step_leaf room)]
  exact closed_resume nodes further _ _

/-- A bracket or a literal is not closed at the end of a text: either nothing stands behind
an innermost bracket but what is complete, or a literal begins there for which there is room. -/
theorem unclosed_cases {comments : Bool} {cs : List Char} {nodes : List Node} {flaw : Flaw}
    {offset : Nat}
    (h : readTokens settings label stop [] (Token.scan comments 0 cs) =
      (nodes, some (flaw, offset)))
    (kind : flaw.kind = .missingClosing) :
    (∃ bracket items outer, advance settings label [] (Token.scan comments 0 cs) =
      (nodes, .ok (.bracket bracket offset items :: outer))) ∨
    ∃ before token after left, Token.scan comments 0 cs = before ++ token :: after ∧
      advance settings label [] before = (nodes, .ok left) ∧ left.length < settings.depth ∧
      token.lexeme = .broken .unclosedText offset := by
  rcases flaw_cases h with
    ⟨before, token, after, left, scanned, taken, why⟩ | ⟨left, taken, notEmpty, isFlaw⟩
  · right
    cases why with
    | tooDeep _ => cases kind
    | unopened _ _ => cases kind
    | mismatched _ _ _ => cases kind
    | broken broken room =>
      refine ⟨before, token, after, left, scanned, taken, room, ?_⟩
      obtain ⟨_, _, _, _, rfl⟩ :=
        Token.mem_scan (scanned ▸ List.mem_append_right before List.mem_cons_self)
      rcases Token.flaw_of_next broken with rfl | ⟨_, _, _, rfl⟩ | ⟨_, _, _, _, rfl | rfl⟩
      · exact broken
      all_goals cases kind
  · left
    match left with
    | [] => exact absurd rfl notEmpty
    | .bracket bracket start items :: outer =>
      cases isFlaw
      exact ⟨bracket, items, outer, taken⟩
    | .quote start :: outer =>
      rw [flawAtEnd_quote] at isFlaw
      split at isFlaw <;> cases isFlaw <;> cases kind

/-- A text further on is complete where it is complete alone. -/
theorem all_of_behind {offset : Nat} {cs : List Char}
    (h : (advance settings label [] (Token.scan settings.comments offset cs)).2 = .ok []) :
    ∃ nodes, (read settings label (String.ofList cs)).all = .ok nodes := by
  have complete := @readTokens_append settings label (String.ofList cs).utf8ByteSize [] _ _ _
    (Prod.ext rfl h) []
  rw [List.append_nil, ← Nat.zero_add offset, Token.scan_shift] at complete
  have alone := (readTokens_shift settings label (k := offset) .nil
    (String.ofList cs).utf8ByteSize (Token.scan settings.comments 0 cs)).2
  rw [readTokens_none_of_none (congrArg Prod.snd complete)] at alone
  refine ⟨_, all_eq_ok_iff.mpr (Prod.ext rfl ?_)⟩
  rw [String.toList_ofList]
  exact Option.map_eq_none_iff.mp alone.symm

end Reading

/-- Where a reading stops, if it does: for a bracket or a literal that is not closed and
begins before `offset`. -/
def ReadError.StopsBefore {α : Type} (reading : Except ReadError α) (offset : Nat) : Prop :=
  (∃ result, reading = .ok result) ∨
    ∃ error span, reading = .error error ∧ error.kind = .missingClosing ∧
      error.place.span = some span ∧ span.start < offset

/-- A closing that leaves less open, for the forms of a text and for a single one. -/
theorem Reading.Closed.stopsBefore {settings : ReadSettings} {label text : String}
    {nodes : List Node} {offset : Nat}
    (h : Reading.Closed nodes offset (Reading.readTokens settings label text.utf8ByteSize []
      (Token.scan settings.comments 0 text.toList))) :
    ReadError.StopsBefore (read settings label text).all offset ∧
      (nodes = [] → ReadError.StopsBefore (readOne settings label text) offset) := by
  generalize reading : Reading.readTokens settings label text.utf8ByteSize []
    (Token.scan settings.comments 0 text.toList) = r at h
  cases h with
  | last node =>
    refine ⟨.inl ⟨_, Reading.all_eq_ok_iff.mpr reading⟩, ?_⟩
    rintro rfl
    refine .inl ⟨node, ?_⟩
    rw [readOne, Reading.readFirst_eq_ok_iff.mpr reading]
  | @outer bracket start before =>
    constructor
    · refine .inr ⟨.ofFlaw label text (.unclosed bracket) start, _, ?_, rfl, rfl, before⟩
      simp only [read, reading, Reading.all]
      rfl
    · rintro rfl
      refine .inr ⟨.ofFlaw label text (.unclosed bracket) start, _, ?_, rfl, rfl, before⟩
      rw [readOne, Reading.readFirst_eq_error reading]

/-- The flaw of a reading that fails for a bracket; a single form fails so before any form is
finished. -/
theorem Reading.unclosed_of_failed {settings : ReadSettings} {label text : String}
    {error : ReadError}
    (failed : (read settings label text).all = .error error ∨
      readOne settings label text = .error error)
    (kind : error.kind = .missingClosing) :
    ∃ nodes flaw offset, Reading.readTokens settings label text.utf8ByteSize []
        (Token.scan settings.comments 0 text.toList) = (nodes, some (flaw, offset)) ∧
      error = .ofFlaw label text flaw offset ∧
      (readOne settings label text = .error error → nodes = []) := by
  have single (one : readOne settings label text = .error error) :=
    read_of_readOne one (.inr kind)
  have flawed : (read settings label text).error = some error :=
    failed.elim Reading.error_of_all_eq_error fun one => by rw [single one]
  simp only [read] at flawed single
  generalize Reading.readTokens settings label text.utf8ByteSize []
    (Token.scan settings.comments 0 text.toList) = r at flawed single ⊢
  obtain ⟨nodes, _ | ⟨flaw, offset⟩⟩ := r
  · cases flawed
  · cases flawed
    exact ⟨nodes, flaw, offset, rfl, rfl, fun one => congrArg Reading.forms (single one)⟩

/-- What is reported as unclosed is the innermost construct that is open. If it is a bracket,
what stands behind it is complete, and on closing it on a new line the text can be read, or
what is unclosed then begins before it. If it is a literal, the text ends inside of it, and on
closing it the same holds, unless the text ends inside an escape. -/
theorem unclosed_innermost {settings : ReadSettings} {label text : String} {error : ReadError}
    (failed : (read settings label text).all = .error error ∨
      readOne settings label text = .error error)
    (kind : error.kind = .missingClosing) :
    ∃ front c rest span, text.toList = front ++ c :: rest ∧ error.place.span = some span ∧
      span.start = byteLength front ∧
      let closed (text' : String) : Prop :=
        ((read settings label text).all = .error error →
          ReadError.StopsBefore (read settings label text').all span.start) ∧
        (readOne settings label text = .error error →
          ReadError.StopsBefore (readOne settings label text') span.start)
      ((∃ bracket, c = Bracket.opening bracket ∧
          (∃ nodes, (read settings label (String.ofList rest)).all = .ok nodes) ∧
          closed (text ++ "\n" ++ String.singleton bracket.closing)) ∨
        c = '"' ∧
          (∃ body value, Text.Quotes body value ∧ (rest = body ∨ rest = body ++ ['\\'])) ∧
          (¬ Text.CutEscape text.toList span.start → closed (text ++ "\""))) := by
  obtain ⟨nodes, flaw, offset, reading, rfl, single⟩ := Reading.unclosed_of_failed failed kind
  have closes {text' : String} (less : Reading.Closed nodes offset
      (Reading.readTokens settings label text'.utf8ByteSize []
        (Token.scan settings.comments 0 text'.toList))) :
      ((read settings label text).all = .error (.ofFlaw label text flaw offset) →
        ReadError.StopsBefore (read settings label text').all offset) ∧
      (readOne settings label text = .error (.ofFlaw label text flaw offset) →
        ReadError.StopsBefore (readOne settings label text') offset) :=
    ⟨fun _ => less.stopsBefore.1, fun one => less.stopsBefore.2 (single one)⟩
  rcases Reading.unclosed_cases reading kind with
    ⟨bracket, items, outer, taken⟩ | ⟨before, token, after, left, scanned, taken, room, broken⟩
  · obtain ⟨front, rest, cut, start, alone, further⟩ :=
      Reading.complete_behind (congrArg Prod.snd taken)
    have line : (text ++ "\n" ++ String.singleton bracket.closing).toList =
        text.toList ++ '\n' :: [bracket.closing] := by simp
    refine ⟨front, bracket.opening, rest, _, cut, rfl, start,
      .inl ⟨bracket, rfl, Reading.all_of_behind alone, closes ?_⟩⟩
    rw [line]
    exact Reading.closed_bracket taken further _
  · obtain ⟨front, c, rest, cut, isToken, goesOn⟩ :=
      Token.scan_split scanned (Reading.whole_of_advance taken)
    have begins : token.start = byteLength front := by rw [isToken, Token.start_next]
    rw [isToken] at broken
    obtain ⟨rfl, rfl, unclosed⟩ := Token.unclosed_of_next broken
    obtain ⟨body, value, quotes, ends⟩ := Text.quotes_of_unclosed unclosed
    refine ⟨front, '"', rest, _, cut, rfl, rfl,
      .inr ⟨rfl, ⟨body, value, quotes, ends⟩, fun notCut => closes ?_⟩⟩
    rcases ends with rfl | rfl
    · have line : (text ++ "\"").toList = front ++ '"' :: (rest ++ ['"']) := by simp [cut]
      rw [line]
      refine Reading.closed_literal taken quotes room (goesOn _) (fun kind begun items mem => ?_) _
      rw [← begins]
      exact Reading.lt_of_mem_open scanned (congrArg Prod.snd taken) mem
    · exact absurd ⟨front, body, value, cut, quotes, rfl⟩ notCut

/-- A vector is open behind a quote mark in an open call; what stands in it is complete, though
a comment hides a bracket. -/
theorem unclosed_vector :
    let text := "(f '[1 (g) ; ("
    let error := ReadError.ofFlaw "in" text (.unclosed .square) 4
    (read {} "in" text).all = .error error ∧ error.kind = .missingClosing ∧
      ∃ front bracket rest, text.toList = front ++ Bracket.opening bracket :: rest ∧
        (∃ nodes, (read {} "in" (String.ofList rest)).all = .ok nodes) ∧
        ReadError.StopsBefore
          (read {} "in" (text ++ "\n" ++ String.singleton bracket.closing)).all 4 := by
  intro text error
  have flawed : (read {} "in" text).error = some error := by decide +kernel
  have failed : (read {} "in" text).all = .error error := by rw [Reading.all, flawed]
  obtain ⟨front, c, rest, span, cut, ⟨⟩, _, open_⟩ := unclosed_innermost (.inl failed) rfl
  refine ⟨failed, rfl, ?_⟩
  rcases open_ with ⟨bracket, rfl, complete, closed⟩ | ⟨rfl, _⟩
  · exact ⟨front, bracket, rest, cut, complete, closed.1 failed⟩
  · have noLiteral : '"' ∉ text.toList := by decide
    exact absurd (cut ▸ List.mem_append_right front List.mem_cons_self) noLiteral

end Sexpr
