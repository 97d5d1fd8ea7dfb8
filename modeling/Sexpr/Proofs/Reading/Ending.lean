/-
How a text with a flaw ends.

`Reading.advance` says what a row of tokens leaves open, so that reading can go on behind
it. What is open can be closed again (`resume_closers`), where there is room for a form. Main
statement: `Reading.ending_of_flaw`, a flaw stands whatever follows on a new line, or the text
ends between two tokens with brackets and quote marks open, or it ends inside a literal.
-/

import Sexpr.Proofs.Reading.Acceptance
import Sexpr.Proofs.Reading.Extension

namespace Sexpr

open Grammar
open Text (byteLength)

namespace Reading

variable {settings : ReadSettings} {label : String} {stop : Nat} {stack : List Pending}

/-! ### Tokens behind others -/

/-- Behind a flaw nothing is read. -/
theorem readTokens_append_of_error {tokens : List Token} {nodes : List Node} {flaw : FlawAt}
    (h : advance settings label stack tokens = (nodes, .error flaw)) (more : List Token) :
    readTokens settings label stop stack (tokens ++ more) = (nodes, some flaw) := by
  induction tokens generalizing stack nodes with
  | nil => cases h
  | cons token tokens ih =>
    rw [List.cons_append]
    cases stepped : step settings label stack token with
    | error flaw' =>
      rw [advance_of_error stepped] at h
      cases h
      exact readTokens_of_error stepped _
    | ok progress =>
      rw [advance_of_step stepped] at h
      obtain ⟨rfl, taken⟩ := Prod.mk.inj h
      rw [readTokens_of_step stepped, resume_eq, ih (Prod.ext rfl taken)]

/-- A text without flaw has none wherever it is said to end. -/
theorem readTokens_none_of_none {tokens : List Token} {stop' : Nat}
    (h : (readTokens settings label stop stack tokens).2 = none) :
    (readTokens settings label stop' stack tokens).2 = none := by
  cases advanced : advance settings label stack tokens with
  | mk nodes left =>
    rw [← List.append_nil tokens] at h ⊢
    cases left with
    | error flaw =>
      rw [readTokens_append_of_error advanced] at h
      cases h
    | ok left =>
      rw [readTokens_append advanced] at h ⊢
      cases left with
      | nil => rfl
      | cons pending left => cases h

/-! ### Flaws that stand -/

/-- Why a token is refused, and where. -/
inductive Refused (settings : ReadSettings) (stack : List Pending) (token : Token) :
    FlawAt → Prop where
  | tooDeep : settings.depth ≤ stack.length →
      Refused settings stack token (.tooDeep settings.depth, token.start)
  | unopened {found : Bracket} : token.lexeme = .closing found →
      (∀ kind start items outer, stack ≠ .bracket kind start items :: outer) →
      Refused settings stack token (.unopened found, token.start)
  | mismatched {found kind : Bracket} {start : Nat} {items : List Node} {outer : List Pending} :
      token.lexeme = .closing found → stack = .bracket kind start items :: outer → found ≠ kind →
      Refused settings stack token (.mismatched found kind, token.start)
  | broken {flaw : Flaw} {offset : Nat} : token.lexeme = .broken flaw offset →
      stack.length < settings.depth → Refused settings stack token (flaw, offset)

theorem refused_of_step {token : Token} {flaw : FlawAt}
    (h : step settings label stack token = .error flaw) : Refused settings stack token flaw := by
  unfold step at h
  split at h
  · rename_i kind start items outer found closes
    split at h
    · cases h
    · rename_i other
      cases h
      exact .mismatched closes rfl other
  · rename_i notBoth
    unfold enter at h
    split at h
    · rename_i full
      cases h
      exact .tooDeep full
    · rename_i room
      split at h
      · cases h
      · cases h
      · cases h
      · rename_i found closes
        cases h
        refine .unopened closes ?_
        rintro kind start items outer rfl
        exact notBoth kind start items outer found rfl closes
      · rename_i broken
        cases h
        exact .broken broken (Nat.lt_of_not_le room)

theorem isOpen_of_step {token : Token} {flaw : Flaw} {offset : Nat}
    (decided : token.isDecided = true)
    (h : step settings label stack token = .error (flaw, offset)) : flaw.isOpen = false := by
  cases refused_of_step h with
  | tooDeep _ => rfl
  | unopened _ _ => rfl
  | mismatched _ _ _ => rfl
  | broken broken _ => simpa [Token.isDecided, broken] using decided

theorem isOpen_of_advance {tokens : List Token} {flaw : Flaw} {offset : Nat}
    (decided : ∀ token ∈ tokens, token.isDecided = true)
    (h : (advance settings label stack tokens).2 = .error (flaw, offset)) :
    flaw.isOpen = false := by
  induction tokens generalizing stack with
  | nil => cases h
  | cons token tokens ih =>
    obtain ⟨first, others⟩ := List.forall_mem_cons.mp decided
    rw [advance] at h
    split at h
    · rename_i stepped
      cases h
      exact isOpen_of_step first stepped
    · exact ih others h
    · exact ih others h

theorem advance_broken {tokens : List Token} (h : ∃ token ∈ tokens, token.isBroken = true) :
    ∃ flaw, (advance settings label stack tokens).2 = .error flaw := by
  obtain ⟨broken, mem, isBroken⟩ := h
  induction tokens generalizing stack with
  | nil => cases mem
  | cons token tokens ih =>
    rw [advance]
    rcases List.mem_cons.mp mem with rfl | later
    · obtain ⟨flaw, failed⟩ : ∃ flaw, step settings label stack broken = .error flaw :=
        step_broken isBroken
      rw [failed]
      exact ⟨flaw, rfl⟩
    · split
      · exact ⟨_, rfl⟩
      · exact ih later
      · exact ih later

/-! ### What is left open -/

/-- A delivered node leaves brackets open that were open before. -/
theorem bracket_of_deliver {offset : Nat} {node : Node} {left : List Pending} {bracket : Bracket}
    {start : Nat} {items : List Node} (h : deliver label offset node stack = .inside left)
    (mem : .bracket bracket start items ∈ left) :
    ∃ items', .bracket bracket start items' ∈ stack := by
  induction stack generalizing node with
  | nil => cases h
  | cons pending stack ih =>
    cases pending with
    | quote _ =>
      obtain ⟨items', mem⟩ := ih h
      exact ⟨items', List.mem_cons_of_mem _ mem⟩
    | bracket _ _ items' =>
      cases h
      rcases List.mem_cons.mp mem with same | outer
      · cases same
        exact ⟨items', List.mem_cons_self⟩
      · exact ⟨items, List.mem_cons_of_mem _ outer⟩

/-- A token leaves brackets open that were open before or that it opens itself. -/
theorem bracket_of_step {token : Token} {left : List Pending} {bracket : Bracket} {start : Nat}
    {items : List Node} (h : step settings label stack token = .ok (.inside left))
    (mem : .bracket bracket start items ∈ left) :
    (∃ items', .bracket bracket start items' ∈ stack) ∨
      token.lexeme = .opening bracket ∧ token.start = start := by
  unfold step at h
  split at h
  · split at h
    · obtain ⟨items', mem⟩ := bracket_of_deliver (Except.ok.inj h) mem
      exact .inl ⟨items', List.mem_cons_of_mem _ mem⟩
    · cases h
  · unfold enter at h
    split at h
    · cases h
    · split at h
      · rename_i opening
        cases h
        rcases List.mem_cons.mp mem with same | outer
        · cases same
          exact .inr ⟨opening, rfl⟩
        · exact .inl ⟨items, outer⟩
      · cases h
        rcases List.mem_cons.mp mem with same | outer
        · cases same
        · exact .inl ⟨items, outer⟩
      · exact .inl (bracket_of_deliver (Except.ok.inj h) mem)
      · cases h
      · cases h

theorem bracket_of_advance {tokens : List Token} {left : List Pending} {bracket : Bracket}
    {start : Nat} {items : List Node}
    (h : (advance settings label stack tokens).2 = .ok left)
    (mem : .bracket bracket start items ∈ left) :
    (∃ items', .bracket bracket start items' ∈ stack) ∨
      ∃ token ∈ tokens, token.lexeme = .opening bracket ∧ token.start = start := by
  induction tokens generalizing stack with
  | nil =>
    cases h
    exact .inl ⟨items, mem⟩
  | cons token tokens ih =>
    rw [advance] at h
    split at h
    · cases h
    · rename_i stack' stepped
      rcases ih h with ⟨items', open'⟩ | ⟨token', inTokens, opens⟩
      · rcases bracket_of_step stepped open' with before | opens
        · exact .inl before
        · exact .inr ⟨token, List.mem_cons_self, opens⟩
      · exact .inr ⟨token', List.mem_cons_of_mem _ inTokens, opens⟩
    · rcases ih h with ⟨items', open'⟩ | ⟨token', inTokens, opens⟩
      · cases open'
      · exact .inr ⟨token', List.mem_cons_of_mem _ inTokens, opens⟩

/-! ### Closing what is open -/

/-- The brackets that close what is open, the innermost first. -/
def closers : List Pending → List Char
  | [] => []
  | .quote _ :: stack => closers stack
  | .bracket bracket _ _ :: stack => bracket.closing :: closers stack

theorem boundary_closers (stack : List Pending) : Boundary (closers stack) := by
  induction stack with
  | nil => simp [closers, Boundary]
  | cons pending stack ih =>
    cases pending with
    | quote _ => exact ih
    | bracket bracket _ _ =>
      rintro c ⟨⟩
      cases bracket <;> decide

/-- A node may be followed by the closing brackets of what it is handed to. -/
theorem resume_closers (comments : Bool) (stack : List Pending) (node : Node)
    (reached offset : Nat) :
    (resume settings label stop (deliver label reached node stack)
      (Token.scan comments offset (closers stack))).2 = none := by
  induction stack generalizing node reached offset with
  | nil =>
    rw [closers, Token.scan_nil]
    rfl
  | cons pending stack ih =>
    cases pending with
    | quote start => exact ih _ reached offset
    | bracket bracket start items =>
      rw [deliver, resume, closers, Token.scan_lexed (.closing bracket (closers stack)),
        readTokens_of_step (step_closing bracket _ _ _ _ _)]
      exact ih _ _ _

/-- Line feeds make no tokens. -/
theorem scan_line (comments : Bool) (offset : Nat) (cs : List Char) :
    Token.scan comments offset ('\n' :: cs) = Token.scan comments (offset + 1) cs := by
  have line : Trivia comments ['\n'] cs := .blank (by decide) .nil
  exact Token.scan_trivia line offset

/-- An open bracket can be closed, and so can those around it. -/
theorem readTokens_closers (comments : Bool) (bracket : Bracket) (start : Nat)
    (items : List Node) (stack : List Pending) (offset : Nat) :
    (readTokens settings label stop (.bracket bracket start items :: stack)
      (Token.scan comments offset (closers (.bracket bracket start items :: stack)))).2 = none := by
  rw [closers, Token.scan_lexed (.closing bracket (closers stack)),
    readTokens_of_step (step_closing bracket _ _ _ _ _)]
  exact resume_closers comments stack _ _ _

/-- Where there is room for a word, it may be followed by closing brackets. -/
theorem readTokens_word (comments : Bool) {word : List Char} {leaf : Leaf} (isWord : Word word leaf)
    (room : stack.length < settings.depth) (offset : Nat) :
    (readTokens settings label stop stack
      (Token.scan comments offset (word ++ closers stack))).2 = none := by
  rw [Token.scan_lexed (.word isWord (boundary_closers stack)),
    readTokens_of_step (step_leaf room)]
  exact resume_closers comments stack _ _ _

/-- Where there is room for a literal, it may be followed by closing brackets. -/
theorem readTokens_text (comments : Bool) {body text : List Char} (quotes : Text.Quotes body text)
    (room : stack.length < settings.depth) (offset : Nat) :
    (readTokens settings label stop stack
      (Token.scan comments offset ('"' :: (body ++ '"' :: closers stack)))).2 = none := by
  rw [Token.scan_lexed (.text (closers stack) quotes), readTokens_of_step (step_leaf room)]
  exact resume_closers comments stack _ _ _

/-! ### How a text with a flaw ends -/

/-- How a text with a flaw ends. -/
inductive Ending (settings : ReadSettings) (label : String) (cs : List Char) : FlawAt → Prop where
  /-- The flaw stands, whatever follows on a new line. -/
  | decided {flaw : Flaw} {offset : Nat} : flaw.isOpen = false →
      (∀ more stop, (readTokens settings label stop []
        (Token.scan settings.comments 0 (cs ++ '\n' :: more))).2 = some (flaw, offset)) →
      Ending settings label cs (flaw, offset)
  /-- The text ends between two tokens, with brackets and quote marks open. -/
  | waiting {stack : List Pending} : stack ≠ [] →
      (∀ bracket start items, .bracket bracket start items ∈ stack →
        ∃ front rest, cs = front ++ bracket.opening :: rest ∧ start = byteLength front) →
      (∀ more stop, (readTokens settings label stop []
        (Token.scan settings.comments 0 (cs ++ '\n' :: more))).2 =
          (readTokens settings label stop stack
            (Token.scan settings.comments (byteLength cs) ('\n' :: more))).2) →
      Ending settings label cs (flawAtEnd settings (byteLength cs) stack)
  /-- The text ends inside a literal, for which there is room. -/
  | quoting {front body : List Char} {stack : List Pending} : cs = front ++ '"' :: body →
      Text.unquote (byteLength front + 1) body = .unclosed → stack.length < settings.depth →
      (∀ tail stop, (readTokens settings label stop []
        (Token.scan settings.comments 0 (front ++ '"' :: tail))).2 =
          (readTokens settings label stop stack
            (Token.scan settings.comments (byteLength front) ('"' :: tail))).2) →
      Ending settings label cs (.unclosedText, byteLength front)

/-- What begins with a double quote begins with one token, which closes no bracket. -/
theorem scan_doubleQuote (comments : Bool) (offset : Nat) (tail : List Char) :
    ∃ token tokens, Token.scan comments offset ('"' :: tail) = token :: tokens ∧
      token = (Token.readText offset tail).1 ∧ token.start = offset ∧
      ∀ bracket, token.lexeme ≠ .closing bracket := by
  have solid : Solid '"' := ⟨by decide, by decide⟩
  have start : (Token.readText offset tail).1.start = offset := by
    unfold Token.readText
    split <;> rfl
  have begins : ∀ bracket, (Token.readText offset tail).1.lexeme ≠ .closing bracket := by
    intro bracket
    unfold Token.readText
    split <;> simp
  rw [Token.scan_eq, Token.skipTrivia_of_solid solid]
  change ∃ token tokens, (if (Token.readText offset tail).1.isBroken then _ else _) = _ ∧ _
  split
  · exact ⟨_, _, rfl, rfl, start, begins⟩
  · exact ⟨_, _, rfl, rfl, start, begins⟩

/-- Tokens that are whole stay what they are when text follows on a new line. -/
theorem scan_of_whole {comments : Bool} {offset : Nat} {cs : List Char}
    (whole : ∀ token ∈ Token.scan comments offset cs, token.isBroken = false)
    (more : List Char) :
    Token.scan comments offset (cs ++ '\n' :: more) =
      Token.scan comments offset cs ++
        Token.scan comments (offset + byteLength cs) ('\n' :: more) := by
  cases Token.extends_scan comments offset cs with
  | whole _ goesOn => exact goesOn more
  | broken _ isBroken _ =>
    obtain ⟨token, mem, broken⟩ := isBroken
    rw [whole token mem] at broken
    cases broken
  | @inside front body tokens cut unclosed _ goesOn =>
    -- the literal that does not end would be a broken token
    obtain ⟨token, others, scanned, isText, _⟩ :=
      scan_doubleQuote comments (offset + byteLength front) body
    have mem : token ∈ Token.scan comments offset cs := by
      rw [cut, goesOn, scanned]
      exact List.mem_append_right _ List.mem_cons_self
    have broken : token.isBroken = true := by
      rw [isText, Token.readText, unclosed]
      rfl
    rw [whole token mem] at broken
    cases broken

/-- Where there is no room for a literal, it is refused for that. -/
theorem readTokens_doubleQuote_full (comments : Bool) (full : settings.depth ≤ stack.length)
    (offset : Nat) (tail : List Char) :
    readTokens settings label stop stack (Token.scan comments offset ('"' :: tail)) =
      ([], some (.tooDeep settings.depth, offset)) := by
  obtain ⟨token, tokens, scanned, _, start, begins⟩ := scan_doubleQuote comments offset tail
  rw [scanned, readTokens_of_error (step_tooDeep begins full), start]

/-- Where there is room for a literal, one that is broken is a flaw. -/
theorem readTokens_doubleQuote_broken (comments : Bool) (room : stack.length < settings.depth)
    {offset place : Nat} {tail : List Char} {flaw : Flaw}
    (broken : (Token.readText offset tail).1.lexeme = .broken flaw place) :
    readTokens settings label stop stack (Token.scan comments offset ('"' :: tail)) =
      ([], some (flaw, place)) := by
  obtain ⟨token, tokens, scanned, rfl, _, begins⟩ := scan_doubleQuote comments offset tail
  have failed : step settings label stack (Token.readText offset tail).1 =
      .error (flaw, place) := by
    rw [step_eq_enter begins, enter, if_neg (Nat.not_le_of_lt room), broken]
  rw [scanned, readTokens_of_error failed]

theorem readTokens_doubleQuote_unclosed (comments : Bool) (room : stack.length < settings.depth)
    {offset : Nat} {body : List Char} (unclosed : Text.unquote (offset + 1) body = .unclosed) :
    readTokens settings label stop stack (Token.scan comments offset ('"' :: body)) =
      ([], some (.unclosedText, offset)) :=
  readTokens_doubleQuote_broken comments room (by rw [Token.readText, unclosed])

theorem flawAtEnd_quote (stop start : Nat) (stack : List Pending) :
    flawAtEnd settings stop (.quote start :: stack) =
      if settings.depth ≤ (Pending.quote start :: stack).length then
        (.tooDeep settings.depth, stop)
      else (.endOfInput, stop) := rfl

/-- A reading that fails reports the flaw of its text. -/
theorem flaw_of_all_eq_error {text : String} {error : ReadError}
    (h : (read settings label text).all = .error error) :
    ∃ flaw offset, (readTokens settings label text.utf8ByteSize []
        (Token.scan settings.comments 0 text.toList)).2 = some (flaw, offset) ∧
      error = .ofFlaw label text flaw offset := by
  simp only [read, Reading.all] at h
  generalize readTokens settings label text.utf8ByteSize []
    (Token.scan settings.comments 0 text.toList) = reading at *
  obtain ⟨forms, _ | ⟨flaw, offset⟩⟩ := reading
  · cases h
  · cases h
    exact ⟨flaw, offset, rfl, rfl⟩

/-- A flaw among tokens that stay what they are stands. -/
theorem ending_of_advance {cs : List Char} {tokens : List Token} {later : List Char → List Token}
    {flaw : FlawAt} (decided : ∀ token ∈ tokens, token.isDecided = true)
    (goesOn : ∀ more,
      Token.scan settings.comments 0 (cs ++ '\n' :: more) = tokens ++ later more)
    (h : (advance settings label [] tokens).2 = .error flaw) : Ending settings label cs flaw := by
  obtain ⟨flaw, offset⟩ := flaw
  refine .decided (isOpen_of_advance decided h) fun more stop => ?_
  rw [goesOn, readTokens_append_of_error (Prod.ext rfl h)]

/-- A text with a flaw ends in one of three ways. -/
theorem ending_of_flaw {cs : List Char} {flaw : FlawAt}
    (failed : (readTokens settings label (byteLength cs) []
      (Token.scan settings.comments 0 cs)).2 = some flaw) : Ending settings label cs flaw := by
  cases Token.extends_scan settings.comments 0 cs with
  | whole allWhole goesOn =>
    rw [← List.append_nil (Token.scan _ _ _)] at failed
    cases advanced : advance settings label [] (Token.scan settings.comments 0 cs) with
    | mk nodes left =>
      cases left with
      | error flaw' =>
        rw [readTokens_append_of_error advanced] at failed
        cases failed
        have decided := fun token mem => Token.isDecided_of_whole (allWhole token mem)
        exact ending_of_advance decided goesOn (congrArg Prod.snd advanced)
      | ok left =>
        rw [readTokens_append advanced] at failed
        cases left with
        | nil => cases failed
        | cons pending left =>
          cases failed
          refine .waiting (by simp) ?_ fun more stop => ?_
          · intro bracket start items mem
            rcases bracket_of_advance (congrArg Prod.snd advanced) mem with
              ⟨_, never⟩ | ⟨token, inScan, opens, rfl⟩
            · cases never
            · obtain ⟨front, rest, cut, start⟩ := Token.opening_of_mem_scan inScan opens
              exact ⟨front, rest, cut, by rw [start, Nat.zero_add]⟩
          · rw [goesOn, readTokens_append advanced, Nat.zero_add]
  | broken decided isBroken same =>
    obtain ⟨flaw', stopped⟩ : ∃ flaw, (advance settings label [] _).2 = .error flaw :=
      advance_broken isBroken
    rw [← List.append_nil (Token.scan _ _ _),
      readTokens_append_of_error (Prod.ext rfl stopped)] at failed
    cases failed
    have goesOn (more : List Char) : Token.scan settings.comments 0 (cs ++ '\n' :: more) =
        Token.scan settings.comments 0 cs ++ [] := by rw [same, List.append_nil]
    exact ending_of_advance decided goesOn stopped
  | @inside front body tokens cut unclosed allWhole goesOn =>
    subst cut
    rw [Nat.zero_add] at unclosed goesOn
    rw [goesOn] at failed
    have goesOnLine (more : List Char) :
        Token.scan settings.comments 0 (front ++ '"' :: body ++ '\n' :: more) =
          tokens ++ Token.scan settings.comments (byteLength front)
            ('"' :: (body ++ '\n' :: more)) := by
      rw [← goesOn, List.append_assoc, List.cons_append]
    cases advanced : advance settings label [] tokens with
    | mk nodes left =>
      cases left with
      | error flaw' =>
        rw [readTokens_append_of_error advanced] at failed
        cases failed
        have decided := fun token mem => Token.isDecided_of_whole (allWhole token mem)
        exact ending_of_advance decided goesOnLine (congrArg Prod.snd advanced)
      | ok left =>
        rw [readTokens_append advanced] at failed
        by_cases room : left.length < settings.depth
        · rw [readTokens_doubleQuote_unclosed _ room unclosed] at failed
          cases failed
          refine .quoting rfl unclosed room fun tail stop => ?_
          rw [goesOn, readTokens_append advanced]
        · have full := Nat.le_of_not_lt room
          rw [readTokens_doubleQuote_full _ full] at failed
          cases failed
          refine .decided rfl fun more stop => ?_
          rw [goesOnLine, readTokens_append advanced, readTokens_doubleQuote_full _ full]

end Reading

end Sexpr
