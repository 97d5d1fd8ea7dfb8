/-
What the reader has decided about a text that goes on.

A text can be cut behind any of its whole tokens, and both sides keep their tokens
(`Token.scan_cut`). So the forms that are read from a text make up a text of their own, the
beginning of the text (`Reading.forms_cut`), and a flaw that is not at the end is found again,
with the same forms before it, when text follows on a new line (`Reading.readTokens_line`).
A flaw stands between two characters, and what it is about follows there
(`Reading.stands_of_flaw`). Main statement: `read_line_stands`.
-/

import Sexpr.Proofs.Reading.Ending

namespace Sexpr

open Grammar
open Text (byteLength byteLength_cons byteLength_append)

namespace Token

/-! ### Where tokens stand -/

/-- A text can be cut behind whole tokens, and another text put in place of the rest, if a
word may end before it too. -/
theorem scan_cut {comments : Bool} {offset : Nat} {cs : List Char} {tokens others : List Token}
    (scanned : scan comments offset cs = tokens ++ others)
    (whole : ∀ token ∈ tokens, token.isBroken = false) :
    ∃ front rest, cs = front ++ rest ∧ ∀ rest', (Boundary rest → Boundary rest') →
      scan comments offset (front ++ rest') =
        tokens ++ scan comments (offset + byteLength front) rest' := by
  induction tokens generalizing offset cs with
  | nil => exact ⟨[], cs, rfl, fun _ _ => rfl⟩
  | cons token tokens ih =>
    obtain ⟨notBroken, allWhole⟩ := List.forall_mem_cons.mp whole
    rcases scan_cases comments offset cs with
      ⟨_, empty⟩ | ⟨first, broken, single⟩ | ⟨gap, text, first, rest, rfl, trivia, lexed, _, next⟩
    · rw [empty] at scanned
      cases scanned
    · rw [single] at scanned
      obtain rfl := (List.cons.inj scanned).1
      rw [broken] at notBroken
      cases notBroken
    · rw [next, List.cons_append] at scanned
      obtain ⟨rfl, behind⟩ := List.cons.inj scanned
      obtain ⟨front, rest, rfl, goesOn⟩ := ih behind allWhole
      obtain ⟨c, piece, rfl, stop, lexed⟩ := lexed.before
      refine ⟨gap ++ c :: (piece ++ front), rest, by simp, fun rest' ends => ?_⟩
      have sameHead : Boundary (front ++ rest) → Boundary (front ++ rest') := by
        cases front with
        | nil => exact ends
        | cons d front => exact id
      have further : first.stop + byteLength front =
          offset + byteLength (gap ++ c :: (piece ++ front)) := by
        rw [stop, byteLength_append, byteLength_cons, byteLength_cons, byteLength_append]
        omega
      rw [← further, List.cons_append, ← goesOn rest' ends, ← scan_lexed (lexed _ sameHead),
        ← scan_trivia (trivia.before (c :: (piece ++ (front ++ rest'))) id)]
      simp only [List.append_assoc, List.cons_append]

/-! ### What tokens are about -/

/-- The flaw of a broken word is about the word. -/
theorem flaw_of_wordLexeme {offset place : Nat} {word : List Char} {flaw : Flaw}
    (h : wordLexeme offset word = .broken flaw place) :
    (flaw = .outOfRange (String.ofList word) ∨ flaw = .invalidToken (String.ofList word)) ∧
      place = offset := by
  unfold wordLexeme at h
  repeat' split at h
  all_goals cases h
  all_goals simp

/-- A token is broken because it is a literal without an end, a literal with an escape that
is unknown, or a word that stands for nothing. -/
theorem flaw_of_next {offset place : Nat} {c : Char} {cs : List Char} {flaw : Flaw}
    (h : (next offset c cs).1.lexeme = .broken flaw place) :
    flaw = .unclosedText ∨
    (∃ letter, c = '"' ∧ Text.unquote (offset + 1) cs = .unknown place letter ∧
      flaw = .unknownEscape letter) ∨
    ∃ word rest, c :: cs = word ++ rest ∧ place = offset ∧
      (flaw = .outOfRange (String.ofList word) ∨ flaw = .invalidToken (String.ofList word)) := by
  unfold next at h
  split at h
  case h_6 =>
    unfold readText at h
    split at h
    · cases h
    · cases h
      exact .inl rfl
    · rename_i unknown
      cases h
      exact .inr (.inl ⟨_, rfl, unknown, rfl⟩)
  case h_7 =>
    obtain ⟨isFlaw, rfl⟩ := flaw_of_wordLexeme h
    exact .inr (.inr ⟨_, _, (List.takeWhile_append_dropWhile ..).symm, rfl, isFlaw⟩)
  all_goals cases h

/-- What is unclosed and no bracket is a literal. -/
theorem unclosed_of_next {offset place : Nat} {c : Char} {cs : List Char}
    (h : (next offset c cs).1.lexeme = .broken .unclosedText place) :
    c = '"' ∧ place = offset ∧ Text.unquote (offset + 1) cs = .unclosed := by
  unfold next at h
  split at h
  case h_6 =>
    unfold readText at h
    split at h
    · cases h
    · rename_i unclosed
      cases h
      exact ⟨rfl, rfl, unclosed⟩
    · cases h
  case h_7 =>
    obtain ⟨isFlaw, _⟩ := flaw_of_wordLexeme h
    rcases isFlaw with isFlaw | isFlaw <;> cases isFlaw
  all_goals cases h

/-- A broken token is no form, or it is a literal that is not closed. -/
theorem kind_of_next {offset place : Nat} {c : Char} {cs : List Char} {flaw : Flaw}
    (h : (next offset c cs).1.lexeme = .broken flaw place) :
    flaw.kind = .expectedExpression ∨ flaw.kind = .missingClosing := by
  rcases flaw_of_next h with rfl | ⟨_, _, _, rfl⟩ | ⟨_, _, _, _, rfl | rfl⟩
  · exact .inr rfl
  all_goals exact .inl rfl

/-- What the flaw of a broken token is about, if anything, stands at the offset of the flaw. -/
theorem found_of_next {offset place : Nat} {c : Char} {cs : List Char} {flaw : Flaw}
    {found : String} (h : (next offset c cs).1.lexeme = .broken flaw place)
    (about : flaw.found? = some found) :
    ∃ front rest, c :: cs = front ++ (found.toList ++ rest) ∧
      place = offset + byteLength front := by
  rcases flaw_of_next h with rfl | ⟨letter, rfl, unknown, rfl⟩ | ⟨word, rest, cut, rfl, isFlaw⟩
  · cases about
  · obtain ⟨body, _, rest, _, rfl, _, rfl⟩ := Text.quotes_of_unknown unknown
    cases about
    refine ⟨'"' :: body, rest, by simp, ?_⟩
    have one : Char.utf8Size '"' = 1 := by decide
    rw [byteLength_cons, one, Nat.add_assoc]
  · have isWord : flaw.found? = some (String.ofList word) := by
      rcases isFlaw with rfl | rfl <;> rfl
    obtain rfl := Option.some.inj (about.symm.trans isWord)
    exact ⟨[], rest, by rw [cut, String.toList_ofList, List.nil_append], rfl⟩

end Token

/-! ### Flaws and the text -/

/-- The flaw stands between two characters of the text, and what it is about follows. -/
def Flaw.Stands (text : List Char) (flaw : Flaw) (offset : Nat) : Prop :=
  ∃ front rest, text = front ++ rest ∧ offset = byteLength front ∧
    ∀ found, flaw.found? = some found → found.toList <+: rest

theorem Flaw.stands_of_found?_eq_none {front rest : List Char} {flaw : Flaw}
    (h : flaw.found? = none) : flaw.Stands (front ++ rest) (byteLength front) := by
  refine ⟨front, rest, rfl, rfl, fun found about => ?_⟩
  rw [h] at about
  cases about

theorem Flaw.stands_at_end {text : List Char} {flaw : Flaw} (h : flaw.found? = none) :
    flaw.Stands text (byteLength text) := by
  have stands : flaw.Stands (text ++ []) (byteLength text) := stands_of_found?_eq_none h
  rwa [List.append_nil] at stands

namespace Reading

variable {settings : ReadSettings} {label : String} {stop : Nat} {stack : List Pending}

/-- Tokens that are taken one after the other are whole. -/
theorem whole_of_advance {tokens : List Token} {nodes : List Node} {left : List Pending}
    (h : advance settings label stack tokens = (nodes, .ok left)) :
    ∀ token ∈ tokens, token.isBroken = false := by
  intro token mem
  rw [Bool.eq_false_iff]
  intro broken
  obtain ⟨flaw, failed⟩ : ∃ flaw, (advance settings label stack tokens).2 = .error flaw :=
    advance_broken ⟨token, mem, broken⟩
  rw [h] at failed
  cases failed

/-- A flaw is found at a token that is refused, or at the end of the text. -/
theorem flaw_cases {tokens : List Token} {nodes : List Node} {flaw : FlawAt}
    (h : readTokens settings label stop stack tokens = (nodes, some flaw)) :
    (∃ first token others left, tokens = first ++ token :: others ∧
      advance settings label stack first = (nodes, .ok left) ∧
      Refused settings left token flaw) ∨
    ∃ left, advance settings label stack tokens = (nodes, .ok left) ∧ left ≠ [] ∧
      flaw = flawAtEnd settings stop left := by
  induction tokens generalizing stack nodes with
  | nil =>
    right
    cases stack with
    | nil => cases h
    | cons pending stack =>
      cases h
      exact ⟨_, rfl, by simp, rfl⟩
  | cons token tokens ih =>
    cases stepped : step settings label stack token with
    | error refused =>
      rw [readTokens_of_error stepped] at h
      cases h
      exact .inl ⟨[], token, tokens, stack, rfl, rfl, refused_of_step stepped⟩
    | ok progress =>
      rw [readTokens_of_step stepped, resume_eq] at h
      obtain ⟨rfl, flawed⟩ := Prod.mk.inj h
      rcases ih (Prod.ext rfl flawed) with
        ⟨first, refused, others, left, rfl, advanced, why⟩ | ⟨left, advanced, ends⟩
      · refine .inl ⟨token :: first, refused, others, left, rfl, ?_, why⟩
        rw [advance_of_step stepped, advanced]
      · refine .inr ⟨left, ?_, ends⟩
        rw [advance_of_step stepped, advanced]

/-- A flaw is found at a token that is refused, behind a text whose tokens are whole, or at
the end of the text. -/
theorem scan_flaw_cases {comments : Bool} {cs : List Char} {nodes : List Node} {flaw : FlawAt}
    (h : readTokens settings label stop [] (Token.scan comments 0 cs) = (nodes, some flaw)) :
    (∃ front gap c rest left, cs = front ++ (gap ++ c :: rest) ∧
      Trivia comments gap (c :: rest) ∧
      advance settings label [] (Token.scan comments 0 front) = (nodes, .ok left) ∧
      Refused settings left (Token.next (byteLength (front ++ gap)) c rest).1 flaw) ∨
    ∃ left, advance settings label [] (Token.scan comments 0 cs) = (nodes, .ok left) ∧
      left ≠ [] ∧ flaw = flawAtEnd settings stop left := by
  refine (flaw_cases h).imp_left ?_
  rintro ⟨tokens, token, others, left, scanned, advanced, why⟩
  obtain ⟨front, rest, rfl, goesOn⟩ := Token.scan_cut scanned (whole_of_advance advanced)
  have alone := goesOn [] fun _ => by simp [Boundary]
  rw [List.append_nil, Token.scan_nil, List.append_nil] at alone
  have behind := (goesOn rest id).symm.trans scanned
  obtain ⟨gap, c, rest, rfl, trivia, _, rfl⟩ := Token.head_scan (List.append_cancel_left behind)
  rw [Nat.zero_add, ← byteLength_append] at why
  exact ⟨front, gap, c, rest, left, rfl, trivia, alone ▸ advanced, why⟩

/-- A flaw stands in the text. -/
theorem stands_of_flaw {comments : Bool} {cs : List Char} {nodes : List Node} {flaw : Flaw}
    {offset : Nat}
    (h : readTokens settings label (byteLength cs) [] (Token.scan comments 0 cs) =
      (nodes, some (flaw, offset))) : flaw.Stands cs offset := by
  rcases scan_flaw_cases h with
    ⟨front, gap, c, rest, left, rfl, _, _, why⟩ | ⟨left, taken, notEmpty, isFlaw⟩
  · rw [← List.append_assoc]
    -- a closing bracket is all that is found of it
    have atBracket {bracket : Bracket} {flaw : Flaw}
        (closes : (Token.next (byteLength (front ++ gap)) c rest).1.lexeme = .closing bracket)
        (isFound : flaw.found? = some (String.singleton bracket.closing)) :
        flaw.Stands (front ++ gap ++ c :: rest) (byteLength (front ++ gap)) := by
      obtain ⟨rfl, _⟩ := Token.closing_of_next closes
      refine ⟨front ++ gap, _, rfl, rfl, fun found about => ⟨rest, ?_⟩⟩
      obtain rfl := Option.some.inj (isFound.symm.trans about)
      simp
    cases why with
    | tooDeep _ =>
      rw [Token.start_next]
      exact Flaw.stands_of_found?_eq_none rfl
    | unopened closes _ =>
      rw [Token.start_next]
      exact atBracket closes rfl
    | mismatched closes _ _ =>
      rw [Token.start_next]
      exact atBracket closes rfl
    | broken broken _ =>
      cases about : flaw.found? with
      | some found =>
        obtain ⟨piece, behind, cut, rfl⟩ := Token.found_of_next broken about
        refine ⟨front ++ gap ++ piece, found.toList ++ behind, by simp [cut],
          (byteLength_append _ _).symm, fun found' about' => ?_⟩
        obtain rfl := Option.some.inj (about.symm.trans about')
        exact List.prefix_append _ _
      | none =>
        rcases Token.flaw_of_next broken with
          rfl | ⟨_, _, _, rfl⟩ | ⟨_, _, _, _, rfl | rfl⟩
        · obtain ⟨_, rfl, _⟩ := Token.unclosed_of_next broken
          exact Flaw.stands_of_found?_eq_none rfl
        all_goals cases about
  · match left with
    | [] => exact absurd rfl notEmpty
    | .bracket _ _ _ :: _ =>
      cases isFlaw
      rcases bracket_of_advance (congrArg Prod.snd taken) List.mem_cons_self with
        ⟨_, never⟩ | ⟨opening, mem, opens, rfl⟩
      · cases never
      · obtain ⟨front, rest, rfl, start⟩ := Token.opening_of_mem_scan mem opens
        rw [start, Nat.zero_add]
        exact Flaw.stands_of_found?_eq_none rfl
    | .quote _ :: _ =>
      rw [flawAtEnd_quote] at isFlaw
      split at isFlaw
      · cases isFlaw
        exact Flaw.stands_at_end rfl
      · cases isFlaw
        exact Flaw.stands_at_end rfl

/-! ### Forms and flaws of a text that goes on -/

/-- Tokens finish their forms before what is left open is begun. -/
theorem finished_of_readTokens (tokens : List Token) :
    (readTokens settings label stop stack tokens).1 = [] ∨
      ∃ first others, tokens = first ++ others ∧ advance settings label stack first =
        ((readTokens settings label stop stack tokens).1, .ok []) := by
  induction tokens generalizing stack with
  | nil => cases stack <;> exact .inl rfl
  | cons token tokens ih =>
    cases stepped : step settings label stack token with
    | error flaw => exact .inl (by rw [readTokens_of_error stepped])
    | ok progress =>
      rw [readTokens_of_step stepped, resume_eq]
      rcases @ih progress.left with none | ⟨first, others, rfl, advanced⟩
      · rw [none, List.append_nil]
        cases progress with
        | inside stack' => exact .inl rfl
        | done node =>
          refine .inr ⟨[token], tokens, rfl, ?_⟩
          rw [advance_of_step stepped]
          rfl
      · refine .inr ⟨token :: first, others, rfl, ?_⟩
        rw [advance_of_step stepped, advanced]

/-- The forms that are read from a text make up a text of their own, and they are read first
whatever follows, if a word may end before it. -/
theorem forms_cut (comments : Bool) (cs : List Char) :
    ∃ front rest, cs = front ++ rest ∧ ∀ rest', (Boundary rest → Boundary rest') →
      ∀ stop', readTokens settings label stop' [] (Token.scan comments 0 (front ++ rest')) =
        let behind := readTokens settings label stop' []
          (Token.scan comments (byteLength front) rest')
        ((readTokens settings label stop [] (Token.scan comments 0 cs)).1 ++ behind.1,
          behind.2) := by
  rcases @finished_of_readTokens settings label stop [] (Token.scan comments 0 cs) with
    none | ⟨tokens, others, scanned, advanced⟩
  · refine ⟨[], cs, rfl, fun rest' _ stop' => ?_⟩
    rw [none]
    rfl
  · obtain ⟨front, rest, cut, goesOn⟩ := Token.scan_cut scanned (whole_of_advance advanced)
    refine ⟨front, rest, cut, fun rest' ends stop' => ?_⟩
    rw [goesOn rest' ends, readTokens_append advanced, Nat.zero_add]

/-- At the end of a text a bracket is open, or the flaw is that the text ends. -/
theorem flawAtEnd_cases (settings : ReadSettings) (stop : Nat) (stack : List Pending) :
    (flawAtEnd settings stop stack).1.kind = .missingClosing ∨
      (flawAtEnd settings stop stack).2 = stop := by
  unfold flawAtEnd
  split
  · exact .inl rfl
  · split
    · exact .inr rfl
    · exact .inr rfl

/-- A flaw is found again, and the same forms before it, when text follows on a new line,
unless something is open where the text ends. -/
theorem readTokens_line {cs : List Char} {nodes : List Node} {flaw : Flaw} {offset : Nat}
    (read : readTokens settings label (byteLength cs) [] (Token.scan settings.comments 0 cs) =
      (nodes, some (flaw, offset)))
    (closed : flaw.kind ≠ .missingClosing) (within : offset < byteLength cs) (more : List Char)
    (stop' : Nat) :
    readTokens settings label stop' [] (Token.scan settings.comments 0 (cs ++ '\n' :: more)) =
      (nodes, some (flaw, offset)) := by
  -- tokens that are refused are refused again, whatever stands behind them
  have again {tokens others later : List Token} {forms : List Node} {refused : FlawAt}
      (before : Token.scan settings.comments 0 cs = tokens ++ others)
      (after : Token.scan settings.comments 0 (cs ++ '\n' :: more) = tokens ++ later)
      (stops : advance settings label [] tokens = (forms, .error refused)) :
      readTokens settings label stop' [] (Token.scan settings.comments 0 (cs ++ '\n' :: more)) =
        (nodes, some (flaw, offset)) := by
    rw [before, readTokens_append_of_error stops] at read
    cases read
    rw [after, readTokens_append_of_error stops]
  cases Token.extends_scan settings.comments 0 cs with
  | whole _ goesOn =>
    cases advanced : advance settings label [] (Token.scan settings.comments 0 cs) with
    | mk forms left =>
      cases left with
      | error refused => exact again (List.append_nil _).symm (goesOn more) advanced
      | ok left =>
        -- nothing is left open, for the flaw stands before the end
        rw [← List.append_nil (Token.scan _ _ _), readTokens_append advanced] at read
        cases left with
        | nil => cases read
        | cons pending left =>
          have atEnd : flawAtEnd settings (byteLength cs) (pending :: left) = (flaw, offset) :=
            Option.some.inj (Prod.mk.inj read).2
          rcases flawAtEnd_cases settings (byteLength cs) (pending :: left) with isOpen | ends
          · rw [atEnd] at isOpen
            exact absurd isOpen closed
          · rw [atEnd] at ends
            exact absurd ends (Nat.ne_of_lt within)
  | broken _ isBroken same =>
    obtain ⟨refused, stops⟩ : ∃ flaw, (advance settings label [] _).2 = .error flaw :=
      advance_broken isBroken
    exact again (List.append_nil _).symm ((same more).trans (List.append_nil _).symm)
      (Prod.ext rfl stops)
  | @inside front body tokens cut unclosed _ goesOn =>
    have line : cs ++ '\n' :: more = front ++ '"' :: (body ++ '\n' :: more) := by simp [cut]
    rw [Nat.zero_add] at unclosed goesOn
    cases advanced : advance settings label [] tokens with
    | mk forms left =>
      cases left with
      | error refused => exact again (cut ▸ goesOn body) (line ▸ goesOn _) advanced
      | ok left =>
        rw [cut, goesOn, readTokens_append advanced] at read
        rw [line, goesOn, readTokens_append advanced]
        by_cases room : left.length < settings.depth
        · rw [readTokens_doubleQuote_unclosed _ room unclosed] at read
          cases read
          exact absurd rfl closed
        · have full := Nat.le_of_not_lt room
          rw [readTokens_doubleQuote_full _ full] at read ⊢
          exact read

end Reading

/-- The bytes that a flaw covers are in the text, if the flaw stands before its end. -/
theorem Reading.width_le {settings : ReadSettings} {label text : String} {nodes : List Node}
    {flaw : Flaw} {offset : Nat}
    (read : Reading.readTokens settings label text.utf8ByteSize []
      (Token.scan settings.comments 0 text.toList) = (nodes, some (flaw, offset)))
    (within : offset < text.utf8ByteSize) : offset + flaw.width ≤ text.utf8ByteSize := by
  unfold Flaw.width
  split
  · rename_i found about
    rw [← Text.byteLength_toList] at read
    obtain ⟨front, _, cut, start, follows⟩ := Reading.stands_of_flaw read
    obtain ⟨rest, rfl⟩ := follows found about
    have size : text.utf8ByteSize = offset + (found.utf8ByteSize + byteLength rest) := by
      rw [← Text.byteLength_toList text, cut, byteLength_append, byteLength_append,
        Text.byteLength_toList, start]
    omega
  · exact within

/-- When text follows on a new line, the forms that were read come first, where they were. A
flaw that stands before the end of the text, other than a bracket or a literal that is open,
comes behind the same forms again, with the same kind, wording, place and piece of text. -/
theorem read_line_stands (settings : ReadSettings) (label text more : String) :
    let before := read settings label text
    let after := read settings label (text ++ "\n" ++ more)
    before.forms <+: after.forms ∧
    ∀ error, before.error = some error → error.kind ≠ .missingClosing →
      (∀ span, error.place.span = some span → span.start < text.utf8ByteSize) →
      after.forms = before.forms ∧ ∃ again, after.error = some again ∧
        again.kind = error.kind ∧ again.detail = error.detail ∧
        again.message = error.message ∧ again.found = error.found ∧ again.place = error.place := by
  have line : (text ++ "\n" ++ more).toList = text.toList ++ '\n' :: more.toList := by simp
  constructor
  · obtain ⟨front, rest, cut, goesOn⟩ := @Reading.forms_cut settings label text.utf8ByteSize
      settings.comments text.toList
    have later := goesOn _ fun boundary => boundary.line more.toList
    rw [← List.append_assoc, ← cut, ← line] at later
    simp only [read, later]
    exact List.prefix_append _ _
  · intro error failed closed within
    simp only [read] at failed ⊢
    generalize reading : Reading.readTokens settings label text.utf8ByteSize []
      (Token.scan settings.comments 0 text.toList) = r at failed ⊢
    obtain ⟨nodes, _ | ⟨flaw, offset⟩⟩ := r
    · cases failed
    · cases failed
      have within : offset < text.utf8ByteSize := within _ rfl
      have covered := Reading.width_le reading within
      rw [← Text.byteLength_toList] at reading within
      have later := Reading.readTokens_line reading closed within more.toList
        (text ++ "\n" ++ more).utf8ByteSize
      rw [line, later]
      refine ⟨rfl, _, rfl, rfl, rfl, rfl, rfl, ?_⟩
      have longer : text.utf8ByteSize ≤ (text ++ "\n" ++ more).utf8ByteSize := by
        rw [← Text.byteLength_toList, ← Text.byteLength_toList, line, byteLength_append]
        exact Nat.le_add_right _ _
      simp only [ReadError.ofFlaw]
      rw [Nat.min_eq_left (Nat.le_trans covered longer), Nat.min_eq_left covered]

/-- A closing bracket that nothing has opened is reported again, whatever is open on the next
line. -/
theorem unopened_stands :
    let error := ReadError.ofFlaw "in" "1 ) 2" (.unopened .round) 2
    let after := read {} "in" ("1 ) 2" ++ "\n" ++ "(3")
    error.kind ≠ .missingClosing ∧
      (∀ span, error.place.span = some span → span.start < "1 ) 2".utf8ByteSize) ∧
      after.forms = (read {} "in" "1 ) 2").forms ∧ ∃ again, after.error = some again ∧
        again.kind = error.kind ∧ again.detail = error.detail ∧
        again.message = error.message ∧ again.found = error.found ∧ again.place = error.place := by
  intro error after
  have failed : (read {} "in" "1 ) 2").error = some error := by decide +kernel
  have closed : error.kind ≠ .missingClosing := by decide
  have within : ∀ span, error.place.span = some span → span.start < "1 ) 2".utf8ByteSize := by
    rintro span ⟨⟩
    decide
  exact ⟨closed, within, (read_line_stands {} "in" "1 ) 2" "(3").2 error failed closed within⟩

end Sexpr
