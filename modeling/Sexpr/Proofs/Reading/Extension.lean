/-
Tokens of a text that goes on.

A line feed ends every word, and neither a literal between double quotes nor a flaw depends
on what follows it. So the tokens of a text stay what they are when text follows on a new
line, unless the text ends inside a literal: `Token.extends_scan` tells the three ways apart
in which a text can go on. Where the text ends inside a literal, it may end inside an escape,
and then every new line breaks it (`Text.quotes_of_unclosed`,
`Text.Quotes.unquote_unknown`).
-/

import Sexpr.Proofs.Reading.Composition
import Sexpr.Proofs.Text.Slice

namespace Sexpr

open Grammar
open Text (byteLength byteLength_nil byteLength_cons byteLength_append)

namespace Text

/-! ### Literals that do not end -/

/-- A character in front changes only what is closed. -/
theorem Quotation.eq_of_push {c : Char} {q r : Quotation} (h : q.push c = r)
    (notClosed : ∀ text stop rest, r ≠ .closed text stop rest) : q = r := by
  cases q with
  | closed text stop rest => exact absurd h.symm (notClosed _ _ _)
  | unclosed => exact h
  | unknown offset letter => exact h

/-- A literal that ends too early ends between two characters or inside an escape. -/
theorem quotes_of_unclosed {offset : Nat} {cs : List Char} (h : unquote offset cs = .unclosed) :
    ∃ body text, Quotes body text ∧ (cs = body ∨ cs = body ++ ['\\']) := by
  fun_induction unquote offset cs with
  | case1 => exact ⟨[], [], .nil, .inl rfl⟩
  | case2 => cases h
  | case3 => exact ⟨[], [], .nil, .inr rfl⟩
  | case4 offset letter rest c meaning ih =>
    obtain ⟨body, text, quotes, ends⟩ := ih (Quotation.eq_of_push h (by simp))
    refine ⟨'\\' :: letter :: body, c :: text, .escape meaning quotes, ?_⟩
    rcases ends with rfl | rfl
    · exact .inl rfl
    · exact .inr rfl
  | case5 => cases h
  | case6 offset c rest notQuote notLast notEscape ih =>
    obtain ⟨body, text, quotes, ends⟩ := ih (Quotation.eq_of_push h (by simp))
    have notBackslash : c ≠ '\\' := by
      rintro rfl
      cases rest with
      | nil => exact notLast rfl rfl
      | cons b rest => exact notEscape _ _ rfl rfl
    refine ⟨c :: body, c :: text, .plain notQuote notBackslash quotes, ?_⟩
    rcases ends with rfl | rfl
    · exact .inl rfl
    · exact .inr rfl

/-- A letter without meaning behind a backslash is a flaw, whatever follows. -/
theorem Quotes.unquote_unknown {body text : List Char} (h : Quotes body text) {letter : Char}
    (unknown : unescapeLetter? letter = none) (offset : Nat) (rest : List Char) :
    Text.unquote offset (body ++ '\\' :: letter :: rest)
      = .unknown (offset + byteLength body) letter := by
  induction h generalizing offset with
  | nil => simp [Text.unquote, unknown]
  | @plain c body text notQuote notBackslash _ ih =>
    rw [List.cons_append, Text.unquote.eq_5 _ _ _ notQuote (by grind) (by grind), ih]
    simp only [Quotation.push, byteLength_cons, Nat.add_assoc]
  | @escape letter' c body text meaning _ ih =>
    have one : Char.utf8Size '\\' = 1 := by decide
    simp only [List.cons_append, Text.unquote, meaning, ih, Quotation.push, byteLength_cons, one,
      Nat.add_assoc]

theorem quotes_of_unknown {offset backslash : Nat} {letter : Char} {cs : List Char}
    (h : unquote offset cs = .unknown backslash letter) :
    ∃ body text rest, Quotes body text ∧ cs = body ++ '\\' :: letter :: rest ∧
      unescapeLetter? letter = none ∧ backslash = offset + byteLength body := by
  fun_induction unquote offset cs with
  | case1 => cases h
  | case2 => cases h
  | case3 => cases h
  | case4 offset letter' rest' c meaning ih =>
    obtain ⟨body, text, rest, quotes, rfl, unknown, rfl⟩ := ih (Quotation.eq_of_push h (by simp))
    have one : Char.utf8Size '\\' = 1 := by decide
    refine ⟨'\\' :: letter' :: body, c :: text, rest, .escape meaning quotes, rfl, unknown, ?_⟩
    simp only [byteLength_cons, one, Nat.add_assoc]
  | case5 offset letter' rest' unknown =>
    cases h
    exact ⟨[], [], rest', .nil, rfl, unknown, rfl⟩
  | case6 offset c rest' notQuote notLast notEscape ih =>
    obtain ⟨body, text, rest, quotes, rfl, unknown, rfl⟩ := ih (Quotation.eq_of_push h (by simp))
    have notBackslash : c ≠ '\\' := by
      rintro rfl
      cases body with
      | nil => exact notEscape _ _ rfl rfl
      | cons b body => exact notEscape _ _ rfl rfl
    refine ⟨c :: body, c :: text, rest, .plain notQuote notBackslash quotes, rfl, unknown, ?_⟩
    simp only [byteLength_cons, Nat.add_assoc]

end Text

/-! ### Flaws that more text may repair -/

/-- More text may repair the flaw. -/
def Flaw.isOpen : Flaw → Bool
  | .endOfInput | .unclosed _ | .unclosedText => true
  | _ => false

namespace Token

/-- The token is whole, or it is broken whatever follows. -/
def isDecided (t : Token) : Bool :=
  match t.lexeme with
  | .broken flaw _ => !flaw.isOpen
  | _ => true

theorem isDecided_of_whole {t : Token} (h : t.isBroken = false) : t.isDecided = true := by
  obtain ⟨lexeme, start, stop⟩ := t
  cases lexeme with
  | broken flaw offset => cases h
  | _ => rfl

theorem isDecided_readWord (offset : Nat) (cs : List Char) :
    (readWord offset cs).1.isDecided = true := by
  simp only [readWord, wordLexeme]
  repeat' split
  all_goals rfl

/-- A line feed ends a word. -/
theorem readWord_line (offset : Nat) (cs more : List Char) :
    (readWord offset (cs ++ '\n' :: more)).1 = (readWord offset cs).1 := by
  have taken : (cs ++ '\n' :: more).takeWhile (!isDelimiter ·) = cs.takeWhile (!isDelimiter ·) := by
    have stops : ('\n' :: more).takeWhile (!isDelimiter ·) = [] :=
      List.takeWhile_cons_of_neg (by decide)
    rw [List.takeWhile_append, stops, List.append_nil]
    split
    · rename_i all
      exact (List.takeWhile_prefix _).eq_of_length all |>.symm
    · rfl
  rw [readWord, readWord, taken]

/-- Only a literal that does not end is undecided; any other stays what it is. -/
theorem readText_cases (offset : Nat) (cs : List Char) :
    (readText offset cs).1.isDecided = true ∧
      (∀ more, (readText offset (cs ++ more)).1 = (readText offset cs).1) ∨
    Text.unquote (offset + 1) cs = .unclosed := by
  cases read : Text.unquote (offset + 1) cs with
  | closed text stop rest =>
    obtain ⟨body, rfl, quotes, _⟩ := Text.quotes_of_unquote read
    left
    rw [readText_append quotes]
    refine ⟨rfl, fun more => ?_⟩
    rw [List.append_assoc, List.cons_append, readText_append quotes]
  | unclosed => exact .inr rfl
  | unknown backslash letter =>
    obtain ⟨body, text, rest, quotes, rfl, unknown, rfl⟩ := Text.quotes_of_unknown read
    refine .inl ⟨?_, fun more => ?_⟩
    · rw [readText, read]
      rfl
    · simp only [readText, List.append_assoc, List.cons_append, quotes.unquote_unknown unknown]

/-- A token at the front of a text stays what it is when text follows on a new line, unless
it is a literal that does not end. -/
theorem next_cases (offset : Nat) (c : Char) (cs : List Char) :
    (next offset c cs).1.isDecided = true ∧
      (∀ more, (next offset c (cs ++ '\n' :: more)).1 = (next offset c cs).1) ∨
    c = '"' ∧ Text.unquote (offset + 1) cs = .unclosed := by
  by_cases isQuote : c = '"'
  · subst isQuote
    rcases readText_cases offset cs with ⟨decided, same⟩ | unclosed
    · exact .inl ⟨decided, fun more => same _⟩
    · exact .inr ⟨rfl, unclosed⟩
  · left
    unfold next
    split
    case h_6 => exact absurd rfl isQuote
    case h_7 => exact ⟨isDecided_readWord offset (c :: cs), readWord_line offset (c :: cs)⟩
    all_goals exact ⟨rfl, fun _ => rfl⟩

/-! ### Where text begins -/

theorem skipTrivia_of_begins {comments : Bool} {c : Char} (h : Begins comments c) (offset : Nat)
    (cs : List Char) : skipTrivia comments false offset (c :: cs) = (offset, c :: cs) := by
  obtain ⟨solid, noComment⟩ := h
  rw [skipTrivia, if_neg (by simp [solid]), if_neg (by simpa using noComment)]

/-- The scanner stops where text begins. -/
theorem begins_of_skipTrivia {comments inside : Bool} {offset start : Nat} {c : Char}
    {cs rest : List Char} (h : skipTrivia comments inside offset cs = (start, c :: rest)) :
    Begins comments c := by
  fun_induction skipTrivia comments inside offset cs with
  | case1 => cases h
  | case2 _ _ _ ih => exact ih h
  | case3 _ _ _ _ ih => exact ih h
  | case4 _ _ _ _ _ ih => exact ih h
  | case5 offset c cs notBlank noComment =>
    cases h
    exact ⟨by simpa using notBlank, by simpa using noComment⟩

end Token

/-! ### Tokens of a text that goes on -/

/-- What is said of a token at the front of a text holds in front of another text, if a word
may end there too. -/
theorem Grammar.Lexed.before {offset : Nat} {text rest : List Char} {token : Token}
    (h : Lexed offset text token rest) :
    ∃ c piece, text = c :: (piece ++ rest) ∧ token.stop = offset + byteLength (c :: piece) ∧
      ∀ rest', (Boundary rest → Boundary rest') →
        Lexed offset (c :: (piece ++ rest')) token rest' := by
  have bracketSize (bracket : Bracket) : bracket.opening.utf8Size = 1 ∧
      bracket.closing.utf8Size = 1 := by cases bracket <;> decide
  cases h with
  | opening bracket =>
    refine ⟨_, [], rfl, ?_, fun rest' _ => .opening bracket rest'⟩
    rw [byteLength_cons, (bracketSize bracket).1, byteLength_nil]
  | closing bracket =>
    refine ⟨_, [], rfl, ?_, fun rest' _ => .closing bracket rest'⟩
    rw [byteLength_cons, (bracketSize bracket).2, byteLength_nil]
  | quote => exact ⟨_, [], rfl, rfl, fun rest' _ => .quote rest'⟩
  | @word word _ leaf isWord boundary =>
    obtain ⟨c, piece, rfl⟩ := List.exists_cons_of_ne_nil isWord.ne_nil
    exact ⟨c, piece, rfl, rfl, fun rest' ends => .word isWord (ends boundary)⟩
  | @text body value _ quotes =>
    refine ⟨'"', body ++ ['"'], by simp, rfl, fun rest' _ => ?_⟩
    rw [List.append_assoc, List.singleton_append]
    exact .text rest' quotes

theorem Grammar.Lexed.opening_inv {offset : Nat} {cs rest : List Char} {token : Token}
    {bracket : Bracket} (h : Lexed offset cs token rest)
    (opens : token.lexeme = .opening bracket) :
    cs = bracket.opening :: rest ∧ token.start = offset := by
  cases h with
  | opening _ _ =>
    cases opens
    exact ⟨rfl, rfl⟩
  | _ => cases opens

theorem Grammar.Lexed.closing_inv {offset : Nat} {cs rest : List Char} {token : Token}
    {bracket : Bracket} (h : Lexed offset cs token rest)
    (closes : token.lexeme = .closing bracket) :
    cs = bracket.closing :: rest ∧ token.start = offset := by
  cases h with
  | closing _ _ =>
    cases closes
    exact ⟨rfl, rfl⟩
  | _ => cases closes

namespace Token

/-- A token begins where its text does. -/
theorem start_next (offset : Nat) (c : Char) (cs : List Char) :
    (next offset c cs).1.start = offset := by
  unfold next
  split
  case h_6 =>
    unfold readText
    split <;> rfl
  all_goals rfl

/-- The first token is what the scanner takes behind the trivia at the front of a text. -/
theorem head_scan {comments : Bool} {offset : Nat} {cs : List Char} {token : Token}
    {others : List Token} (scanned : scan comments offset cs = token :: others) :
    ∃ gap c rest, cs = gap ++ c :: rest ∧ Trivia comments gap (c :: rest) ∧ Begins comments c ∧
      token = (next (offset + byteLength gap) c rest).1 := by
  obtain ⟨gap, cut, shifted, skipped⟩ := skipped_skipTrivia comments false offset cs
  rw [scan_eq] at scanned
  cases skip : skipTrivia comments false offset cs with
  | mk start front =>
    simp only [skip] at cut shifted skipped scanned
    subst cut shifted
    cases front with
    | nil => cases scanned
    | cons c rest =>
      refine ⟨gap, c, rest, rfl, skipped, begins_of_skipTrivia skip, ?_⟩
      dsimp only at scanned
      split at scanned
      · exact (List.cons.inj scanned).1.symm
      · exact (List.cons.inj scanned).1.symm

/-- Where text begins behind trivia, there is the first token. -/
theorem scan_of_begins {comments : Bool} {gap rest : List Char} {c : Char}
    (trivia : Trivia comments gap (c :: rest)) (begins : Begins comments c) (offset : Nat) :
    ∃ token others, scan comments offset (gap ++ c :: rest) = token :: others ∧
      token.start = offset + byteLength gap := by
  rw [scan_trivia trivia, scan_eq, skipTrivia_of_begins begins]
  dsimp only
  split
  · exact ⟨_, _, rfl, start_next _ _ _⟩
  · exact ⟨_, _, rfl, start_next _ _ _⟩

/-- Every token is what the scanner takes somewhere in the text. -/
theorem mem_scan {comments : Bool} {offset : Nat} {cs : List Char} {token : Token}
    (mem : token ∈ scan comments offset cs) :
    ∃ front c rest, cs = front ++ c :: rest ∧
      token = (next (offset + byteLength front) c rest).1 := by
  induction size : cs.length using Nat.strongRecOn generalizing offset cs with
  | ind size ih =>
  cases scanned : scan comments offset cs with
  | nil =>
    rw [scanned] at mem
    cases mem
  | cons first others =>
    rw [scanned] at mem
    rcases List.mem_cons.mp mem with rfl | later
    · obtain ⟨gap, c, rest, cut, _, _, isFirst⟩ := head_scan scanned
      exact ⟨gap, c, rest, cut, isFirst⟩
    · rcases scan_cases comments offset cs with
        ⟨_, empty⟩ | ⟨broken, _, single⟩ | ⟨gap, text, whole, rest, rfl, _, lexed, shorter, next⟩
      · rw [empty] at scanned
        cases scanned
      · rw [single] at scanned
        cases scanned
        cases later
      · rw [next] at scanned
        obtain ⟨rfl, rfl⟩ := List.cons.inj scanned
        obtain ⟨c, piece, rfl, stop, _⟩ := lexed.before
        obtain ⟨front, d, behind, rfl, isToken⟩ := ih rest.length (size ▸ shorter) later rfl
        refine ⟨gap ++ c :: (piece ++ front), d, behind, by simp, ?_⟩
        have start : whole.stop + byteLength front =
            offset + byteLength (gap ++ c :: (piece ++ front)) := by
          rw [stop, byteLength_append, byteLength_cons, byteLength_cons, byteLength_append]
          omega
        rw [isToken, start]

/-- A token that opens a bracket is the opening bracket. -/
theorem opening_of_next {offset : Nat} {c : Char} {cs : List Char} {bracket : Bracket}
    (h : (next offset c cs).1.lexeme = .opening bracket) :
    c = bracket.opening ∧ (next offset c cs).1.start = offset := by
  obtain ⟨cut, start⟩ := (lexed_next (by rw [isBroken, h])).opening_inv h
  exact ⟨List.head_eq_of_cons_eq cut, start⟩

/-- A token that closes a bracket is the closing bracket. -/
theorem closing_of_next {offset : Nat} {c : Char} {cs : List Char} {bracket : Bracket}
    (h : (next offset c cs).1.lexeme = .closing bracket) :
    c = bracket.closing ∧ (next offset c cs).1.start = offset := by
  obtain ⟨cut, start⟩ := (lexed_next (by rw [isBroken, h])).closing_inv h
  exact ⟨List.head_eq_of_cons_eq cut, start⟩

/-- A token that opens a bracket stands where the bracket does. -/
theorem opening_of_mem_scan {comments : Bool} {offset : Nat} {cs : List Char} {token : Token}
    {bracket : Bracket} (mem : token ∈ scan comments offset cs)
    (opens : token.lexeme = .opening bracket) :
    ∃ front rest, cs = front ++ bracket.opening :: rest ∧
      token.start = offset + byteLength front := by
  obtain ⟨front, c, rest, rfl, rfl⟩ := mem_scan mem
  obtain ⟨rfl, start⟩ := opening_of_next opens
  exact ⟨front, rest, rfl, start⟩

/-- How the tokens of a text go on when text follows on a new line. -/
inductive Extends (comments : Bool) (offset : Nat) (cs : List Char) : Prop where
  /-- Every token is whole, and others may follow. -/
  | whole : (∀ token ∈ scan comments offset cs, token.isBroken = false) →
      (∀ more, scan comments offset (cs ++ '\n' :: more) =
        scan comments offset cs ++ scan comments (offset + byteLength cs) ('\n' :: more)) →
      Extends comments offset cs
  /-- A token is broken whatever follows. -/
  | broken : (∀ token ∈ scan comments offset cs, token.isDecided = true) →
      (∃ token ∈ scan comments offset cs, token.isBroken = true) →
      (∀ more, scan comments offset (cs ++ '\n' :: more) = scan comments offset cs) →
      Extends comments offset cs
  /-- The text ends inside a literal, which may go on. -/
  | inside {front body : List Char} {tokens : List Token} : cs = front ++ '"' :: body →
      Text.unquote (offset + byteLength front + 1) body = .unclosed →
      (∀ token ∈ tokens, token.isBroken = false) →
      (∀ tail, scan comments offset (front ++ '"' :: tail) =
        tokens ++ scan comments (offset + byteLength front) ('"' :: tail)) →
      Extends comments offset cs

/-- Where the first token is broken. -/
theorem extends_of_broken {comments : Bool} {offset : Nat} {cs : List Char} {token : Token}
    (broken : token.isBroken = true) (scanned : scan comments offset cs = [token]) :
    Extends comments offset cs := by
  obtain ⟨gap, c, rest, rfl, trivia, begins, rfl⟩ := head_scan scanned
  rcases next_cases (offset + byteLength gap) c rest with ⟨decided, same⟩ | ⟨rfl, unclosed⟩
  · refine .broken ?_ ⟨_, by simp [scanned], broken⟩ fun more => ?_
    · simpa [scanned] using decided
    · rw [scanned, List.append_assoc, scan_trivia (trivia.line more), List.cons_append,
        scan_eq, skipTrivia_of_begins begins]
      simp only [same, broken, if_true]
  · have before (tail : List Char) : Trivia comments gap ('"' :: tail) := trivia.before _ id
    exact @Extends.inside _ _ _ gap rest [] rfl unclosed (by simp)
      fun tail => scan_trivia (before tail) offset

/-- A text goes on in one of three ways. -/
theorem extends_scan (comments : Bool) (offset : Nat) (cs : List Char) :
    Extends comments offset cs := by
  induction size : cs.length using Nat.strongRecOn generalizing offset cs with
  | ind size ih =>
  rcases scan_cases comments offset cs with
    ⟨trivia, scanned⟩ | ⟨token, broken, scanned⟩ |
      ⟨gap, text, token, rest, rfl, trivia, lexed, shorter, scanned⟩
  · refine .whole (by simp [scanned]) fun more => ?_
    rw [scanned, List.nil_append]
    exact scan_trivia (trivia.line more) offset
  · exact extends_of_broken broken scanned
  · obtain ⟨_, _, _, _, _, whole⟩ := lexed.next
    obtain ⟨c, piece, rfl, stop, lexed⟩ := lexed.before
    -- the token stays in front of whatever the text behind it becomes
    have first (rest' : List Char) (ends : Boundary rest → Boundary rest') :
        scan comments offset (gap ++ c :: (piece ++ rest')) =
          token :: scan comments token.stop rest' := by
      rw [scan_trivia (trivia.before (c :: (piece ++ rest')) id), scan_lexed (lexed rest' ends)]
    have firstLine (more : List Char) :
        scan comments offset (gap ++ c :: (piece ++ rest) ++ '\n' :: more) =
          token :: scan comments token.stop (rest ++ '\n' :: more) := by
      rw [← first _ fun boundary => boundary.line more]
      simp only [List.append_assoc, List.cons_append]
    have length : token.stop + byteLength rest =
        offset + byteLength (gap ++ c :: (piece ++ rest)) := by
      rw [stop, byteLength_append, byteLength_cons, byteLength_cons, byteLength_append]
      omega
    cases ih rest.length (size ▸ shorter) token.stop rest rfl with
    | whole allWhole goesOn =>
      refine .whole ?_ fun more => ?_
      · rw [scanned]
        exact List.forall_mem_cons.mpr ⟨whole, allWhole⟩
      · rw [firstLine, goesOn, scanned, length, List.cons_append]
    | broken decided isBroken same =>
      refine .broken ?_ ?_ fun more => ?_
      · rw [scanned]
        exact List.forall_mem_cons.mpr ⟨isDecided_of_whole whole, decided⟩
      · obtain ⟨token, mem, isBroken⟩ := isBroken
        exact ⟨token, by rw [scanned]; exact List.mem_cons_of_mem _ mem, isBroken⟩
      · rw [firstLine, same, scanned]
    | @inside front body tokens cut unclosed allWhole goesOn =>
      subst cut
      have start : token.stop + byteLength front =
          offset + byteLength (gap ++ c :: (piece ++ front)) := by
        rw [stop, byteLength_append, byteLength_cons, byteLength_cons, byteLength_append]
        omega
      rw [start] at unclosed goesOn
      refine @Extends.inside _ _ _ (gap ++ c :: (piece ++ front)) body (token :: tokens)
        (by simp) unclosed (List.forall_mem_cons.mpr ⟨whole, allWhole⟩) fun tail => ?_
      have sameHead : Boundary (front ++ '"' :: body) → Boundary (front ++ '"' :: tail) := by
        cases front <;> exact id
      rw [List.cons_append, ← goesOn, ← first _ sameHead]
      simp only [List.append_assoc, List.cons_append]

end Token

end Sexpr
