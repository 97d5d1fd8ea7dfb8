/-
Closing brackets that nothing has opened.

`BracketScan` goes over the characters of a text and keeps the brackets that are open, outside
of literals and comments. It knows nothing of tokens and forms, but it agrees with the reader
on what is open, behind every token that the reader takes (`BracketScan.run_taken`). Main
statement: `unopened_or_quoted`, a closing bracket for which the reader misses the opening one
does not match the innermost bracket of the scan, or it stands right behind a quote mark.
-/

import Sexpr.Proofs.Reading.Prefix
import Sexpr.Proofs.Reading.RoundTrip

namespace Sexpr

open Grammar
open Text (byteLength byteLength_append)

/-! ### The scan -/

/-- What a character of a text belongs to. -/
inductive Region where
  | code
  | literal
  /-- Behind a backslash in a literal. -/
  | escape
  | comment
deriving Repr, DecidableEq

/-- What is known of a text behind some of its characters. -/
structure BracketScan where
  region : Region := .code
  /-- The brackets that are open, the innermost first. -/
  brackets : List Bracket := []
  /-- The last of the code, apart from blanks, is a quote mark. -/
  quoted : Bool := false
deriving Repr, DecidableEq

namespace BracketScan

/-- A closing bracket closes the innermost bracket, if that matches. -/
def closeBracket (bracket : Bracket) : List Bracket → List Bracket
  | [] => []
  | top :: outer => if top = bracket then outer else top :: outer

/-- The brackets that are open behind a character of code. -/
def track (brackets : List Bracket) : Char → List Bracket
  | '(' => .round :: brackets
  | '[' => .square :: brackets
  | ')' => closeBracket .round brackets
  | ']' => closeBracket .square brackets
  | _ => brackets

/-- Takes one character. -/
def step (comments : Bool) (s : BracketScan) (c : Char) : BracketScan :=
  match s.region with
  | .code =>
    if c = '"' then { s with region := .literal, quoted := false }
    else if comments && c == ';' then { s with region := .comment }
    else if Text.isBlank c then s
    else { region := .code, brackets := track s.brackets c, quoted := c == '\'' }
  | .literal =>
    if c = '"' then { s with region := .code }
    else if c = '\\' then { s with region := .escape }
    else s
  | .escape => { s with region := .literal }
  | .comment => if c = '\n' then { s with region := .code } else s

/-- Takes the characters of a text. -/
def run (comments : Bool) (s : BracketScan) (cs : List Char) : BracketScan :=
  cs.foldl (step comments) s

section

variable {comments : Bool} {s : BracketScan}

theorem run_cons (comments : Bool) (s : BracketScan) (c : Char) (cs : List Char) :
    run comments s (c :: cs) = run comments (step comments s c) cs := rfl

theorem run_append (comments : Bool) (s : BracketScan) (cs ds : List Char) :
    run comments s (cs ++ ds) = run comments (run comments s cs) ds :=
  List.foldl_append

/-! ### What tokens do to the scan -/

theorem step_blank (code : s.region = .code) {c : Char} (blank : Text.isBlank c = true) :
    step comments s c = s := by
  have noQuote : c ≠ '"' := by
    rintro rfl
    exact absurd blank (by decide)
  have noComment : (c == ';') = false := by
    rw [beq_eq_false_iff_ne]
    rintro rfl
    exact absurd blank (by decide)
  simp [step, code, noQuote, noComment, blank]

/-- A comment lasts to the end of its line. -/
theorem run_line (comment : s.region = .comment) {line : List Char}
    (inside : ∀ c ∈ line, c ≠ '\n') : run comments s line = s := by
  induction line with
  | nil => rfl
  | cons c line ih =>
    obtain ⟨here, behind⟩ := List.forall_mem_cons.mp inside
    rw [run_cons, step, comment]
    dsimp only
    rw [if_neg here, ih behind]

/-- Trivia in front of a token changes nothing. -/
theorem run_trivia (code : s.region = .code) {gap rest : List Char} {c : Char}
    (trivia : Trivia comments gap (c :: rest)) (solid : Solid c) : run comments s gap = s := by
  generalize follows : c :: rest = token at trivia
  induction trivia with
  | nil => rfl
  | blank isBlank _ ih => rw [run_cons, step_blank code isBlank, ih follows]
  | @comment line gap _ on inside atEnd _ ih =>
    have behind := ih follows
    subst follows
    -- the comment does not reach the token, so its line ends in the trivia
    cases gap with
    | nil =>
      obtain rfl : c = '\n' := atEnd c rfl
      exact absurd solid.1 (by decide)
    | cons d gap =>
      obtain rfl : d = '\n' := atEnd d rfl
      have opens : step comments s ';' = { s with region := .comment } := by
        simp [step, code, on]
      have ends : step comments { s with region := .comment } '\n' = s := by
        simp [step, ← code]
      rw [run_cons, step_blank code (by decide)] at behind
      rw [run_cons, opens, run_append, run_line rfl inside, run_cons, ends, behind]

theorem track_of_isWordChar {c : Char} (h : IsWordChar c) (brackets : List Bracket) :
    track brackets c = brackets := by
  have notDelimiter := h.not_delimiter
  unfold track
  split
  case h_5 => rfl
  all_goals exact absurd notDelimiter (by decide)

/-- A character that is neither trivia nor the start of a literal. -/
theorem step_solid (code : s.region = .code) {c : Char} (solid : Solid c) (noText : c ≠ '"') :
    step comments s c = ⟨.code, track s.brackets c, c == '\''⟩ := by
  have noComment : (c == ';') = false := beq_eq_false_iff_ne.mpr solid.2
  simp [step, code, noText, noComment, solid.1]

theorem step_word (code : s.region = .code) {c : Char} (h : IsWordChar c) :
    step comments s c = ⟨.code, s.brackets, false⟩ := by
  have noText : c ≠ '"' := by
    rintro rfl
    exact absurd h.not_delimiter (by decide)
  have noMark : (c == '\'') = false := beq_eq_false_iff_ne.mpr h.ne_quote
  rw [step_solid code h.solid noText, track_of_isWordChar h, noMark]

/-- A word opens and closes nothing. -/
theorem run_word (code : s.region = .code) {word : List Char} (notEmpty : word ≠ [])
    (isWord : ∀ c ∈ word, IsWordChar c) : run comments s word = ⟨.code, s.brackets, false⟩ := by
  induction word generalizing s with
  | nil => exact absurd rfl notEmpty
  | cons c word ih =>
    obtain ⟨here, behind⟩ := List.forall_mem_cons.mp isWord
    rw [run_cons, step_word code here]
    cases word with
    | nil => rfl
    | cons d word => exact ih rfl (by simp) behind

/-- A literal lasts to its closing double quote. -/
theorem run_quotes (literal : s.region = .literal) {body text : List Char}
    (quotes : Text.Quotes body text) : run comments s body = s := by
  induction quotes with
  | nil => rfl
  | plain notQuote notBackslash _ ih => simp [run_cons, step, literal, notQuote, notBackslash, ih]
  | escape _ _ ih =>
    have opens : step comments s '\\' = { s with region := .escape } := by simp [step, literal]
    have ends (c : Char) : step comments { s with region := .escape } c = s := by
      simp [step, ← literal]
    rw [run_cons, run_cons, opens, ends, ih]

end

/-! ### The scan and the reader -/

/-- The scan of a text behind which the reader has something open. -/
def ofStack : List Pending → BracketScan
  | [] => {}
  | .quote _ :: stack => { brackets := (ofStack stack).brackets, quoted := true }
  | .bracket kind _ _ :: stack => { brackets := kind :: (ofStack stack).brackets }

theorem region_ofStack : ∀ stack, (ofStack stack).region = .code
  | [] | .quote _ :: _ | .bracket _ _ _ :: _ => rfl

open Reading (deliver step_opening step_quote step_leaf step_closing_inv room_of_step)

variable {settings : ReadSettings} {label : String} {stack : List Pending}

/-- A finished node closes quote marks and nothing else. -/
theorem ofStack_deliver (stop : Nat) (node : Node) :
    ofStack (deliver label stop node stack).left = ⟨.code, (ofStack stack).brackets, false⟩ := by
  induction stack generalizing node with
  | nil => rfl
  | cons pending stack ih =>
    cases pending with
    | quote _ => exact ih _
    | bracket _ _ _ => rfl

/-- The scan agrees with the reader behind a token that the reader takes. -/
theorem run_token (comments : Bool) {offset : Nat} {text rest : List Char} {token : Token}
    {progress : Progress} (lexed : Lexed offset (text ++ rest) token rest)
    (taken : Reading.step settings label stack token = .ok progress) :
    run comments (ofStack stack) text = ofStack progress.left := by
  have code := region_ofStack stack
  generalize cut : text ++ rest = cs at lexed
  cases lexed with
  | opening bracket =>
    obtain rfl : text = [bracket.opening] := List.append_cancel_right cut
    rw [step_opening (room_of_step (by simp) taken)] at taken
    cases taken
    rw [run_cons, step_solid code bracket.solid_opening (by cases bracket <;> decide)]
    cases bracket <;> rfl
  | closing bracket =>
    obtain rfl : text = [bracket.closing] := List.append_cancel_right cut
    obtain ⟨begun, items, outer, rfl, rfl⟩ := step_closing_inv taken
    rw [ofStack_deliver, run_cons,
      step_solid code bracket.solid_closing (by cases bracket <;> decide)]
    cases bracket <;> rfl
  | quote =>
    obtain rfl : text = ['\''] := List.append_cancel_right cut
    rw [step_quote (room_of_step (by simp) taken)] at taken
    cases taken
    rw [run_cons, step_solid code ⟨by decide, by decide⟩ (by decide)]
    rfl
  | word isWord boundary =>
    obtain rfl := List.append_cancel_right cut
    rw [step_leaf (room_of_step (by simp) taken)] at taken
    cases taken
    rw [ofStack_deliver, run_word code isWord.ne_nil isWord.isWordChar]
  | @text body value rest quotes =>
    obtain rfl : text = '"' :: (body ++ ['"']) :=
      List.append_cancel_right (cut.trans (by simp))
    rw [step_leaf (room_of_step (by simp) taken)] at taken
    cases taken
    have opens : step comments (ofStack stack) '"' =
        ⟨.literal, (ofStack stack).brackets, false⟩ := by
      simp [step, code]
    rw [ofStack_deliver, run_cons, opens, run_append, run_quotes rfl quotes]
    rfl

/-- The scan agrees with the reader in front of a token that closes a bracket, if the reader
takes the tokens before it. -/
theorem run_taken {comments : Bool} {offset : Nat} {cs : List Char} {tokens others : List Token}
    {token : Token} {nodes : List Node} {left : List Pending} {bracket : Bracket}
    (scanned : Token.scan comments offset cs = tokens ++ token :: others)
    (taken : Reading.advance settings label stack tokens = (nodes, .ok left))
    (closes : token.lexeme = .closing bracket) :
    ∃ front rest, cs = front ++ bracket.closing :: rest ∧
      token.start = offset + byteLength front ∧
      run comments (ofStack stack) front = ofStack left := by
  induction tokens generalizing offset cs stack nodes with
  | nil =>
    cases taken
    obtain ⟨gap, c, rest, rfl, trivia, _, rfl⟩ := Token.head_scan scanned
    obtain ⟨rfl, start⟩ := Token.closing_of_next closes
    exact ⟨gap, rest, rfl, start, run_trivia (region_ofStack _) trivia bracket.solid_closing⟩
  | cons first tokens ih =>
    rcases Token.scan_cases comments offset cs with
      ⟨_, empty⟩ | ⟨broken, isBroken, single⟩ |
        ⟨gap, text, first, rest, rfl, trivia, lexed, _, next⟩
    · rw [empty] at scanned
      cases scanned
    · rw [single] at scanned
      simp at scanned
    · rw [next, List.cons_append] at scanned
      obtain ⟨rfl, behind⟩ := List.cons.inj scanned
      cases stepped : Reading.step settings label stack first with
      | error flaw =>
        rw [Reading.advance_of_error stepped] at taken
        cases taken
      | ok progress =>
        rw [Reading.advance_of_step stepped] at taken
        obtain ⟨front, rest', rfl, start, agrees⟩ := ih behind (Prod.ext rfl (Prod.mk.inj taken).2)
        obtain ⟨c, piece, rfl, stop, _⟩ := lexed.before
        obtain ⟨_, _, ⟨⟩, solid, _⟩ := lexed.next
        refine ⟨gap ++ (c :: piece ++ front), rest', by simp, ?_, ?_⟩
        · rw [start, stop, byteLength_append, byteLength_append]
          omega
        · rw [run_append, run_trivia (region_ofStack stack) trivia solid, run_append,
            run_token comments lexed stepped, agrees]

end BracketScan

/-! ### Closing brackets that are refused -/

theorem Reading.kind_of_flawAtEnd (settings : ReadSettings) (stop : Nat) (stack : List Pending) :
    (flawAtEnd settings stop stack).1.kind ≠ .missingOpening := by
  unfold flawAtEnd
  split
  · simp [Flaw.kind]
  · split <;> simp [Flaw.kind]

/-- A single form misses a bracket only where the first form of the text does. -/
theorem read_of_readOne {settings : ReadSettings} {label text : String} {error : ReadError}
    (h : readOne settings label text = .error error)
    (kind : error.kind = .missingOpening ∨ error.kind = .missingClosing) :
    read settings label text = ⟨[], some error⟩ := by
  rw [readOne] at h
  split at h
  · rename_i flaw offset first
    cases h
    rcases Reading.flaw_of_readFirst first with flawed | ⟨_, isFlaw⟩
    · rw [read, flawed]
      rfl
    · -- a text without tokens misses a form, and no bracket
      simp only [Reading.flawAtEnd] at isFlaw
      split at isFlaw <;> cases isFlaw <;> simp [ReadError.ofFlaw, Flaw.kind] at kind
  · cases h
  · cases h
    simp [ReadError.ofFlaw, Flaw.kind] at kind

/-- A closing bracket is reported as unopened only where it does not match the innermost
bracket that is open before it, or right behind a quote mark. -/
theorem unopened_or_quoted {settings : ReadSettings} {label text : String} {error : ReadError}
    (failed : (read settings label text).error = some error ∨
      readOne settings label text = .error error)
    (kind : error.kind = .missingOpening) :
    ∃ front bracket rest span, text.toList = front ++ Bracket.closing bracket :: rest ∧
      error.place.span = some span ∧ span.start = byteLength front ∧
      let scan := BracketScan.run settings.comments {} front
      scan.brackets.head? ≠ some bracket ∨ scan.quoted = true := by
  have failed := failed.elim id fun single => by rw [read_of_readOne single (.inl kind)]
  simp only [read] at failed
  generalize reading : Reading.readTokens settings label text.utf8ByteSize []
    (Token.scan settings.comments 0 text.toList) = r at failed
  obtain ⟨nodes, _ | ⟨flaw, offset⟩⟩ := r
  · cases failed
  cases failed
  rcases Reading.flaw_cases reading with
    ⟨tokens, token, others, left, scanned, taken, why⟩ | ⟨left, _, _, atEnd⟩
  · -- the scan agrees with the reader in front of a closing bracket
    have agrees {bracket : Bracket} (closes : token.lexeme = .closing bracket) :
        ∃ front rest, text.toList = front ++ bracket.closing :: rest ∧
          token.start = byteLength front ∧
          BracketScan.run settings.comments {} front = .ofStack left := by
      obtain ⟨front, rest, cut, start, agrees⟩ := BracketScan.run_taken scanned taken closes
      exact ⟨front, rest, cut, by rw [start, Nat.zero_add], agrees⟩
    cases why with
    | tooDeep _ => cases kind
    | @unopened found closes noBracket =>
      obtain ⟨front, rest, cut, start, agrees⟩ := agrees closes
      refine ⟨front, found, rest, _, cut, rfl, start, ?_⟩
      rw [agrees]
      cases left with
      | nil => exact .inl (by simp [BracketScan.ofStack])
      | cons pending outer =>
        cases pending with
        | quote _ => exact .inr rfl
        | bracket _ _ _ => exact absurd rfl (noBracket _ _ _ _)
    | @mismatched found expected begun items outer closes isOpen other =>
      obtain ⟨front, rest, cut, start, agrees⟩ := agrees closes
      refine ⟨front, found, rest, _, cut, rfl, start, .inl ?_⟩
      rw [agrees, isOpen]
      simpa [BracketScan.ofStack] using other.symm
    | broken broken _ =>
      obtain ⟨_, _, _, _, rfl⟩ :=
        Token.mem_scan (scanned ▸ List.mem_append_right tokens List.mem_cons_self)
      rcases Token.kind_of_next broken with other | other
      · cases other.symm.trans kind
      · cases other.symm.trans kind
  · have kindAtEnd := Reading.kind_of_flawAtEnd settings text.utf8ByteSize left
    rw [← atEnd] at kindAtEnd
    exact absurd kind kindAtEnd

/-- The bracket that a closing bracket does not match is open before it. -/
theorem unopened_other :
    let error := ReadError.ofFlaw "in" "(1 ] 2)" (.mismatched .square .round) 3
    (read {} "in" "(1 ] 2)").error = some error ∧ error.kind = .missingOpening ∧
      ∃ front bracket rest span, "(1 ] 2)".toList = front ++ Bracket.closing bracket :: rest ∧
        error.place.span = some span ∧ span.start = byteLength front ∧
        let scan := BracketScan.run true {} front
        scan.brackets.head? ≠ some bracket ∨ scan.quoted = true := by
  intro error
  have failed : (read {} "in" "(1 ] 2)").error = some error := by decide +kernel
  have kind : error.kind = .missingOpening := rfl
  exact ⟨failed, kind, unopened_or_quoted (.inl failed) kind⟩

/-- Right behind a quote mark, a closing bracket is reported as unopened although it matches
the innermost bracket that is open. -/
theorem unopened_open :
    ∃ error span, (read {} "in" "(')").error = some error ∧ error.kind = .missingOpening ∧
      error.place.span = some span ∧ "(')".toList = ['(', '\''] ++ [Bracket.closing .round] ∧
      span.start = byteLength ['(', '\''] ∧
      (BracketScan.run true {} ['(', '\'']).brackets.head? = some .round :=
  ⟨.ofFlaw "in" "(')" (.unopened .round) 2, _, by decide +kernel, rfl, rfl, by decide, rfl, rfl⟩

end Sexpr
