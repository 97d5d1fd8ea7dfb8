/-
Which texts more text can complete.

What a text leaves open can be closed, with two exceptions: behind a quote mark there may be
no room for a form, and a literal may end inside an escape, which a line feed breaks. The
reader asks for more where a bracket or a literal is open, and so it asks in vain for a
literal that ends inside an escape, and gives up a text that ends behind a quote mark. Main
statement: `read_continues_iff`, when a text can be completed, and what that means for
entries.
-/

import Sexpr.Proofs.Reading.Ending
import Sexpr.Proofs.Reading.Lines

namespace Sexpr

open Grammar
open Text (byteLength byteLength_nil byteLength_cons byteLength_append)

/-! ### Literals that end inside an escape -/

namespace Text

/-- The text ends behind the backslash of an escape, in the literal that stands at `offset`. -/
def CutEscape (cs : List Char) (offset : Nat) : Prop :=
  ∃ front body text, cs = front ++ '"' :: (body ++ ['\\']) ∧ Quotes body text ∧
    offset = byteLength front

/-- What stands at an offset of a text. -/
theorem split_unique {front front' rest rest' : List Char} {c c' : Char}
    (h : front ++ c :: rest = front' ++ c' :: rest')
    (same : byteLength front = byteLength front') : front = front' ∧ c = c' ∧ rest = rest' := by
  induction front generalizing front' with
  | nil =>
    cases front' with
    | nil =>
      cases h
      exact ⟨rfl, rfl, rfl⟩
    | cons d front' =>
      have := d.utf8Size_pos
      rw [byteLength_nil, byteLength_cons] at same
      omega
  | cons d front ih =>
    cases front' with
    | nil =>
      have := d.utf8Size_pos
      rw [byteLength_nil, byteLength_cons] at same
      omega
    | cons d' front' =>
      obtain ⟨rfl, tails⟩ := List.cons.inj h
      obtain ⟨rfl, rest⟩ := ih tails (Nat.add_left_cancel same)
      exact ⟨rfl, rest⟩

theorem Quotes.append {a b x y : List Char} (h : Quotes a x) (k : Quotes b y) :
    Quotes (a ++ b) (x ++ y) := by
  induction h with
  | nil => exact k
  | plain notQuote notBackslash _ ih => exact .plain notQuote notBackslash ih
  | escape meaning _ ih => exact .escape meaning ih

end Text

namespace Reading

variable {settings : ReadSettings} {label : String} {cs : List Char}

/-- Behind a quote mark that leaves no room, nothing can be read. -/
theorem readTokens_quote_full {start stop : Nat} {stack : List Pending}
    (full : settings.depth ≤ (Pending.quote start :: stack).length) (tokens : List Token) :
    (readTokens settings label stop (.quote start :: stack) tokens).2 ≠ none := by
  cases tokens with
  | nil => simp [readTokens]
  | cons token tokens =>
    have failed : step settings label (.quote start :: stack) token =
        .error (.tooDeep settings.depth, token.start) := by
      unfold step enter
      rw [if_pos full]
    simp [readTokens_of_error failed]

/-- More text completes a text exactly when its flaw leaves something open, and the text
does not end inside an escape. -/
theorem Ending.extendable_iff {flaw : FlawAt} (h : Ending settings label cs flaw) :
    (∃ more stop, (readTokens settings label stop []
      (Token.scan settings.comments 0 (cs ++ '\n' :: more))).2 = none) ↔
    flaw.1.isOpen = true ∧ ¬ Text.CutEscape cs flaw.2 := by
  cases h with
  | decided decided stands => simp [stands, decided]
  | @waiting stack notEmpty brackets goesOn =>
    simp only [goesOn]
    match stack with
    | [] => exact absurd rfl notEmpty
    | .bracket bracket start items :: outer =>
      have notCut : ¬ Text.CutEscape cs start := by
        rintro ⟨front, body, text, cut, _, same⟩
        obtain ⟨front', rest, cut', same'⟩ := brackets bracket start items List.mem_cons_self
        obtain ⟨_, isQuote, _⟩ := Text.split_unique (cut.symm.trans cut') (same ▸ same')
        cases bracket <;> cases isQuote
      refine ⟨fun _ => ⟨rfl, notCut⟩, fun _ => ?_⟩
      refine ⟨closers (.bracket bracket start items :: outer), 0, ?_⟩
      rw [scan_line]
      exact readTokens_closers _ bracket start items outer _
    | .quote start :: outer =>
      rw [flawAtEnd_quote]
      split
      · rename_i full
        refine ⟨?_, fun h => absurd h.1 (by simp [Flaw.isOpen])⟩
        rintro ⟨more, stop, read⟩
        exact absurd read (readTokens_quote_full full _)
      · rename_i room
        have notCut : ¬ Text.CutEscape cs (byteLength cs) := by
          rintro ⟨front, body, text, rfl, _, same⟩
          rw [byteLength_append, byteLength_cons] at same
          have := Char.utf8Size_pos '"'
          omega
        have isWord : Word ['x'] (.symbol "x") := .symbol (by decide)
        refine ⟨fun _ => ⟨rfl, notCut⟩, fun _ => ?_⟩
        refine ⟨['x'] ++ closers (.quote start :: outer), 0, ?_⟩
        rw [scan_line]
        exact readTokens_word _ isWord (Nat.lt_of_not_le room) _
  | @quoting front body stack cut unclosed room goesOn =>
    subst cut
    have line (more : List Char) : front ++ '"' :: body ++ '\n' :: more =
        front ++ '"' :: (body ++ '\n' :: more) := by simp
    simp only [line, goesOn]
    constructor
    · rintro ⟨more, stop, read⟩
      refine ⟨rfl, ?_⟩
      rintro ⟨front', body', text, cut, quotes, same⟩
      obtain ⟨rfl, _, rfl⟩ := Text.split_unique cut same
      have broken :
          (Token.readText (byteLength front) (body' ++ ['\\'] ++ '\n' :: more)).1.lexeme =
            .broken (.unknownEscape '\n') (byteLength front + 1 + byteLength body') := by
        rw [List.append_assoc, List.singleton_append, Token.readText,
          quotes.unquote_unknown (by decide)]
      rw [readTokens_doubleQuote_broken _ room broken] at read
      cases read
    · rintro ⟨_, notCut⟩
      obtain ⟨body', text, quotes, rfl | rfl⟩ := Text.quotes_of_unclosed unclosed
      · refine ⟨'"' :: closers stack, 0, ?_⟩
        have lineFeed : Text.Quotes ['\n'] ['\n'] := .plain (by decide) (by decide) .nil
        have read : (readTokens settings label 0 stack _).2 = none :=
          readTokens_text settings.comments (quotes.append lineFeed) room (byteLength front)
        simpa using read
      · exact absurd ⟨front, body', text, rfl, quotes, rfl⟩ notCut

end Reading

namespace ReadError

/-- The text ended where the form behind a quote mark is due. -/
def formDue (e : ReadError) : Bool :=
  e.kind == .expectedExpression && e.found.isNone

/-- The text ends inside an escape of the literal that the error points to. -/
def CutsEscape (e : ReadError) (text : String) : Prop :=
  ∃ span, e.place.span = some span ∧ Text.CutEscape text.toList span.start

theorem isOpen_iff (label text : String) (flaw : Flaw) (offset : Nat) :
    flaw.isOpen = true ↔ (ofFlaw label text flaw offset).needsMore = true ∨
      (ofFlaw label text flaw offset).formDue = true := by
  cases flaw <;> simp [Flaw.isOpen, needsMore, formDue, ofFlaw, Flaw.kind, Flaw.found?]

theorem cutsEscape_iff (label text : String) (flaw : Flaw) (offset : Nat) :
    (ofFlaw label text flaw offset).CutsEscape text ↔ Text.CutEscape text.toList offset := by
  simp [CutsEscape, ofFlaw, Place.within, Span.between]

end ReadError

/-- A text that cannot be read can be completed exactly when it needs more or a form is due
behind a quote mark, and it does not end inside an escape. -/
theorem read_line_iff {settings : ReadSettings} {label text : String} {error : ReadError}
    (failed : (read settings label text).all = .error error) :
    (∃ more nodes, (read settings label (text ++ "\n" ++ more)).all = .ok nodes) ↔
      (error.needsMore = true ∨ error.formDue = true) ∧ ¬ error.CutsEscape text := by
  obtain ⟨flaw, offset, isFlaw, rfl⟩ := Reading.flaw_of_all_eq_error failed
  rw [← Text.byteLength_toList] at isFlaw
  rw [← ReadError.isOpen_iff, ReadError.cutsEscape_iff,
    ← (Reading.ending_of_flaw isFlaw).extendable_iff]
  constructor
  · rintro ⟨more, nodes, read⟩
    rw [Reading.all_eq_ok_iff] at read
    refine ⟨more.toList, (text ++ "\n" ++ more).utf8ByteSize, ?_⟩
    simpa using congrArg Prod.snd read
  · rintro ⟨more, stop, read⟩
    refine ⟨String.ofList more, _, Reading.all_eq_ok_iff.mpr (Prod.ext rfl ?_)⟩
    simpa using Reading.readTokens_none_of_none read

namespace Entry

/-- A line completes an entry exactly when the text with the line can be read. -/
theorem feed_eq_complete_iff {settings : ReadSettings} {e : Entry} {line label text : String}
    {forms : List Node} :
    (e.feed settings line).1 = .complete label text forms ↔
      e.label = label ∧ e.withLine line = text ∧
        (read settings e.label (e.withLine line)).all = .ok forms := by
  rcases feed_cases settings e line with
    ⟨_, reading, _, fed⟩ | ⟨_, reading, fed⟩ | ⟨_, reading, _, fed⟩ <;>
  simp [fed, reading]

end Entry

/-- More text can complete a text that cannot be read exactly when the reader asks for more,
or a form is due behind a quote mark, and the text does not end inside an escape. An entry
with that text is kept exactly when the reader asks for more, and then some line completes
it, unless it ends inside an escape. -/
theorem read_continues_iff (settings : ReadSettings) (label text : String) (error : ReadError)
    (failed : (read settings label text).all = .error error) :
    ((∃ more nodes, (read settings label (text ++ "\n" ++ more)).all = .ok nodes) ↔
      (error.needsMore = true ∨ error.formDue = true) ∧ ¬ error.CutsEscape text) ∧
    ∀ (e : Entry) (line : String), e.label = label → e.withLine line = text →
      ((e.feed settings line).1 = .incomplete ↔ error.needsMore = true) ∧
      ((∃ more forms, ((e.feed settings line).2.feed settings more).1 =
          .complete label (text ++ "\n" ++ more) forms) ↔
        error.needsMore = true ∧ ¬ error.CutsEscape text) := by
  refine ⟨read_line_iff failed, ?_⟩
  rintro e line rfl rfl
  simp only [Entry.feed_eq_complete_iff]
  rcases Entry.feed_cases settings e line with
    ⟨error', reading, needs, fed⟩ | ⟨_, reading, fed⟩ | ⟨error', reading, needs, fed⟩
  · obtain rfl : error = error' := Except.error.inj (failed.symm.trans reading)
    have pending := (Entry.isPending_feed settings e line).mpr (by rw [fed])
    have continues := read_line_iff failed
    rw [fed] at pending ⊢
    have goesOn (more : String) : Entry.withLine { e with lines := e.withLine line } more =
        e.withLine line ++ "\n" ++ more := if_pos pending
    have sameLabel : Entry.label { e with lines := e.withLine line } = e.label := rfl
    simpa [needs, goesOn, sameLabel] using continues
  · rw [failed] at reading
    cases reading
  · obtain rfl : error = error' := Except.error.inj (failed.symm.trans reading)
    have longer (more : String) : e.next.withLine more ≠ e.withLine line ++ "\n" ++ more := by
      intro same
      have lengths := congrArg String.length same
      simp [Entry.withLine, Entry.next, Entry.isPending] at lengths
    simp [fed, needs, longer]

/-- An open bracket can be closed. -/
theorem openBracket_continues :
    let error := ReadError.ofFlaw "repl:1" "(a" (.unclosed .round) 0
    (∃ more nodes, (read {} "repl:1" ("(a" ++ "\n" ++ more)).all = .ok nodes) ↔
      (error.needsMore = true ∨ error.formDue = true) ∧ ¬ error.CutsEscape "(a" := by
  have failed : (read {} "repl:1" "(a").error =
      some (.ofFlaw "repl:1" "(a" (.unclosed .round) 0) := by decide +kernel
  exact (read_continues_iff {} "repl:1" "(a" _ (by rw [Reading.all, failed])).1

/-- Asking for more is not the same as being able to use it: a quote mark alone is given up,
though a form may follow it, and a literal that ends in a backslash asks for lines, though
none can complete it. -/
theorem needsMore_ne_continues :
    (∃ error nodes, (read {} "repl:1" "'").all = .error error ∧ error.needsMore = false ∧
      (read {} "repl:1" ("'" ++ "\n" ++ "x")).all = .ok nodes) ∧
    ∃ error, (read {} "repl:1" "\"\\").all = .error error ∧ error.needsMore = true ∧
      ∀ more nodes, (read {} "repl:1" ("\"\\" ++ "\n" ++ more)).all ≠ .ok nodes := by
  constructor
  · have failed : (read {} "repl:1" "'").error = some (.ofFlaw "repl:1" "'" .endOfInput 1) := by
      decide +kernel
    have reads : (read {} "repl:1" ("'" ++ "\n" ++ "x")).error = none := by decide +kernel
    exact ⟨_, _, by rw [Reading.all, failed], rfl, by rw [Reading.all, reads]⟩
  · have failed : (read {} "repl:1" "\"\\").error =
        some (.ofFlaw "repl:1" "\"\\" .unclosedText 0) := by decide +kernel
    have all : (read {} "repl:1" "\"\\").all =
        .error (.ofFlaw "repl:1" "\"\\" .unclosedText 0) := by rw [Reading.all, failed]
    refine ⟨_, all, rfl, fun more nodes read => ?_⟩
    have notCut := ((read_line_iff all).mp ⟨more, nodes, read⟩).2
    rw [ReadError.cutsEscape_iff] at notCut
    exact notCut ⟨[], [], [], rfl, .nil, rfl⟩

end Sexpr
