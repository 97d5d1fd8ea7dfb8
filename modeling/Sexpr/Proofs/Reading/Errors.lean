/-
Where errors stand.

The error that reports a flaw covers what the flaw is about (`ReadError.stands_of_flaw`). The
first form of a text ends at some place, and reading a single form goes by what is found behind
that place (`Reading.first_ends`). Main statement: `read_errors`, errors stand where they say,
and the two ways of reading agree on them.
-/

import Sexpr.Proofs.Reading.Beginning
import Sexpr.Proofs.Reading.Closing
import Sexpr.Proofs.Reading.Spans

namespace Sexpr

open Grammar
open Text (byteLength byteLength_append)

/-- The error begins between two characters of the text, ends in the text and, if it is about
something, covers it. -/
def ReadError.Stands (label text : String) (error : ReadError) : Prop :=
  ∃ front rest span, text.toList = front ++ rest ∧ error.place = ⟨label, some span⟩ ∧
    span.start = byteLength front ∧ span.start ≤ span.stop ∧ span.stop ≤ text.utf8ByteSize ∧
    ∀ found, error.found = some found → found ≠ "" →
      Text.slice? text span.start span.stop = some found.toList

/-- The error for a flaw covers what the flaw is about. -/
theorem ReadError.stands_of_flaw {label text : String} {flaw : Flaw} {offset : Nat}
    (h : flaw.Stands text.toList offset) : (ofFlaw label text flaw offset).Stands label text := by
  obtain ⟨front, rest, cut, rfl, follows⟩ := h
  have size : text.utf8ByteSize = byteLength front + byteLength rest := by
    rw [← Text.byteLength_toList, cut, byteLength_append]
  refine ⟨front, rest, _, cut, rfl, rfl, Span.ordered _, ?_, fun found about notEmpty => ?_⟩
  · simp only [Span.between]
    omega
  · obtain ⟨behind, rfl⟩ := follows found about
    have width : flaw.width = byteLength found.toList := by
      have positive : found.utf8ByteSize ≠ 0 := fun zero =>
        notEmpty (String.utf8ByteSize_eq_zero_iff.mp zero)
      rw [Flaw.width, show flaw.found? = some found from about, Text.byteLength_toList]
      dsimp only
      omega
    have stop : max (byteLength front)
        (min (byteLength front + flaw.width) text.utf8ByteSize) =
          byteLength front + byteLength found.toList := by
      rw [byteLength_append] at size
      omega
    simp only [Span.between, stop]
    exact Text.slice?_of_eq_append cut

namespace Reading

variable {settings : ReadSettings} {comments : Bool} {label : String} {cs : List Char}
  {nodes : List Node}

/-- No flaw is about what follows a form. -/
theorem kind_of_flaw {stop : Nat} {flaw : Flaw} {offset : Nat}
    (h : readTokens settings label stop [] (Token.scan comments 0 cs) =
      (nodes, some (flaw, offset))) : flaw.kind ≠ .expectedEnd := by
  rcases scan_flaw_cases h with
    ⟨_, _, _, _, _, _, _, _, why⟩ | ⟨left, _, _, isFlaw⟩
  · cases why with
    | tooDeep _ | unopened _ _ | mismatched _ _ _ => rintro ⟨⟩
    | broken broken _ =>
      rcases Token.kind_of_next broken with kind | kind <;> rw [kind] <;> rintro ⟨⟩
  · have kindAtEnd : (flawAtEnd settings stop left).1.kind ≠ .expectedEnd := by
      unfold flawAtEnd
      split
      · rintro ⟨⟩
      · split <;> rintro ⟨⟩
    rwa [← isFlaw] at kindAtEnd

/-! ### The first form -/

/-- What comes first is the first form that is read. -/
theorem readFirst_of_forms {stop : Nat} {tokens : List Token} {node : Node} {more : List Node}
    (h : (readTokens settings label stop [] tokens).1 = node :: more) :
    ∃ others, readFirst settings label stop [] tokens = .ok (node, others) := by
  cases tokens with
  | nil => cases h
  | cons token tokens =>
    rw [readTokens_of_readFirst (.inr (List.cons_ne_nil _ _))] at h
    cases first : readFirst settings label stop [] (token :: tokens) with
    | error flaw =>
      rw [first] at h
      cases h
    | ok reading =>
      obtain ⟨other, others⟩ := reading
      rw [first] at h
      obtain ⟨rfl, _⟩ := List.cons.inj h
      exact ⟨others, rfl⟩

theorem forms_of_readFirst {stop : Nat} {tokens others : List Token} {node : Node}
    (h : readFirst settings label stop [] tokens = .ok (node, others)) :
    ∃ more, (readTokens settings label stop [] tokens).1 = node :: more := by
  cases tokens with
  | nil => cases h
  | cons token tokens =>
    rw [readTokens_of_readFirst (.inr (List.cons_ne_nil _ _)), h]
    exact ⟨_, rfl⟩

theorem advance_of_readFirst {stop : Nat} {stack : List Pending} {tokens others : List Token}
    {node : Node} (h : readFirst settings label stop stack tokens = .ok (node, others)) :
    ∃ first, tokens = first ++ others ∧ advance settings label stack first = ([node], .ok []) := by
  induction tokens generalizing stack with
  | nil => cases h
  | cons token tokens ih =>
    rw [readFirst] at h
    cases stepped : step settings label stack token with
    | error flaw =>
      rw [stepped] at h
      cases h
    | ok progress =>
      rw [stepped] at h
      cases progress with
      | inside left =>
        obtain ⟨first, rfl, taken⟩ := ih h
        refine ⟨token :: first, rfl, ?_⟩
        rw [advance_of_step stepped]
        exact taken
      | done node' =>
        cases h
        refine ⟨[token], rfl, ?_⟩
        rw [advance_of_step stepped]
        rfl

/-- The first form ends between two characters, and the tokens behind it are those of the text
behind it. -/
theorem first_ends {stop : Nat} {node : Node} {others : List Token}
    (h : readFirst settings label stop [] (Token.scan comments 0 cs) = .ok (node, others)) :
    ∃ front behind, cs = front ++ behind ∧
      node.place.span.map Span.stop = some (byteLength front) ∧
      Token.scan comments (byteLength front) behind = others := by
  obtain ⟨first, scanned, taken⟩ := advance_of_readFirst h
  obtain ⟨front, rest, rfl, behind, begun⟩ := begun_of_advance scanned taken
  obtain ⟨forms⟩ := begun
  obtain _ | @⟨_, gap, piece, after, _, _, _, _, form, row⟩ := forms
  obtain ⟨trivia⟩ := row
  refine ⟨gap ++ piece, after ++ rest, by simp, ?_, ?_⟩
  · rw [form.place_eq, span_placeOf]
    simp
  · rw [Token.scan_trivia trivia, ← behind]
    simp [Nat.add_assoc]

/-- What is left behind the first form stands where text begins behind it. -/
theorem trailing_of_readFirst {stop : Nat} {node : Node} {token : Token} {others : List Token}
    (h : readFirst settings label stop [] (Token.scan comments 0 cs) =
      .ok (node, token :: others)) :
    ∃ front gap c rest, cs = front ++ (gap ++ c :: rest) ∧
      node.place.span.map Span.stop = some (byteLength front) ∧
      Trivia comments gap (c :: rest) ∧ Begins comments c ∧
      token.start = byteLength (front ++ gap) := by
  obtain ⟨front, behind, rfl, ends, scanned⟩ := first_ends h
  obtain ⟨gap, c, rest, rfl, trivia, begins, rfl⟩ := Token.head_scan scanned
  refine ⟨front, gap, c, rest, rfl, ends, trivia, begins, ?_⟩
  rw [Token.start_next, byteLength_append]

/-- The word at the end of a piece of a text. -/
theorem wordAt_eq {text : String} {front rest : List Char} (cut : text.toList = front ++ rest) :
    wordAt text (byteLength front) = String.ofList (rest.takeWhile (!Text.isBlank ·)) := by
  rw [wordAt, cut, Text.dropBytes?_append, Option.getD_some]

/-- Trivia ends where a form is expected, if there is room for one. -/
theorem flawAtEnd_nil (settings : ReadSettings) (stop : Nat) :
    flawAtEnd settings stop [] =
      (if settings.depth = 0 then .tooDeep settings.depth else .endOfInput, stop) := by
  simp only [flawAtEnd, List.length_nil, Nat.le_zero]
  split
  · rfl
  · rfl

end Reading

/-! ### Errors -/

/-- The error for what follows the first form: the form can be read, and behind it, where text
begins again, the error stands. -/
def ReadError.IsTrailing (settings : ReadSettings) (label text : String) (error : ReadError) :
    Prop :=
  ∃ n more front gap c rest, (read settings label text).forms = n :: more ∧
    n.place.span.map Span.stop = some (byteLength front) ∧
    text.toList = front ++ (gap ++ c :: rest) ∧
    Trivia settings.comments gap (c :: rest) ∧ Begins settings.comments c ∧
    error = .ofFlaw label text
      (.trailing (String.ofList ((c :: rest).takeWhile (!Text.isBlank ·))))
      (byteLength (front ++ gap))

section

variable {settings : ReadSettings} {label text : String} {error : ReadError}

/-- The error of a reading is that of a flaw. -/
theorem flaw_of_read (h : (read settings label text).error = some error) :
    ∃ flaw offset, error = .ofFlaw label text flaw offset ∧
      Reading.readTokens settings label (byteLength text.toList) []
        (Token.scan settings.comments 0 text.toList) =
          ((read settings label text).forms, some (flaw, offset)) := by
  simp only [read] at h ⊢
  rw [Text.byteLength_toList]
  generalize Reading.readTokens settings label text.utf8ByteSize []
    (Token.scan settings.comments 0 text.toList) = r at h
  obtain ⟨nodes, _ | ⟨flaw, offset⟩⟩ := r
  · cases h
  · cases h
    exact ⟨flaw, offset, rfl, rfl⟩

theorem stands_of_read (h : (read settings label text).error = some error) :
    error.Stands label text := by
  obtain ⟨flaw, offset, rfl, flawed⟩ := flaw_of_read h
  exact ReadError.stands_of_flaw (Reading.stands_of_flaw flawed)

theorem kind_of_read (h : (read settings label text).error = some error) :
    error.kind ≠ .expectedEnd := by
  obtain ⟨flaw, offset, rfl, flawed⟩ := flaw_of_read h
  exact Reading.kind_of_flaw flawed

theorem stands_of_isTrailing (h : error.IsTrailing settings label text) :
    error.Stands label text := by
  obtain ⟨n, more, front, gap, c, rest, _, _, cut, _, _, rfl⟩ := h
  rw [← List.append_assoc] at cut
  refine ReadError.stands_of_flaw ⟨front ++ gap, c :: rest, cut, rfl, fun found about => ?_⟩
  obtain rfl := Option.some.inj about
  rw [String.toList_ofList]
  exact List.takeWhile_prefix _

/-- A single form is refused because the first form of the text is, because there is none, or
for what follows it. -/
theorem error_of_readOne (h : readOne settings label text = .error error) :
    read settings label text = ⟨[], some error⟩ ∨
      Trivia settings.comments text.toList [] ∧
        error = .ofFlaw label text
          (if settings.depth = 0 then .tooDeep settings.depth else .endOfInput)
          text.utf8ByteSize ∨
      error.IsTrailing settings label text := by
  rw [readOne] at h
  split at h
  · rename_i flaw offset first
    cases h
    rcases Reading.flaw_of_readFirst first with flawed | ⟨trivia, isFlaw⟩
    · left
      rw [read, flawed]
      rfl
    · rw [Reading.flawAtEnd_nil] at isFlaw
      cases isFlaw
      exact .inr (.inl ⟨trivia, rfl⟩)
  · cases h
  · rename_i node token others first
    cases h
    obtain ⟨front, gap, c, rest, cut, ends, trivia, begins, start⟩ :=
      Reading.trailing_of_readFirst first
    obtain ⟨more, forms⟩ := Reading.forms_of_readFirst first
    refine .inr (.inr ⟨node, more, front, gap, c, rest, forms, ends, cut, trivia, begins, ?_⟩)
    rw [← List.append_assoc] at cut
    rw [start, Reading.wordAt_eq cut]

theorem readOne_of_isTrailing (h : error.IsTrailing settings label text) :
    readOne settings label text = .error error := by
  obtain ⟨n, more, front, gap, c, rest, forms, ends, cut, trivia, begins, rfl⟩ := h
  obtain ⟨others, first⟩ := Reading.readFirst_of_forms forms
  obtain ⟨front', behind, cut', ends', scanned⟩ := Reading.first_ends first
  obtain ⟨rfl, rfl⟩ := Text.append_inj_of_byteLength (cut.symm.trans cut')
    (Option.some.inj (ends.symm.trans ends'))
  obtain ⟨token, later, next, start⟩ := Token.scan_of_begins trivia begins (byteLength front)
  obtain rfl := scanned.symm.trans next
  rw [← List.append_assoc] at cut
  rw [readOne, first]
  dsimp only
  rw [start, ← byteLength_append, Reading.wordAt_eq cut]

theorem stands_of_readOne (h : readOne settings label text = .error error) :
    error.Stands label text := by
  rcases error_of_readOne h with flawed | ⟨_, rfl⟩ | trailing
  · exact stands_of_read (by rw [flawed])
  · rw [← Text.byteLength_toList]
    exact ReadError.stands_of_flaw (Flaw.stands_at_end (by split <;> rfl))
  · exact stands_of_isTrailing trailing

theorem readOne_trailing_iff :
    readOne settings label text = .error error ∧ error.kind = .expectedEnd ↔
      error.IsTrailing settings label text := by
  constructor
  · rintro ⟨failed, kind⟩
    rcases error_of_readOne failed with flawed | ⟨_, rfl⟩ | trailing
    · exact absurd kind (kind_of_read (by rw [flawed]))
    · simp only [ReadError.ofFlaw] at kind
      split at kind <;> cases kind
    · exact trailing
  · intro trailing
    refine ⟨readOne_of_isTrailing trailing, ?_⟩
    obtain ⟨_, _, _, _, _, _, _, _, _, _, _, rfl⟩ := trailing
    rfl

/-- Where there is room for a form, a single form is refused otherwise exactly if the first form
of the text is, or if there is none. -/
theorem readOne_flawed_iff (room : 0 < settings.depth) :
    readOne settings label text = .error error ∧ error.kind ≠ .expectedEnd ↔
      read settings label text = ⟨[], some error⟩ ∨
        Trivia settings.comments text.toList [] ∧
          error = .ofFlaw label text .endOfInput text.utf8ByteSize := by
  have hasRoom : settings.depth ≠ 0 := Nat.ne_of_gt room
  constructor
  · rintro ⟨failed, kind⟩
    rcases error_of_readOne failed with flawed | ⟨trivia, isError⟩ | trailing
    · exact .inl flawed
    · rw [if_neg hasRoom] at isError
      exact .inr ⟨trivia, isError⟩
    · exact absurd (readOne_trailing_iff.mpr trailing).2 kind
  · rintro (flawed | ⟨trivia, rfl⟩)
    · have failed : (read settings label text).error = some error := by rw [flawed]
      obtain ⟨flaw, offset, rfl, found⟩ := flaw_of_read failed
      rw [flawed, Text.byteLength_toList] at found
      exact ⟨by rw [readOne, Reading.readFirst_eq_error found], kind_of_read failed⟩
    · refine ⟨?_, by rintro ⟨⟩⟩
      rw [readOne, Token.scan_eq_nil_iff.mpr trivia, Reading.readFirst, Reading.flawAtEnd_nil,
        if_neg hasRoom]

end

/-- Errors stand where they say, and a single form is read as the forms of a text are. An error
of either reading has the label of the text and a span in the text that begins between two
characters; if the error is about something, that is what the span covers. A single form is read
exactly if it is all that the text holds. It is refused for what follows it exactly if the first
form of the text can be read and something other than trivia follows, and the error stands there.
Otherwise the error is that of the first form, or, for trivia alone, that a form is expected. -/
theorem read_errors (settings : ReadSettings) (label text : String) :
    let reading := read settings label text
    let single := readOne settings label text
    (∀ error, reading.error = some error ∨ single = .error error → error.Stands label text) ∧
    (0 < settings.depth →
      (∀ n, single = .ok n ↔ reading.all = .ok [n]) ∧
      (∀ error, single = .error error ∧ error.kind = .expectedEnd ↔
        error.IsTrailing settings label text) ∧
      ∀ error, single = .error error ∧ error.kind ≠ .expectedEnd ↔
        reading = ⟨[], some error⟩ ∨
          Trivia settings.comments text.toList [] ∧
            error = .ofFlaw label text .endOfInput text.utf8ByteSize) := by
  intro reading single
  constructor
  · rintro error (failed | failed)
    · exact stands_of_read failed
    · exact stands_of_readOne failed
  · intro room
    exact ⟨fun n => readOne_iff_all, fun error => readOne_trailing_iff,
      fun error => readOne_flawed_iff room⟩

/-- In `1 ; one` and a line `x 2` behind it, `x` is the first that follows the trivia behind `1`:
reading a single form is refused, and the error covers `x`. -/
theorem read_errors_trailing :
    let text := "1 ; one\nx 2"
    let error := ReadError.ofFlaw "in" text (.trailing "x") 8
    0 < ({} : ReadSettings).depth ∧
      (readOne {} "in" text = .error error ∧ error.kind = .expectedEnd) ∧
      error.Stands "in" text := by
  intro text error
  have room : 0 < ({} : ReadSettings).depth := by decide
  have stops : (read {} "in" text).forms.map (·.place.span.map Span.stop) =
      [some 1, some 9, some 11] := by decide +kernel
  obtain ⟨n, more, forms, ends, _⟩ := List.map_eq_cons_iff.mp stops
  have line : Trivia true (';' :: (" one".toList ++ ['\n'])) "x 2".toList :=
    .comment rfl (by simp) (by rintro c ⟨⟩; rfl) (.blank (by decide) .nil)
  have trivia : Trivia true " ; one\n".toList "x 2".toList := .blank (by decide) line
  have begins : Begins true 'x' := ⟨by decide, fun _ => by decide⟩
  have refused := ((read_errors {} "in" text).2 room).2.1 error |>.2
    ⟨n, more, "1".toList, " ; one\n".toList, 'x', " 2".toList, forms, ends, by decide, trivia,
      begins, by decide⟩
  exact ⟨room, refused, (read_errors {} "in" text).1 error (.inr refused.1)⟩

end Sexpr
