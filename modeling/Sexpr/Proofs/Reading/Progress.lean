/-
Reading on demand.

A `Cursor` reads a form of its text whenever it is asked for one. Each call answers with the
first of what is left of the reading (`Cursor.next_eq`), so that any number of calls answers with
the reading and then with nothing (`Cursor.answers_eq`). Main statement: `reader_progress`, the
reader comes to an end, and it goes on in the text until it does.
-/

import Sexpr.Proofs.Reading.Outcome

namespace Sexpr

open Grammar
open Text (byteLength byteLength_append)

/-- The forms of a text one after the other, and behind them its error, if any. -/
def Reading.items (r : Reading) : List (Except ReadError Node) :=
  r.forms.map .ok ++ (r.error.map .error).toList

/-- A text whose forms are read on demand. -/
structure Cursor where
  settings : ReadSettings
  label : String
  text : String
  /-- Where the rest of the text begins. -/
  offset : Nat
  rest : List Char
  /-- The text is at its end, or at its error. -/
  done : Bool

namespace Cursor

open Reading Descent

def start (settings : ReadSettings) (label text : String) : Cursor :=
  ⟨settings, label, text, 0, text.toList, false⟩

/-- Reads one more form. The answer is the form, the error of the text, or nothing. -/
def next (fuel : Nat) (c : Cursor) : Option (Option (Except ReadError Node) × Cursor) := do
  if c.done then return (none, c)
  else
    let (offset, rest) ← trivia c.settings.comments fuel c.offset c.rest
    if rest.isEmpty then return (none, { c with offset, rest, done := true })
    else
      match ← (form c.settings c.label fuel 0 offset rest).run with
      | .ok taken =>
        return (some (.ok taken.node), { c with offset := taken.stop, rest := taken.rest })
      | .error (flaw, place) =>
        return (some (.error (.ofFlaw c.label c.text flaw place)),
          { c with offset, rest, done := true })

/-- The answers to a number of calls. -/
def answers (fuel : Nat) : Nat → Cursor → Option (List (Option (Except ReadError Node)))
  | 0, _ => some []
  | n + 1, c => do
    let (answer, c) ← c.next fuel
    return answer :: (← answers fuel n c)

/-- What is left to be read. -/
def items (c : Cursor) : List (Except ReadError Node) :=
  if c.done then []
  else
    let (forms, flaw) := readTokens c.settings c.label (c.offset + byteLength c.rest) []
      (Token.scan c.settings.comments c.offset c.rest)
    Reading.items ⟨forms, flaw.map fun (flaw, offset) => .ofFlaw c.label c.text flaw offset⟩

theorem items_start (settings : ReadSettings) (label text : String) :
    (start settings label text).items = (read settings label text).items := by
  simp only [items, start, read, Bool.false_eq_true, if_false, Nat.zero_add,
    Text.byteLength_toList]

/-- The characters that have not been read. -/
def left (c : Cursor) : Nat :=
  if c.done then 0 else c.rest.length

section

variable {settings : ReadSettings} {label text : String} {offset : Nat} {rest : List Char}

theorem items_behind {gap : List Char}
    (scanned : Token.scan settings.comments offset (gap ++ rest) =
      Token.scan settings.comments (offset + byteLength gap) rest) :
    items ⟨settings, label, text, offset, gap ++ rest, false⟩ =
      items ⟨settings, label, text, offset + byteLength gap, rest, false⟩ := by
  simp only [items, scanned, byteLength_append, Nat.add_assoc]

theorem items_nil : items ⟨settings, label, text, offset, [], false⟩ = [] := by
  simp only [items, Token.scan_nil]
  rfl

theorem items_of_flaw {flaw : FlawAt}
    (reads : ∀ stop, stop = offset + byteLength rest →
      readTokens settings label stop [] (Token.scan settings.comments offset rest) =
        proceed settings label stop [] (.error flaw)) :
    items ⟨settings, label, text, offset, rest, false⟩ =
      [.error (.ofFlaw label text flaw.1 flaw.2)] := by
  simp only [items, reads _ rfl, proceed]
  rfl

theorem items_of_form {taken : Taken} (consumes : Consumes offset rest taken.stop taken.rest)
    (reads : ∀ stop, stop = offset + byteLength rest →
      readTokens settings label stop [] (Token.scan settings.comments offset rest) =
        proceed settings label stop [] (.ok taken)) :
    items ⟨settings, label, text, offset, rest, false⟩ =
      .ok taken.node :: items ⟨settings, label, text, taken.stop, taken.rest, false⟩ := by
  -- what is left behind the form ends where the text does
  simp only [items, ← consumes.atEnd, reads _ consumes.atEnd, proceed, deliver, resume]
  rfl

end

/-- A call answers with the first of what is left, and leaves the others. -/
theorem next_eq {fuel : Nat} {c : Cursor} (enough : 2 * c.rest.length + 1 < fuel) :
    ∃ c', c.next fuel = some (c.items.head?, c') ∧ c'.items = c.items.tail ∧
      c'.rest.length ≤ c.rest.length ∧ (c.items ≠ [] → c'.left < c.left) := by
  obtain ⟨settings, label, text, offset, rest, done⟩ := c
  cases done with
  | true => exact ⟨_, rfl, rfl, Nat.le_refl _, fun some => absurd rfl some⟩
  | false =>
    dsimp only at enough ⊢
    obtain ⟨gap, front, rfl, skips, begins, scanned⟩ :=
      exists_front settings.comments offset rest
    have skipped := skips fuel (by omega)
    rw [List.length_append] at enough
    rw [items_behind scanned]
    cases front with
    | nil =>
      rw [items_nil]
      refine ⟨⟨settings, label, text, offset + byteLength gap, [], true⟩, ?_, rfl, by simp,
        by simp⟩
      simp only [next, skipped]
      rfl
    | cons c rest =>
      obtain ⟨outcome, ran, progresses, reads⟩ :=
        form_ends_outside (begins c rfl) (show 2 * (c :: rest).length + 1 < fuel by omega) label
          (offset + byteLength gap)
      cases outcome with
      | error flaw =>
        rw [items_of_flaw reads]
        refine ⟨⟨settings, label, text, offset + byteLength gap, c :: rest, true⟩, ?_, rfl,
          by simp, by simp [left]⟩
        simp only [next, skipped]
        simp [ran]
      | ok taken =>
        have consumed : Consumes offset (gap ++ c :: rest) taken.stop taken.rest :=
          Consumes.behind progresses
        have shorter := consumed.shorter
        rw [items_of_form progresses reads]
        refine ⟨⟨settings, label, text, taken.stop, taken.rest, false⟩, ?_, rfl,
          Nat.le_of_lt shorter, fun _ => shorter⟩
        simp only [next, skipped]
        simp [ran]

/-- The answers are what is left, one after the other, and then nothing. -/
theorem answers_eq {fuel : Nat} (n : Nat) {c : Cursor} (enough : 2 * c.rest.length + 1 < fuel) :
    c.answers fuel n = some ((List.range n).map (c.items[·]?)) := by
  induction n generalizing c with
  | zero => rfl
  | succ n ih =>
    obtain ⟨c', called, others, noLonger, _⟩ := next_eq enough
    have behind := @ih c' (by omega)
    rw [answers, called, List.range_succ_eq_map, List.map_cons, List.map_map]
    simp only [Option.bind_eq_bind, Option.bind_some, behind, others, List.getElem?_tail,
      List.head?_eq_getElem?]
    rfl

/-- Every item takes a character. -/
theorem length_items_le (c : Cursor) : c.items.length ≤ c.left := by
  generalize left : c.items = items
  induction items generalizing c with
  | nil => exact Nat.zero_le _
  | cons item items ih =>
    obtain ⟨c', _, others, _, shorter⟩ := next_eq (Nat.lt_succ_self (2 * c.rest.length + 1))
    rw [left] at others shorter
    exact Nat.lt_of_le_of_lt (ih c' others) (shorter (by simp))

end Cursor

/-- Behind an error there is nothing. -/
theorem Reading.length_items {r : Reading} {i : Nat} {error : ReadError}
    (h : r.items[i]? = some (.error error)) : r.items.length = i + 1 := by
  have within : i < r.items.length := (List.getElem?_eq_some_iff.mp h).1
  have length : r.items.length ≤ r.forms.length + 1 := by
    cases failed : r.error <;> simp [items, failed]
  have behind : r.forms.length ≤ i := by
    by_contra before
    rw [items, List.getElem?_append_left (by simpa using before), List.getElem?_map] at h
    obtain ⟨n, _, form⟩ := Option.map_eq_some_iff.mp h
    cases form
  omega

open Descent in
/-- The reader comes to an end, and it goes on in the text until it does. From any place of a text
trivia is skipped up to where text begins or ends, and there is none behind it. Reading a literal,
a form or the items of a bracket comes to one outcome, with any fuel that the length of the text
calls for: a flaw, or some of the text has been taken. On demand a text gives its forms and then
its error, if any: no more of them than it has characters, an error as the last, and nothing
behind it or behind the end. -/
theorem reader_progress (settings : ReadSettings) (label text : String) :
    (∀ front cs, text.toList = front ++ cs → let offset := byteLength front
      (∃ gap rest, cs = gap ++ rest ∧ (∀ c ∈ rest.head?, Begins settings.comments c) ∧
        let start := byteLength (front ++ gap)
        ∀ fuel, cs.length < fuel →
          trivia settings.comments fuel offset cs = some (start, rest) ∧
          trivia settings.comments fuel start rest = some (start, rest)) ∧
      ((∀ fuel, cs.length < fuel →
          literal fuel offset [] cs = some (Text.unquote offset cs)) ∧
        ∀ body stop rest, Text.unquote offset cs = .closed body stop rest →
          Consumes offset cs stop rest) ∧
      (∀ depth, ∃ outcome, (∀ fuel, 2 * cs.length + 1 < fuel →
          (form settings label fuel depth offset cs).run = some outcome) ∧
        Progresses offset cs outcome) ∧
      ∀ depth kind start items, ∃ outcome, (∀ fuel, 2 * cs.length + 2 < fuel →
          (sequence settings label fuel depth kind start items offset cs).run = some outcome) ∧
        Progresses offset cs outcome) ∧
    let items := (read settings label text).items
    (∀ fuel, 2 * text.toList.length + 1 < fuel → ∀ n,
      (Cursor.start settings label text).answers fuel n =
        some ((List.range n).map (items[·]?))) ∧
    items.length ≤ text.toList.length ∧
    (∀ (i : Nat) (error : ReadError), items[i]? = some (.error error) →
      items.length = i + 1) ∧
    ∀ i j : Nat, i < j → (items[i]? = none ∨ ∃ error, items[i]? = some (.error error)) →
      items[j]? = none := by
  constructor
  · intro front cs cut offset
    refine ⟨?_, ⟨fun fuel enough => literal_eq enough offset, fun _ _ _ => consumes_of_unquote⟩,
      fun depth => exists_outcome_form settings label depth offset cs,
      fun depth kind start items =>
        exists_outcome_sequence settings label depth kind start items offset cs⟩
    obtain ⟨gap, rest, rfl, skips, begins, _⟩ := exists_front settings.comments offset cs
    rw [← byteLength_append] at skips
    refine ⟨gap, rest, rfl, begins, fun fuel enough => ⟨skips fuel enough, ?_⟩⟩
    rw [List.length_append] at enough
    exact trivia_of_begins begins (by omega) _
  · intro items
    have same : (Cursor.start settings label text).items = items := Cursor.items_start ..
    refine ⟨fun fuel enough n => ?_, ?_, fun i error => Reading.length_items,
      fun i j later ended => ?_⟩
    · rw [Cursor.answers_eq n enough, same]
    · rw [← same]
      exact Cursor.length_items_le _
    · rw [List.getElem?_eq_none_iff]
      rcases ended with none | ⟨error, last⟩
      · have := List.getElem?_eq_none_iff.mp none
        omega
      · have : items.length = i + 1 := Reading.length_items last
        omega

/-- In `a 'b ]` two forms and an error are read, one after the other, and then nothing. -/
theorem reader_progress_unopened :
    let text := "a 'b ]"
    let items := (read {} "in" text).items
    text.toList = ['a'] ++ " 'b ]".toList ∧ 2 * text.toList.length + 1 < 20 ∧
      (∃ outcome, (∀ fuel, 11 < fuel →
          (Descent.form {} "in" fuel 0 1 " 'b ]".toList).run = some outcome) ∧
        Descent.Progresses 1 " 'b ]".toList outcome) ∧
      ∃ error, items[2]? = some (.error error) ∧ items.length = 3 ∧
        (Cursor.start {} "in" text).answers 20 5 =
          some [items[0]?, items[1]?, some (.error error), none, none] := by
  intro text items
  have cut : text.toList = ['a'] ++ " 'b ]".toList := by decide
  have enough : 2 * text.toList.length + 1 < 20 := by decide
  have two : (read {} "in" text).forms.length = 2 := by decide +kernel
  have failed : (read {} "in" text).error.isSome = true := by decide +kernel
  obtain ⟨error, failed⟩ := Option.isSome_iff_exists.mp failed
  have last : items[2]? = some (.error error) := by simp [items, Reading.items, two, failed]
  obtain ⟨reads, answers, _, atEnd, nothing⟩ := reader_progress {} "in" text
  refine ⟨cut, enough, (reads ['a'] _ cut).2.2.1 0, error, last, atEnd 2 error last, ?_⟩
  calc (Cursor.start {} "in" text).answers 20 5
      = some [items[0]?, items[1]?, items[2]?, items[3]?, items[4]?] := answers 20 enough 5
    _ = some [items[0]?, items[1]?, some (.error error), none, none] := by
        rw [last, nothing 2 3 (by decide) (.inr ⟨error, last⟩),
          nothing 2 4 (by decide) (.inr ⟨error, last⟩)]

end Sexpr
