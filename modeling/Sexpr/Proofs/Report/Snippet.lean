/-
The line that a report quotes, and the carets below.

The lines that are quoted are the lines of the text without what ends them
(`Text.getD_lineTexts`), so the quoted line is that of the start of the span. The carets cover
what the span and the quoted line have in common (`caretCount_eq`). Main statement:
`snippet_marks`.
-/

import Sexpr.Proofs.Text.Lines
import Sexpr.Report.Sources

namespace Sexpr

open Text (byteLength byteLength_append IsBoundary LineAround lineTexts starts startsWithin lineCol)

/-! ### Lines as they are quoted -/

namespace Text

/-- What is left of a line, in front of what stands behind it, without its end: a line feed, or
a carriage return with a line feed. The last line of a text has no such end. -/
inductive Unterminated : (line after quoted : List Char) → Prop where
  | last (line : List Char) : Unterminated line [] line
  | feed {line : List Char} (rest : List Char) : line.getLast? ≠ some '\r' →
      Unterminated line ('\n' :: rest) line
  | returned (line rest : List Char) : Unterminated (line ++ ['\r']) ('\n' :: rest) line

theorem Unterminated.exists_append {line after quoted : List Char}
    (h : Unterminated line after quoted) : ∃ ending, line = quoted ++ ending := by
  cases h with
  | last | feed => exact ⟨[], (List.append_nil _).symm⟩
  | returned => exact ⟨['\r'], rfl⟩

/-- A character in front of a line that is not empty is quoted with it. -/
theorem Unterminated.cons {line after quoted : List Char} (h : Unterminated line after quoted)
    (nonempty : line ≠ []) (c : Char) : Unterminated (c :: line) after (c :: quoted) := by
  cases h with
  | last => exact .last _
  | feed rest notReturned =>
    obtain ⟨d, line, rfl⟩ := List.exists_cons_of_ne_nil nonempty
    exact .feed rest (by rwa [List.getLast?_cons_cons])
  | returned _ rest => exact .returned (c :: quoted) rest

/-- The first of the quoted lines is the first line, and the others are those of what follows. -/
theorem lineTexts_feed {line : List Char} (inside : '\n' ∉ line) (rest : List Char) :
    ∃ quoted, Unterminated line ('\n' :: rest) quoted ∧
      lineTexts (line ++ '\n' :: rest) = quoted :: lineTexts rest := by
  induction line with
  | nil => exact ⟨[], .feed rest (by simp), by simp [lineTexts]⟩
  | cons c line ih =>
    have notFeed : c ≠ '\n' := fun same => inside (same ▸ List.mem_cons_self)
    have insideRest : '\n' ∉ line := fun mem => inside (List.mem_cons_of_mem c mem)
    by_cases returned : c = '\r' ∧ line = []
    · obtain ⟨rfl, rfl⟩ := returned
      exact ⟨[], .returned [] rest, by simp [lineTexts]⟩
    · obtain ⟨quoted, unterminated, lines⟩ := ih insideRest
      -- the line feed directly behind a carriage return would end the line
      have notReturned : ∀ cs, c = '\r' → line ++ '\n' :: rest = '\n' :: cs → False := by
        intro cs isReturn next
        cases line with
        | nil => exact returned ⟨isReturn, rfl⟩
        | cons d line =>
          obtain rfl := (List.cons.inj next).1
          exact insideRest List.mem_cons_self
      rw [List.cons_append, lineTexts.eq_4 c _ notFeed notReturned, lines]
      refine ⟨c :: quoted, ?_, rfl⟩
      cases line with
      | nil =>
        obtain ⟨ending, cut⟩ := unterminated.exists_append
        obtain ⟨rfl, rfl⟩ := List.append_eq_nil_iff.mp cut.symm
        refine .feed rest ?_
        rintro ⟨⟩
        exact returned ⟨rfl, rfl⟩
      | cons d line => exact unterminated.cons (List.cons_ne_nil d line) c

theorem lineTexts_last {line : List Char} (inside : '\n' ∉ line) : lineTexts line = [line] := by
  induction line with
  | nil => rfl
  | cons c line ih =>
    have notFeed : c ≠ '\n' := fun same => inside (same ▸ List.mem_cons_self)
    have insideRest : '\n' ∉ line := fun mem => inside (List.mem_cons_of_mem c mem)
    rw [lineTexts.eq_4 c line notFeed (fun cs _ next => insideRest (next ▸ List.mem_cons_self)),
      ih insideRest]

/-- Among the quoted lines the one behind as many as have ended is the line around the offset. -/
theorem getD_lineTexts {cs before line after : List Char} {offset : Nat}
    (h : LineAround cs offset before line after) :
    Unterminated line after ((lineTexts cs).getD (before.count '\n') []) := by
  obtain ⟨rfl, begins, inside, ends, -, -⟩ := h
  induction before using lines_induction with
  | last before unended =>
    obtain rfl := begins.eq_nil unended
    rw [List.nil_append, List.count_nil]
    cases after with
    | nil =>
      rw [List.append_nil, lineTexts_last inside]
      exact .last line
    | cons c rest =>
      obtain rfl := ends c rfl
      obtain ⟨quoted, unterminated, lines⟩ := lineTexts_feed inside rest
      rwa [lines]
  | cons first before inFirst ih =>
    obtain ⟨quoted, _, lines⟩ := lineTexts_feed inFirst (before ++ (line ++ after))
    rw [List.append_assoc, List.cons_append, lines, List.count_append,
      List.count_eq_zero_of_not_mem inFirst, List.count_cons_self, Nat.zero_add,
      List.getD_cons_succ]
    exact ih (wholeLines_append_cons_iff.mp begins)

/-! ### What a span and a line have in common -/

theorem startsWithin_of_le {cs : List Char} {bytes : Nat} (fits : byteLength cs ≤ bytes) :
    startsWithin cs bytes = cs.length := by
  induction cs generalizing bytes with
  | nil => rfl
  | cons c cs ih =>
    have size := c.utf8Size_pos
    rw [byteLength_cons] at fits
    rw [startsWithin, if_neg (by omega), ih (by omega), List.length_cons]

/-- As many characters of a slice stand on a line that begins with it as start on the line within
the bytes of the slice. -/
theorem min_length_takeWhile {piece rest line after : List Char}
    (cut : piece ++ rest = line ++ after) (inside : '\n' ∉ line) :
    min (piece.takeWhile (· != '\n')).length line.length = startsWithin line (byteLength piece) := by
  have kept {cs : List Char} (unended : '\n' ∉ cs) : ∀ c ∈ cs, (c != '\n') = true :=
    fun c mem => bne_iff_ne.mpr fun same => unended (same ▸ mem)
  rcases List.append_eq_append_iff.mp cut with ⟨more, rfl, rfl⟩ | ⟨more, rfl, rfl⟩
  · have unended : '\n' ∉ piece := fun mem => inside (List.mem_append_left more mem)
    rw [startsWithin_append, List.takeWhile_eq_self_iff.mpr (kept unended), List.length_append]
    exact Nat.min_eq_left (Nat.le_add_right _ _)
  · rw [startsWithin_of_le (by rw [byteLength_append]; exact Nat.le_add_right _ _),
      List.takeWhile_append_of_pos (kept inside), List.length_append]
    exact Nat.min_eq_right (Nat.le_add_right _ _)

/-- Of the characters of a text, those that start within a number of bytes behind a beginning of
the text are the ones behind this beginning that do. -/
theorem countP_starts_append (offset bytes : Nat) (front behind : List Char) :
    (starts offset (front ++ behind)).countP (fun place => offset + byteLength front ≤ place ∧
        place < offset + byteLength front + bytes) = startsWithin behind bytes := by
  have before : (starts offset front).countP (fun place => offset + byteLength front ≤ place ∧
      place < offset + byteLength front + bytes) = 0 := by
    rw [List.countP_eq_zero]
    intro place mem
    have := mem_starts mem
    simp only [decide_eq_true_eq]
    omega
  rw [starts_append, List.countP_append, before, Nat.zero_add, ← countP_starts]
  refine List.countP_congr fun place mem => ?_
  have := mem_starts mem
  simp only [decide_eq_true_eq]
  omega

/-- A boundary cuts the line around it in two. -/
theorem LineAround.cut_at {front behind before line after : List Char}
    (h : LineAround (front ++ behind) (byteLength front) before line after) :
    ∃ piece tail, front = before ++ piece ∧ line = piece ++ tail ∧ behind = tail ++ after := by
  obtain ⟨piece, rfl, lines⟩ := exists_piece h.cut.symm h.low
  have high := h.high
  rw [byteLength_append] at high
  obtain ⟨tail, rfl, rfl⟩ := exists_piece lines.symm (Nat.le_of_add_le_add_left high)
  exact ⟨piece, tail, rfl, rfl, rfl⟩

end Text

/-! ### Carets -/

/-- The carets of a span between boundaries, one at least, are as many as the characters of the
quoted line that start in the span. -/
theorem caretCount_eq {text : String} {span : Span} {before line after quoted : List Char}
    (around : LineAround text.toList (min span.start text.utf8ByteSize) before line after)
    (isQuoted : Text.Unterminated line after quoted)
    (first : IsBoundary text.toList (min span.start text.utf8ByteSize))
    (second : IsBoundary text.toList (min span.stop text.utf8ByteSize)) :
    caretCount text span quoted (lineCol text span.start).2 =
      max 1 ((starts (byteLength before) quoted).countP fun place =>
        span.start ≤ place ∧ place < span.stop) := by
  have ordered : min span.start text.utf8ByteSize ≤ min span.stop text.utf8ByteSize := by
    have := span.ordered
    omega
  obtain ⟨front, covered, rest, cut, start, stop⟩ := Text.exists_slice first second ordered
  rw [start, cut] at around
  obtain ⟨piece, tail, rfl, rfl, behind⟩ := around.cut_at
  have column : (lineCol text span.start).2 = piece.length + 1 := by
    have inside : '\n' ∉ piece := fun mem => around.inside (List.mem_append_left tail mem)
    rw [Text.lineCol_min, start,
      Text.lineCol_append (cut.trans (List.append_assoc _ _ _)) around.begins inside]
  obtain ⟨ending, whole⟩ := isQuoted.exists_append
  -- no character of the line starts behind the end of the text
  have counted : (starts (byteLength before) quoted).countP (fun place =>
      span.start ≤ place ∧ place < span.stop) =
      (starts (byteLength before) quoted).countP fun place =>
        byteLength before + byteLength piece ≤ place ∧
          place < byteLength before + byteLength piece + byteLength covered := by
    refine List.countP_congr fun place mem => ?_
    have bounds := Text.mem_starts mem
    have size : byteLength before + byteLength quoted ≤ text.utf8ByteSize := by
      have lengths := congrArg byteLength (cut.trans around.cut)
      rw [whole] at lengths
      simp only [byteLength_append, Text.byteLength_toList] at lengths
      omega
    rw [byteLength_append] at start stop
    simp only [decide_eq_true_eq]
    omega
  rw [caretCount, start, stop, Text.slice?_of_eq_append cut, column, counted,
    Nat.add_sub_cancel]
  dsimp only
  congr 1
  rcases List.append_eq_append_iff.mp whole with ⟨common, rfl, rfl⟩ | ⟨more, rfl, rfl⟩
  · -- the span begins on the quoted line
    rw [Text.countP_starts_append, List.length_append, Nat.add_sub_cancel_left]
    have inside : '\n' ∉ common := fun mem =>
      around.inside (List.mem_append_right _ (List.mem_append_left _ mem))
    exact Text.min_length_takeWhile (behind.trans (List.append_assoc _ _ _)) inside
  · -- the span begins behind it
    rw [List.length_append, Nat.sub_eq_zero_of_le (Nat.le_add_right _ _), Nat.min_zero,
      eq_comm, List.countP_eq_zero]
    intro place mem
    have bounds := Text.mem_starts mem
    rw [byteLength_append]
    simp only [decide_eq_true_eq]
    omega

/-- Carets run past the end of the quoted line only if there is a single one. -/
theorem caretCount_within (text : String) (span : Span) (quoted : List Char) (col : Nat) :
    1 ≤ caretCount text span quoted col ∧ (caretCount text span quoted col = 1 ∨
      col - 1 + caretCount text span quoted col ≤ quoted.length) := by
  have bounds (covered : Nat) : 1 ≤ max 1 (min covered (quoted.length - (col - 1))) ∧
      (max 1 (min covered (quoted.length - (col - 1))) = 1 ∨
        col - 1 + max 1 (min covered (quoted.length - (col - 1))) ≤ quoted.length) := by
    omega
  exact bounds _

theorem pushn_eq (s : String) (c : Char) (n : Nat) :
    s.pushn c n = s ++ String.ofList (List.replicate n c) := by
  induction n with
  | zero => simp [String.pushn, Nat.repeat]
  | succ n ih =>
    rw [String.pushn] at ih ⊢
    rw [Nat.repeat, ih, List.replicate_succ', String.ofList_append, ← String.append_assoc,
      String.push_eq_append, ← String.singleton_eq_ofList]

/-- Between its margins a snippet has the line with the number of the span's start, and blanks and
carets below it. -/
theorem snippet_eq (text : String) (span : Span) :
    let number := (lineCol text span.start).1
    let col := (lineCol text span.start).2
    let quoted := (lineTexts text.toList).getD (number - 1) []
    let margin := String.ofList (List.replicate (toString number).length ' ')
    snippet text span =
      [margin ++ " |", toString number ++ " | " ++ String.ofList quoted,
        margin ++ " | " ++ String.ofList (List.replicate (col - 1) ' ' ++
          List.replicate (caretCount text span quoted col) '^')] := by
  have margins (n : Nat) : (Nat.toDigits 10 n).length = (toString n).length := by
    rw [Nat.toString_eq_ofList_toDigits, String.length_ofList]
  simp only [snippet, pushn_eq, margins, String.empty_append, String.ofList_append]
  rfl

/-- A report quotes the line in which a span starts, or the last line for a span behind the text,
without what ends the line. Below stand as many blanks as the column has characters before it and
then carets, one at least. For a span between boundaries these are as many as the characters of
the quoted line that start in the span; in any case they run past the end of the line only if
there is a single one. Lines and columns count from one, so nothing is subtracted from less. -/
theorem snippet_marks (text : String) (span : Span) :
    let start := min span.start text.utf8ByteSize
    let stop := min span.stop text.utf8ByteSize
    let number := (lineCol text span.start).1
    let col := (lineCol text span.start).2
    let margin := String.ofList (List.replicate (toString number).length ' ')
    ∃ before line after quoted width,
      LineAround text.toList start before line after ∧ Text.Unterminated line after quoted ∧
      1 ≤ number ∧ 1 ≤ col ∧ 1 ≤ width ∧
      snippet text span =
        [margin ++ " |",
          toString number ++ " | " ++ String.ofList quoted,
          margin ++ " | " ++
            String.ofList (List.replicate (col - 1) ' ' ++ List.replicate width '^')] ∧
      (IsBoundary text.toList start → IsBoundary text.toList stop →
        width = max 1 ((starts (byteLength before) quoted).countP fun place =>
          span.start ≤ place ∧ place < span.stop)) ∧
      (width = 1 ∨ col - 1 + width ≤ quoted.length) := by
  intro start stop number col margin
  have within : start ≤ byteLength text.toList := by
    rw [Text.byteLength_toList]
    exact Nat.min_le_right _ _
  obtain ⟨before, line, after, around⟩ := Text.exists_lineAround text.toList within
  have isQuoted := Text.getD_lineTexts around
  have found := Text.locate?_eq_lineCol around
  rw [Text.locate?_around around, Option.some_inj] at found
  have isNumber : number = 1 + before.count '\n' := (congrArg Prod.fst found).symm
  have isCol : col = startsWithin line (start - byteLength before) + 1 :=
    (congrArg Prod.snd found).symm
  obtain ⟨positive, inLine⟩ :=
    caretCount_within text span ((lineTexts text.toList).getD (before.count '\n') []) col
  refine ⟨before, line, after, _, _, around, isQuoted, by omega, by omega, positive, ?_,
    caretCount_eq around isQuoted, inLine⟩
  have index : (lineCol text span.start).1 - 1 = before.count '\n' := by
    rw [show (lineCol text span.start).1 = number from rfl, isNumber, Nat.add_sub_cancel_left]
  rw [snippet_eq, index]

/-- A span from `é` to behind the text is marked to the end of its line, which a carriage return
and a line feed end. -/
theorem snippet_marks_returned :
    let text := "a\n(é b\r\nc"
    let span : Span := ⟨3, 20, by decide⟩
    IsBoundary text.toList (min span.start text.utf8ByteSize) ∧
      IsBoundary text.toList (min span.stop text.utf8ByteSize) ∧
      snippet text span = ["  |", "2 | (é b", "  |  ^^^"] ∧
      ∃ before line after quoted,
        LineAround text.toList (min span.start text.utf8ByteSize) before line after ∧
        Text.Unterminated line after quoted ∧
        snippet text span = [" " ++ " |", "2 | " ++ String.ofList quoted, " " ++ " | " ++
          String.ofList (List.replicate 1 ' ' ++ List.replicate
            (max 1 ((starts (byteLength before) quoted).countP fun place =>
              span.start ≤ place ∧ place < span.stop)) '^')] := by
  intro text span
  have first : IsBoundary text.toList (min span.start text.utf8ByteSize) :=
    ⟨"a\n(".toList, "é b\r\nc".toList, by decide, by decide⟩
  have second : IsBoundary text.toList (min span.stop text.utf8ByteSize) :=
    ⟨text.toList, [], by simp, by decide⟩
  obtain ⟨before, line, after, quoted, width, around, isQuoted, -, -, -, rows, covers, -⟩ :=
    snippet_marks text span
  have place : lineCol text span.start = (2, 2) := by decide
  rw [covers first second, place] at rows
  exact ⟨first, second, by cbv, before, line, after, quoted, around, isQuoted, rows⟩

end Sexpr
