/-
Lines and columns.

`LineAround` is the line of a text that an offset falls in. A text is gone over line by line
(`lines_induction`), so the search for an offset always ends at that line, with the number of
line feeds before it and of characters that start before the offset (`locate?_around`). Main
statement: `lineCol_correct`, and boundaries of a text are in the order of their lines and
columns.
-/

import Mathlib
import Sexpr.Proofs.Text.Slice

namespace Sexpr.Text

/-! ### Bytes of characters -/

/-- The bytes of characters, in UTF-8. -/
def bytes (cs : List Char) : List UInt8 :=
  cs.flatMap String.utf8EncodeChar

theorem bytes_toList (s : String) : bytes s.toList = s.toByteArray.data.toList := by
  rw [← String.utf8Encode_toList, List.utf8Encode, List.data_toByteArray]
  rfl

theorem length_bytes (cs : List Char) : (bytes cs).length = byteLength cs := by
  induction cs with
  | nil => rfl
  | cons c cs ih =>
    rw [bytes, List.flatMap_cons, List.length_append, String.length_utf8EncodeChar, byteLength_cons,
      ← ih, bytes]

/-- No byte of another character is a line feed. -/
theorem count_utf8EncodeChar (c : Char) :
    (String.utf8EncodeChar c).count '\n'.toUInt8 = [c].count '\n' := by
  have feed : c = '\n' ↔ c.val.toNat = 10 := by
    rw [Char.ext_iff, ← UInt32.toNat_inj]
    rfl
  have byte (n : Nat) : (UInt8.ofNat n == '\n'.toUInt8) = decide (n % 256 = 10) := by
    rw [Bool.eq_iff_iff, beq_iff_eq, decide_eq_true_iff, ← UInt8.toNat_inj, UInt8.toNat_ofNat']
    rfl
  have scalar : c.val.toNat < 0x110000 := by
    have := c.valid
    simp only [UInt32.isValidChar, Nat.isValidChar] at this
    omega
  simp only [String.utf8EncodeChar, List.count_cons, List.count_nil, beq_iff_eq, feed]
  split_ifs <;> simp only [List.count_cons, List.count_nil, byte, decide_eq_true_iff] <;> grind

theorem count_bytes (cs : List Char) : (bytes cs).count '\n'.toUInt8 = cs.count '\n' := by
  induction cs with
  | nil => rfl
  | cons c cs ih =>
    rw [bytes, List.flatMap_cons, List.count_append, count_utf8EncodeChar, ← bytes, ih,
      ← List.count_append, List.singleton_append]

/-! ### Where characters start -/

/-- The offsets at which the characters of a text start that itself starts at `offset`. -/
def starts (offset : Nat) : List Char → List Nat
  | [] => []
  | c :: cs => offset :: starts (offset + c.utf8Size) cs

theorem starts_append (offset : Nat) (as bs : List Char) :
    starts offset (as ++ bs) = starts offset as ++ starts (offset + byteLength as) bs := by
  induction as generalizing offset with
  | nil => rfl
  | cons a as ih => simp [starts, ih, Nat.add_assoc]

theorem mem_starts {offset place : Nat} {cs : List Char} (h : place ∈ starts offset cs) :
    offset ≤ place ∧ place < offset + byteLength cs := by
  induction cs generalizing offset with
  | nil => cases h
  | cons c cs ih =>
    have size := c.utf8Size_pos
    rw [byteLength_cons]
    rcases List.mem_cons.mp h with rfl | later
    · omega
    · have := ih later
      omega

theorem startsWithin_zero (cs : List Char) : startsWithin cs 0 = 0 := by
  cases cs <;> simp [startsWithin]

theorem startsWithin_append (piece rest : List Char) :
    startsWithin (piece ++ rest) (byteLength piece) = piece.length := by
  induction piece with
  | nil => exact startsWithin_zero rest
  | cons c piece ih =>
    obtain ⟨n, length, _, behind⟩ := byteLength_cons_succ c piece
    rw [List.cons_append, length, startsWithin, if_neg (Nat.succ_ne_zero n), behind, ih,
      List.length_cons]

/-- How many characters start within a number of bytes is how many of the places where they
start lie before the end of these bytes. -/
theorem countP_starts (offset bytes : Nat) (cs : List Char) :
    (starts offset cs).countP (· < offset + bytes) = startsWithin cs bytes := by
  induction cs generalizing offset bytes with
  | nil => rfl
  | cons c cs ih =>
    rw [starts, List.countP_cons, startsWithin]
    -- a character that starts behind the bytes is not counted, nor is any behind it
    have behind (fits : bytes ≤ c.utf8Size) :
        (starts (offset + c.utf8Size) cs).countP (· < offset + bytes) = 0 := by
      rw [List.countP_eq_zero]
      intro place mem
      have := mem_starts mem
      simp only [decide_eq_true_eq]
      omega
    by_cases none : bytes = 0
    · rw [if_pos none, behind (by omega)]
      simp [none]
    · have first : offset < offset + bytes := by omega
      rw [if_neg none, if_pos (by simpa using first)]
      by_cases fits : bytes ≤ c.utf8Size
      · rw [behind fits, Nat.sub_eq_zero_of_le fits, startsWithin_zero]
      · rw [show offset + bytes = offset + c.utf8Size + (bytes - c.utf8Size) by omega, ih]

/-! ### Line by line -/

/-- A text is one line, or a line with its line feed and a text behind it. -/
@[elab_as_elim]
theorem lines_induction {P : List Char → Prop} (last : ∀ line, '\n' ∉ line → P line)
    (cons : ∀ line rest, '\n' ∉ line → P rest → P (line ++ '\n' :: rest)) (cs : List Char) :
    P cs := by
  induction size : cs.length using Nat.strongRecOn generalizing cs with
  | ind size ih =>
  by_cases feed : '\n' ∈ cs
  · obtain ⟨line, rest, rfl, inside⟩ := List.eq_append_cons_of_mem feed
    refine cons line rest inside (ih rest.length ?_ rest rfl)
    rw [← size, List.length_append, List.length_cons]
    omega
  · exact last cs feed

/-- Whole lines: a text that ends in a line feed, if it is not empty. -/
def WholeLines (cs : List Char) : Prop :=
  ∀ c ∈ cs.getLast?, c = '\n'

theorem wholeLines_nil : WholeLines [] := by simp [WholeLines]

theorem WholeLines.eq_nil {cs : List Char} (h : WholeLines cs) (inside : '\n' ∉ cs) : cs = [] := by
  rw [← List.getLast?_eq_none_iff, Option.eq_none_iff_forall_ne_some]
  intro c last
  obtain rfl := h c last
  exact inside (List.mem_of_getLast? last)

theorem wholeLines_append_cons_iff {first cs : List Char} :
    WholeLines (first ++ '\n' :: cs) ↔ WholeLines cs := by
  rw [WholeLines, WholeLines, List.getLast?_append, List.getLast?_cons]
  cases cs.getLast? <;> simp

/-- The line of a text that an offset falls in, between the lines before it and what stands
behind it. A line feed belongs to the line that it ends. -/
structure LineAround (cs : List Char) (offset : Nat) (before line after : List Char) : Prop where
  cut : cs = before ++ (line ++ after)
  begins : WholeLines before
  inside : '\n' ∉ line
  ends : ∀ c ∈ after.head?, c = '\n'
  low : byteLength before ≤ offset
  high : offset ≤ byteLength before + byteLength line

/-- A piece of a line is cut out of it. -/
theorem splitOn_line {line after : List Char} (inside : '\n' ∉ line)
    (ends : ∀ c ∈ after.head?, c = '\n') :
    ∃ more, (line ++ after).splitOn '\n' = line :: more := by
  cases after with
  | nil => exact ⟨[], by rw [List.append_nil, List.splitOn_eq_singleton inside]⟩
  | cons c rest =>
    obtain rfl := ends c rfl
    exact ⟨_, List.splitOn_append_cons_self_of_not_mem inside rest⟩

theorem feed_utf8Size : Char.utf8Size '\n' = 1 := by decide

/-- Every offset of a text falls in a line. -/
theorem exists_lineAround (cs : List Char) {offset : Nat} (within : offset ≤ byteLength cs) :
    ∃ before line after, LineAround cs offset before line after := by
  induction cs using lines_induction generalizing offset with
  | last line inside =>
    exact ⟨[], line, [], by simp, wholeLines_nil, inside, by simp, by simp, by simpa using within⟩
  | cons first rest inside ih =>
    by_cases here : offset ≤ byteLength first
    · exact ⟨[], first, '\n' :: rest, rfl, wholeLines_nil, inside, by simp, by simp,
        by simpa using here⟩
    · rw [byteLength_append, byteLength_cons, feed_utf8Size] at within
      obtain ⟨before, line, after, around⟩ :=
        @ih (offset - (byteLength first + 1)) (by omega)
      refine ⟨first ++ '\n' :: before, line, after, ?_,
        wholeLines_append_cons_iff.mpr around.begins, around.inside, around.ends, ?_, ?_⟩
      · rw [around.cut, List.append_assoc, List.cons_append]
      · have := around.low
        rw [byteLength_append, byteLength_cons, feed_utf8Size]
        omega
      · have := around.high
        rw [byteLength_append, byteLength_cons, feed_utf8Size]
        omega

/-- The search for an offset ends in its line. -/
theorem locate?_around {cs before line after : List Char} {offset : Nat}
    (h : LineAround cs offset before line after) (number : Nat) :
    locate? (cs.splitOn '\n') offset number =
      some (number + before.count '\n', startsWithin line (offset - byteLength before) + 1) := by
  obtain ⟨rfl, begins, inside, ends, low, high⟩ := h
  induction before using lines_induction generalizing offset number with
  | last before unended =>
    obtain rfl := begins.eq_nil unended
    obtain ⟨more, split⟩ := splitOn_line inside ends
    rw [List.nil_append, split, locate?, if_pos (by simpa [Nat.lt_succ_iff] using high)]
    simp
  | cons first before inFirst ih =>
    have length : byteLength (first ++ '\n' :: before) = byteLength first + 1 + byteLength before := by
      rw [byteLength_append, byteLength_cons, feed_utf8Size, Nat.add_assoc]
    rw [length] at low high ⊢
    rw [List.append_assoc, List.cons_append,
      List.splitOn_append_cons_self_of_not_mem inFirst, locate?, if_neg (by omega),
      ih (number + 1) (wholeLines_append_cons_iff.mp begins) (by omega) (by omega), List.count_append,
      List.count_eq_zero_of_not_mem inFirst, List.count_cons_self, Nat.sub_sub]
    congr 2
    omega

/-! ### Lines and columns of offsets -/

section

variable {text : String} {offset : Nat}

/-- The search never comes to the end of the text without an answer. -/
theorem locate?_eq_lineCol {before line after : List Char}
    (h : LineAround text.toList (min offset text.utf8ByteSize) before line after) :
    locate? (text.toList.splitOn '\n') (min offset text.utf8ByteSize) 1 =
      some (lineCol text offset) := by
  rw [lineCol, locate?_around h]
  rfl

/-- An offset past the end stands for the end. -/
theorem lineCol_min (text : String) (offset : Nat) :
    lineCol text offset = lineCol text (min offset text.utf8ByteSize) := by
  rw [lineCol, lineCol, Nat.min_eq_left (Nat.min_le_right _ _)]

/-- The line feeds before an offset are those that end the lines before its own. -/
theorem count_take_bytes {cs before line after : List Char}
    (h : LineAround cs offset before line after) :
    ((bytes cs).take offset).count '\n'.toUInt8 = before.count '\n' := by
  obtain ⟨rfl, _, inside, _, low, high⟩ := h
  have inLine : ((bytes line).take (offset - byteLength before)).count '\n'.toUInt8 = 0 := by
    have all : (bytes line).count '\n'.toUInt8 = 0 := by
      rw [count_bytes, List.count_eq_zero_of_not_mem inside]
    exact Nat.le_zero.mp (all ▸ (List.take_sublist _ _).count_le _)
  have cut : bytes (before ++ (line ++ after)) = bytes before ++ (bytes line ++ bytes after) := by
    simp [bytes]
  rw [cut, List.take_append, List.take_append, length_bytes, length_bytes,
    List.take_of_length_le (by rw [length_bytes]; exact low),
    Nat.sub_eq_zero_of_le (show offset - byteLength before ≤ byteLength line by omega),
    List.take_zero, List.append_nil, List.count_append, inLine, count_bytes, Nat.add_zero]

/-- At the end of a piece of a line the column counts the characters of the piece. -/
theorem lineCol_append {before piece rest : List Char}
    (cut : text.toList = before ++ (piece ++ rest)) (begins : WholeLines before)
    (inside : '\n' ∉ piece) :
    lineCol text (byteLength (before ++ piece)) = (1 + before.count '\n', piece.length + 1) := by
  have within : byteLength (before ++ piece) ≤ text.utf8ByteSize := by
    rw [← byteLength_toList, cut]
    simp only [byteLength_append]
    omega
  have around : LineAround text.toList (min (byteLength (before ++ piece)) text.utf8ByteSize) before
      (piece ++ rest.takeWhile (· != '\n')) (rest.dropWhile (· != '\n')) := by
    rw [Nat.min_eq_left within]
    refine ⟨?_, begins, ?_, ?_, ?_, ?_⟩
    · rw [cut, List.append_assoc, List.takeWhile_append_dropWhile]
    · rw [List.mem_append]
      rintro (mem | mem)
      · exact inside mem
      · simpa using List.mem_takeWhile_imp mem
    · intro c first
      have := List.head?_dropWhile_not (· != '\n') rest
      rw [Option.mem_def.mp first] at this
      simpa using this
    · rw [byteLength_append]
      omega
    · rw [byteLength_append, byteLength_append]
      omega
  have found := locate?_around around 1
  rw [locate?_eq_lineCol around, Nat.min_eq_left within, byteLength_append,
    Nat.add_sub_cancel_left, startsWithin_append] at found
  rw [byteLength_append]
  exact Option.some.inj found

/-- A piece of a text is whole lines and the beginning of one more. -/
theorem exists_lines (cs : List Char) :
    ∃ before piece, cs = before ++ piece ∧ WholeLines before ∧ '\n' ∉ piece := by
  obtain ⟨before, line, after, rfl, begins, inside, _, _, high⟩ :=
    exists_lineAround cs (Nat.le_refl (byteLength cs))
  have none : byteLength after = 0 := by
    rw [byteLength_append, byteLength_append] at high
    omega
  obtain rfl := byteLength_eq_zero_iff.mp none
  exact ⟨before, line, by rw [List.append_nil], begins, inside⟩

/-- Boundaries are in the order of their lines and, on one line, of their columns. -/
theorem strictMonoOn_lineCol (text : String) :
    StrictMonoOn (fun offset => toLex (lineCol text offset))
      {offset | IsBoundary text.toList offset} := by
  intro p first q second lt
  obtain ⟨front, mid, rest, cut, rfl, rfl⟩ := exists_slice first second (Nat.le_of_lt lt)
  obtain ⟨before, piece, rfl, begins, inside⟩ := exists_lines front
  have here := lineCol_append (cut.trans (List.append_assoc _ _ _)) begins inside
  rw [Prod.Lex.toLex_lt_toLex, here, ← byteLength_append]
  by_cases feed : '\n' ∈ mid
  · left
    obtain ⟨before', piece', lines, begins', inside'⟩ := exists_lines (before ++ piece ++ mid)
    have cut' : text.toList = before' ++ (piece' ++ rest) := by
      rw [cut, ← List.append_assoc, lines, List.append_assoc]
    rw [lines, lineCol_append cut' begins' inside']
    have more : before.count '\n' < before'.count '\n' := by
      have feeds := congrArg (List.count '\n') lines
      simp only [List.count_append, List.count_eq_zero_of_not_mem inside,
        List.count_eq_zero_of_not_mem inside'] at feeds
      have := List.count_pos_iff.mpr feed
      omega
    exact Nat.add_lt_add_left more 1
  · right
    have cut' : text.toList = before ++ ((piece ++ mid) ++ rest) := by
      rw [cut]
      simp
    have inside' : '\n' ∉ piece ++ mid := by simp [inside, feed]
    have mids : mid ≠ [] := by
      rintro rfl
      simp at lt
    rw [List.append_assoc, lineCol_append cut' begins inside', List.length_append]
    have := List.length_pos_iff.mpr mids
    exact ⟨rfl, by omega⟩

theorem injOn_lineCol (text : String) :
    Set.InjOn (lineCol text) {offset | IsBoundary text.toList offset} :=
  fun _ first _ second same => (strictMonoOn_lineCol text).injOn first second (congrArg toLex same)

end

/-- Lines and columns are what they should be. The line of an offset, or of the end of the text
for an offset past it, is one more than the line feeds among the bytes before it, and the column
one more than the characters of that line that start before it; the search over the lines never
runs out of them. Boundaries are in the order of their lines and columns, so no two of them have
the same. -/
theorem lineCol_correct (text : String) :
    (∀ offset, let place := min offset text.utf8ByteSize
      ∃ before line after, LineAround text.toList place before line after ∧
        lineCol text offset =
          (1 + (text.toByteArray.data.toList.take place).count '\n'.toUInt8,
            1 + (starts (byteLength before) line).countP (· < place)) ∧
        locate? (text.toList.splitOn '\n') place 1 = some (lineCol text offset)) ∧
    StrictMonoOn (fun offset => toLex (lineCol text offset))
      {offset | IsBoundary text.toList offset} ∧
    Set.InjOn (lineCol text) {offset | IsBoundary text.toList offset} := by
  refine ⟨?_, strictMonoOn_lineCol text, injOn_lineCol text⟩
  intro offset place
  have within : place ≤ byteLength text.toList := by
    rw [byteLength_toList]
    exact Nat.min_le_right _ _
  obtain ⟨before, line, after, around⟩ := exists_lineAround text.toList within
  have found := locate?_eq_lineCol around
  refine ⟨before, line, after, around, ?_, found⟩
  rw [locate?_around around, Option.some_inj] at found
  rw [← found, ← bytes_toList, count_take_bytes around,
    show place = byteLength before + (place - byteLength before) from
      (Nat.add_sub_cancel' around.low).symm, countP_starts, Nat.add_sub_cancel_left,
    Nat.add_comm (startsWithin _ _)]

/-- In `é`, a line feed and `x`, the byte inside of `é` is in the column behind it. -/
example : [0, 1, 2, 3, 4, 9].map (lineCol "é\nx") =
    [(1, 1), (1, 2), (1, 2), (2, 1), (2, 2), (2, 2)] := by decide

end Sexpr.Text
