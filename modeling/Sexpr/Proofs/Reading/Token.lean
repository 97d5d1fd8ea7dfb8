/-
Tokens and the grammar.

`Grammar.Lexed` says what a whole token at the front of a text is: a bracket, a
quote mark, a word before a boundary or a literal between double quotes. The
scanner skips exactly the trivia of the grammar (`skipTrivia_append`,
`skipped_skipTrivia`) and takes exactly the tokens of `Lexed`. Main statements:
`scan_trivia` and `scan_lexed`, what the grammar derives is cut as the grammar says;
`scan_cases`, every text is at its end, at a flaw, or at a token of the grammar.
-/

import Mathlib
import Sexpr.Proofs.Reading.Grammar

namespace Sexpr

open Grammar
open Text (byteLength byteLength_nil byteLength_cons byteLength_append)

/-! ### Characters of words -/

/-- No range of blanks meets a range of letters. -/
theorem Text.blanks_letters_disjoint :
    ∀ r ∈ Text.blanks.ranges, ∀ s ∈ Text.letters.ranges, r.2 < s.1 ∨ s.2 < r.1 := by
  decide +kernel

theorem Text.le_toNat_of_isAlphanum {c : Char} (h : c.isAlphanum = true) : 0x30 ≤ c.toNat := by
  simp only [Char.isAlphanum, Char.isAlpha, Char.isUpper, Char.isLower, Char.isDigit,
    Bool.or_eq_true, Bool.and_eq_true, decide_eq_true_eq, UInt32.le_iff_toNat_le, ge_iff_le,
    Char.toNat_val] at h
  rcases h with (⟨low, _⟩ | ⟨low, _⟩) | ⟨low, _⟩
  · exact Nat.le_trans (by decide) low
  · exact Nat.le_trans (by decide) low
  · exact low

/-- A blank is neither a letter nor a digit. -/
theorem Text.isAlphanumeric_of_isBlank {c : Char} (h : Text.isBlank c = true) :
    Text.isAlphanumeric c = false := by
  obtain ⟨r, hr, low, high⟩ := Text.CharClass.has_iff.mp h
  rw [Bool.eq_false_iff]
  intro alphanumeric
  unfold Text.isAlphanumeric at alphanumeric
  split at alphanumeric
  · have := Text.le_toNat_of_isAlphanum alphanumeric
    have small : ∀ r ∈ Text.blanks.ranges, r.2 < 0x30 ∨ 0x80 ≤ r.1 := by decide
    have := small r hr
    omega
  · obtain ⟨s, hs, low', high'⟩ := Text.CharClass.has_iff.mp alphanumeric
    have := Text.blanks_letters_disjoint r hr s hs
    omega

/-- Names never hold a character that ends a word. -/
theorem isDelimiter_of_isNameChar {c : Char} (h : isNameChar c = true) :
    Token.isDelimiter c = false := by
  have marks : nameMarks.all (!Token.isDelimiter ·) = true := by decide
  have brackets : "()[]\";".toList.all (!isNameChar ·) = true := by decide
  rw [Bool.eq_false_iff]
  intro delimiter
  simp only [Token.isDelimiter, Bool.or_eq_true, List.contains_iff_mem] at delimiter
  rcases delimiter with blank | bracket
  · simp only [isNameChar, Bool.or_eq_true, List.contains_iff_mem] at h
    rcases h with alphanumeric | mark
    · rw [Text.isAlphanumeric_of_isBlank blank] at alphanumeric
      cases alphanumeric
    · have kept := List.all_eq_true.mp marks c mark
      rw [Token.isDelimiter, blank] at kept
      cases kept
  · have kept := List.all_eq_true.mp brackets c bracket
    rw [h] at kept
    cases kept

theorem isNameChar_of_isDigit {c : Char} (h : c.isDigit = true) : isNameChar c = true := by
  have ascii : c.toNat < 0x80 := by
    simp only [Char.isDigit, Bool.and_eq_true, decide_eq_true_eq, UInt32.le_iff_toNat_le,
      Char.toNat_val] at h
    exact Nat.lt_of_le_of_lt h.2 (by decide)
  simp [isNameChar, Text.isAlphanumeric, ascii, Char.isAlphanum, h]

/-- A character of a word that is a number, an atom or a symbol. -/
def Grammar.IsWordChar (c : Char) : Prop :=
  isNameChar c = true ∨ c = '.' ∨ c = ':'

theorem Grammar.IsWordChar.not_delimiter {c : Char} (h : IsWordChar c) :
    Token.isDelimiter c = false := by
  rcases h with name | rfl | rfl
  · exact isDelimiter_of_isNameChar name
  · decide
  · decide

theorem Grammar.IsWordChar.ne_quote {c : Char} (h : IsWordChar c) : c ≠ '\'' := by
  rintro rfl
  rcases h with name | mark | mark
  · exact absurd name (by decide)
  · exact absurd mark (by decide)
  · exact absurd mark (by decide)

theorem isWordChar_of_isDigits {ds : List Char} (h : Literal.IsDigits ds) :
    ∀ c ∈ ds, IsWordChar c := by
  intro c mem
  exact .inl (isNameChar_of_isDigit (h.2 c mem))

theorem isWordChar_of_spells {cs : List Char} {l : Literal} (h : l.Spells cs) :
    ∀ c ∈ cs, IsWordChar c := by
  cases h with
  | @parts negative whole point mark fraction exponent digits hf he =>
    intro c mem
    simp only [List.mem_append] at mem
    rcases mem with sign | inWhole | inPoint | inMark
    · cases negative with
      | true => exact List.mem_singleton.mp sign ▸ .inl (by decide)
      | false => cases sign
    · exact isWordChar_of_isDigits digits c inWhole
    · cases hf with
      | absent => cases inPoint
      | present behind =>
        rcases List.mem_cons.mp inPoint with rfl | inDigits
        · exact .inr (.inl rfl)
        · exact isWordChar_of_isDigits behind c inDigits
    · cases he with
      | absent => cases inMark
      | @present e sign ds negative isMark hs behind =>
        rcases List.mem_cons.mp inMark with rfl | inRest
        · rcases isMark with rfl | rfl <;> exact .inl (by decide)
        · rcases List.mem_append.mp inRest with inSign | inDigits
          · cases hs with
            | absent => cases inSign
            | plus => exact List.mem_singleton.mp inSign ▸ .inl (by decide)
            | minus => exact List.mem_singleton.mp inSign ▸ .inl (by decide)
          · exact isWordChar_of_isDigits behind c inDigits

/-- Every literal begins like a number, so no symbol is a literal. -/
theorem startsLikeNumber_of_spells {cs : List Char} {l : Literal} (h : l.Spells cs) :
    startsLikeNumber cs = true := by
  cases h with
  | @parts negative whole point mark fraction exponent digits hf he =>
    obtain ⟨nonempty, all⟩ := digits
    obtain ⟨d, ds, rfl⟩ := List.exists_cons_of_ne_nil nonempty
    have digit : d.isDigit = true := all d (by simp)
    cases negative with
    | true => exact digit
    | false =>
      have notMinus : d ≠ '-' := by
        rintro rfl
        exact absurd digit (by decide)
      simp [Literal.minus, startsLikeNumber, notMinus, digit]

theorem Literal.read?_eq_none {cs : List Char} (h : startsLikeNumber cs = false) :
    Literal.read? cs = none := by
  rw [Option.eq_none_iff_forall_ne_some]
  intro l read
  have starts := startsLikeNumber_of_spells (Literal.read?_eq_some_iff.mp read)
  rw [h] at starts
  cases starts

theorem isAtomName_iff {cs : List Char} :
    isAtomName cs = true ↔ cs ≠ [] ∧ ∀ c ∈ cs, isNameChar c = true := by
  simp [isAtomName]

theorem isSymbolName_iff {cs : List Char} :
    isSymbolName cs = true ↔ isAtomName cs = true ∧ startsLikeNumber cs = false := by
  simp [isSymbolName]

/-! ### Words -/

theorem Grammar.Word.isWordChar {word : List Char} {leaf : Leaf} (h : Word word leaf) :
    ∀ c ∈ word, IsWordChar c := by
  intro c mem
  cases h with
  | number spelled _ => exact isWordChar_of_spells spelled c mem
  | atom name =>
    rcases List.mem_cons.mp mem with rfl | inName
    · exact .inr (.inr rfl)
    · exact .inl ((isAtomName_iff.mp name).2 c inName)
  | symbol name => exact .inl ((isAtomName_iff.mp (isSymbolName_iff.mp name).1).2 c mem)

theorem Grammar.Word.ne_nil {word : List Char} {leaf : Leaf} (h : Word word leaf) : word ≠ [] := by
  cases h with
  | number spelled _ =>
    rintro rfl
    exact absurd (startsLikeNumber_of_spells spelled) (by decide)
  | atom name => simp
  | symbol name => exact (isAtomName_iff.mp (isSymbolName_iff.mp name).1).1

/-- A word of the grammar stands for its leaf. -/
theorem Grammar.Word.wordLexeme {word : List Char} {leaf : Leaf} (h : Word word leaf)
    (offset : Nat) : Token.wordLexeme offset word = .leaf leaf := by
  cases h with
  | number spelled value =>
    simp [Token.wordLexeme, Literal.read?_eq_some_iff.mpr spelled, value]
  | @atom name isName =>
    have notNumber : startsLikeNumber (':' :: name) = false := by simp [startsLikeNumber]
    simp [Token.wordLexeme, Literal.read?_eq_none notNumber, isName]
  | symbol name =>
    obtain ⟨isName, notNumber⟩ := isSymbolName_iff.mp name
    simp only [Token.wordLexeme, Literal.read?_eq_none notNumber]
    split
    · -- a colon is no character of a name
      rename_i rest
      exact absurd ((isAtomName_iff.mp isName).2 ':' (by simp)) (by decide)
    · rw [if_pos name]

/-- A word that stands for a leaf is a word of the grammar. -/
theorem Grammar.word_of_wordLexeme {offset : Nat} {word : List Char} {leaf : Leaf}
    (h : Token.wordLexeme offset word = .leaf leaf) : Word word leaf := by
  unfold Token.wordLexeme at h
  split at h
  · rename_i l read
    split at h
    · rename_i n value
      cases h
      exact .number (Literal.read?_eq_some_iff.mp read) value
    · cases h
  · split at h
    · split at h
      · rename_i name
        cases h
        exact .atom name
      · cases h
    · split at h
      · rename_i name
        cases h
        exact .symbol name
      · cases h

/-- A word is a leaf or a flaw, and never a bracket or a quote mark. -/
theorem Token.wordLexeme_cases (offset : Nat) (word : List Char) :
    (∃ leaf, Token.wordLexeme offset word = .leaf leaf) ∨
      ∃ flaw, Token.wordLexeme offset word = .broken flaw offset := by
  unfold Token.wordLexeme
  split
  · split
    · exact .inl ⟨_, rfl⟩
    · exact .inr ⟨_, rfl⟩
  · split <;> split
    · exact .inl ⟨_, rfl⟩
    · exact .inr ⟨_, rfl⟩
    · exact .inl ⟨_, rfl⟩
    · exact .inr ⟨_, rfl⟩

/-! ### Texts between double quotes -/

theorem Text.Quotes.unquote {body text : List Char} (h : Text.Quotes body text) (offset : Nat)
    (rest : List Char) :
    Text.unquote offset (body ++ '"' :: rest)
      = .closed text (offset + byteLength body + 1) rest := by
  induction h generalizing offset with
  | nil => simp [Text.unquote]
  | @plain c body text notQuote notBackslash _ ih =>
    rw [List.cons_append, Text.unquote.eq_5 _ _ _ notQuote (by grind) (by grind), ih]
    simp only [Text.Quotation.push, byteLength_cons]
    congr 1
    omega
  | @escape letter c body text meaning _ ih =>
    have one : Char.utf8Size '\\' = 1 := by decide
    simp only [List.cons_append, Text.unquote, meaning, ih, Text.Quotation.push, byteLength_cons,
      one]
    congr 1
    omega

theorem Text.quotes_of_unquote {offset stop : Nat} {cs text rest : List Char}
    (h : Text.unquote offset cs = .closed text stop rest) :
    ∃ body, cs = body ++ '"' :: rest ∧ Text.Quotes body text ∧
      stop = offset + byteLength body + 1 := by
  fun_induction Text.unquote offset cs generalizing text with
  | case1 => cases h
  | case2 offset rest' =>
    cases h
    exact ⟨[], rfl, .nil, rfl⟩
  | case3 => cases h
  | case4 offset letter rest' c meaning ih =>
    obtain ⟨tail, inner⟩ := Text.Quotation.push_eq_closed h
    rw [inner] at h
    cases h
    obtain ⟨body, rfl, quotes, rfl⟩ := ih inner
    have one : Char.utf8Size '\\' = 1 := by decide
    refine ⟨'\\' :: letter :: body, rfl, .escape meaning quotes, ?_⟩
    simp only [byteLength_cons, one]
    omega
  | case5 => cases h
  | case6 offset c rest' notQuote notLast notEscape ih =>
    obtain ⟨tail, inner⟩ := Text.Quotation.push_eq_closed h
    rw [inner] at h
    cases h
    obtain ⟨body, rfl, quotes, rfl⟩ := ih inner
    have notBackslash : c ≠ '\\' := by
      rintro rfl
      cases body with
      | nil => exact notEscape _ _ rfl rfl
      | cons b body => exact notEscape _ _ rfl rfl
    refine ⟨c :: body, rfl, .plain notQuote notBackslash quotes, ?_⟩
    simp only [byteLength_cons]
    omega

/-! ### Whole tokens -/

/-- A whole token at `offset`, at the front of a text, and what follows it. -/
inductive Grammar.Lexed (offset : Nat) : (cs : List Char) → Token → (rest : List Char) → Prop where
  | opening (bracket : Bracket) (rest : List Char) :
      Lexed offset (bracket.opening :: rest) ⟨.opening bracket, offset, offset + 1⟩ rest
  | closing (bracket : Bracket) (rest : List Char) :
      Lexed offset (bracket.closing :: rest) ⟨.closing bracket, offset, offset + 1⟩ rest
  | quote (rest : List Char) : Lexed offset ('\'' :: rest) ⟨.quote, offset, offset + 1⟩ rest
  | word {word rest : List Char} {leaf : Leaf} : Word word leaf → Boundary rest →
      Lexed offset (word ++ rest) ⟨.leaf leaf, offset, offset + byteLength word⟩ rest
  | text {body text : List Char} (rest : List Char) : Text.Quotes body text →
      Lexed offset ('"' :: (body ++ '"' :: rest))
        ⟨.leaf (.text (String.ofList text)), offset, offset + byteLength ('"' :: (body ++ ['"']))⟩
        rest

/-- A character at which neither a blank nor a comment begins. -/
def Grammar.Solid (c : Char) : Prop :=
  Text.isBlank c = false ∧ c ≠ ';'

theorem Grammar.IsWordChar.solid {c : Char} (h : IsWordChar c) : Solid c := by
  have solid := h.not_delimiter
  simp only [Token.isDelimiter, Bool.or_eq_false_iff] at solid
  refine ⟨solid.1, ?_⟩
  rintro rfl
  exact absurd solid.2 (by decide)

theorem Bracket.solid_opening (bracket : Bracket) : Solid bracket.opening := by
  cases bracket <;> exact ⟨by decide, by decide⟩

theorem Bracket.solid_closing (bracket : Bracket) : Solid bracket.closing := by
  cases bracket <;> exact ⟨by decide, by decide⟩

theorem Token.readWord_append {word rest : List Char} {leaf : Leaf} (isWord : Word word leaf)
    (boundary : Boundary rest) (offset : Nat) :
    Token.readWord offset (word ++ rest)
      = (⟨.leaf leaf, offset, offset + byteLength word⟩, rest) := by
  have inside : ∀ c ∈ word, (!Token.isDelimiter c) = true := by
    intro c mem
    rw [(isWord.isWordChar c mem).not_delimiter]
    rfl
  have taken : (word ++ rest).takeWhile (!Token.isDelimiter ·) = word := by
    rw [List.takeWhile_append_of_pos inside]
    cases rest with
    | nil => simp
    | cons c cs => simp [boundary c (by simp)]
  have dropped : (word ++ rest).dropWhile (!Token.isDelimiter ·) = rest := by
    rw [List.dropWhile_append_of_pos inside]
    cases rest with
    | nil => rfl
    | cons c cs => simp [boundary c (by simp)]
  simp only [Token.readWord, taken, dropped, isWord.wordLexeme]

/-- A character that is no bracket, quote mark or double quote begins a word. -/
theorem Token.next_of_isWordChar {c : Char} (h : IsWordChar c) (offset : Nat) (cs : List Char) :
    Token.next offset c cs = Token.readWord offset (c :: cs) := by
  have solid := h.not_delimiter
  unfold Token.next
  split
  case h_5 => exact absurd rfl h.ne_quote
  case h_7 => rfl
  all_goals exact absurd solid (by decide)

theorem Token.readText_append {body text : List Char} (quotes : Text.Quotes body text)
    (offset : Nat) (rest : List Char) :
    Token.readText offset (body ++ '"' :: rest)
      = (⟨.leaf (.text (String.ofList text)), offset,
          offset + byteLength ('"' :: (body ++ ['"']))⟩, rest) := by
  have one : Char.utf8Size '"' = 1 := by decide
  simp only [Token.readText, quotes.unquote, byteLength_cons, byteLength_append, byteLength_nil,
    one, Prod.mk.injEq, Token.mk.injEq, and_true, true_and]
  omega

/-- The scanner takes every token of the grammar; none begins with trivia. -/
theorem Grammar.Lexed.next {offset : Nat} {cs rest : List Char} {token : Token}
    (h : Lexed offset cs token rest) :
    ∃ c tail, cs = c :: tail ∧ Solid c ∧ Token.next offset c tail = (token, rest) ∧
      token.isBroken = false := by
  cases h with
  | opening bracket rest =>
    exact ⟨_, _, rfl, bracket.solid_opening, by cases bracket <;> rfl, rfl⟩
  | closing bracket rest =>
    exact ⟨_, _, rfl, bracket.solid_closing, by cases bracket <;> rfl, rfl⟩
  | quote rest => exact ⟨_, _, rfl, ⟨by decide, by decide⟩, rfl, rfl⟩
  | @word word rest leaf isWord boundary =>
    obtain ⟨c, tail, rfl⟩ := List.exists_cons_of_ne_nil isWord.ne_nil
    have isChar := isWord.isWordChar c (by simp)
    refine ⟨c, tail ++ rest, rfl, isChar.solid, ?_, rfl⟩
    rw [Token.next_of_isWordChar isChar, ← List.cons_append,
      Token.readWord_append isWord boundary]
  | @text body text rest quotes =>
    refine ⟨'"', body ++ '"' :: rest, rfl, ⟨by decide, by decide⟩, ?_, rfl⟩
    exact Token.readText_append quotes offset rest

theorem Grammar.lexed_readWord {offset : Nat} {cs : List Char}
    (whole : (Token.readWord offset cs).1.isBroken = false) :
    Lexed offset cs (Token.readWord offset cs).1 (Token.readWord offset cs).2 := by
  have boundary : Boundary (cs.dropWhile (!Token.isDelimiter ·)) := by
    intro c first
    have := List.head?_dropWhile_not (!Token.isDelimiter ·) cs
    rw [Option.mem_def.mp first] at this
    simpa using this
  have cut : cs.takeWhile (!Token.isDelimiter ·) ++ cs.dropWhile (!Token.isDelimiter ·) = cs :=
    List.takeWhile_append_dropWhile
  simp only [Token.readWord] at whole ⊢
  generalize cs.takeWhile (!Token.isDelimiter ·) = word at *
  generalize cs.dropWhile (!Token.isDelimiter ·) = rest at *
  subst cut
  rcases Token.wordLexeme_cases offset word with ⟨leaf, lexeme⟩ | ⟨flaw, lexeme⟩
  · rw [lexeme]
    exact .word (word_of_wordLexeme lexeme) boundary
  · simp [Token.isBroken, lexeme] at whole

theorem Grammar.lexed_readText {offset : Nat} {cs : List Char}
    (whole : (Token.readText offset cs).1.isBroken = false) :
    Lexed offset ('"' :: cs) (Token.readText offset cs).1 (Token.readText offset cs).2 := by
  cases read : Text.unquote (offset + 1) cs with
  | closed text stop rest =>
    obtain ⟨body, rfl, quotes, rfl⟩ := Text.quotes_of_unquote read
    rw [Token.readText_append quotes]
    exact .text rest quotes
  | unclosed => simp [Token.readText, read, Token.isBroken] at whole
  | unknown backslash letter => simp [Token.readText, read, Token.isBroken] at whole

/-- The scanner takes only tokens of the grammar. -/
theorem Grammar.lexed_next {offset : Nat} {c : Char} {cs : List Char}
    (whole : (Token.next offset c cs).1.isBroken = false) :
    Lexed offset (c :: cs) (Token.next offset c cs).1 (Token.next offset c cs).2 := by
  unfold Token.next at whole ⊢
  split at whole
  · exact .opening .round cs
  · exact .opening .square cs
  · exact .closing .round cs
  · exact .closing .square cs
  · exact .quote cs
  · exact lexed_readText whole
  · exact lexed_readWord whole

/-! ### Trivia -/

theorem Token.skipTrivia_line (comments : Bool) {line rest : List Char}
    (inside : ∀ c ∈ line, c ≠ '\n') (atEnd : LineEnd rest) (offset : Nat) :
    Token.skipTrivia comments true offset (line ++ rest)
      = Token.skipTrivia comments false (offset + byteLength line) rest := by
  induction line generalizing offset with
  | nil =>
    cases rest with
    | nil => rfl
    | cons c cs =>
      obtain rfl : c = '\n' := atEnd c (by simp)
      rfl
  | cons c line ih =>
    have notEnd : (c != '\n') = true := bne_iff_ne.mpr (inside c (by simp))
    rw [List.cons_append, Token.skipTrivia, notEnd,
      ih (fun d mem => inside d (List.mem_cons_of_mem c mem)), byteLength_cons, Nat.add_assoc]

/-- The scanner skips the trivia of the grammar. -/
theorem Token.skipTrivia_append {comments : Bool} {gap rest : List Char}
    (h : Trivia comments gap rest) (offset : Nat) :
    Token.skipTrivia comments false offset (gap ++ rest)
      = Token.skipTrivia comments false (offset + byteLength gap) rest := by
  induction h generalizing offset with
  | nil => rfl
  | @blank c gap rest isBlank _ ih =>
    rw [List.cons_append, Token.skipTrivia, if_pos isBlank, ih, byteLength_cons, Nat.add_assoc]
  | @comment line gap rest on inside atEnd _ ih =>
    have notBlank : Text.isBlank ';' = false := by decide
    rw [List.cons_append, List.append_assoc, Token.skipTrivia, notBlank,
      Token.skipTrivia_line comments inside atEnd, ih]
    simp [on, byteLength_cons, byteLength_append, Nat.add_assoc]

theorem Token.skipTrivia_of_solid {c : Char} (h : Solid c) (comments : Bool) (offset : Nat)
    (cs : List Char) : Token.skipTrivia comments false offset (c :: cs) = (offset, c :: cs) := by
  simp [Token.skipTrivia, h.1, h.2]

/-- What the scanner may skip in front of `rest`: trivia or, inside a comment, the
rest of its line with the trivia behind it. -/
def Grammar.Skipped (comments : Bool) : (inside : Bool) → (gap rest : List Char) → Prop
  | false, gap, rest => Trivia comments gap rest
  | true, gap, rest => ∃ line tail, gap = line ++ tail ∧ (∀ c ∈ line, c ≠ '\n') ∧
      LineEnd (tail ++ rest) ∧ Trivia comments tail rest

theorem Grammar.Skipped.lineEnd {comments : Bool} {gap rest : List Char}
    (h : Trivia comments gap rest) : Skipped comments true ('\n' :: gap) rest := by
  refine ⟨[], '\n' :: gap, rfl, by simp, ?_, .blank (by decide) h⟩
  intro c first
  exact (Option.mem_some.mp first).symm

theorem Grammar.Skipped.cons {comments : Bool} {c : Char} {gap rest : List Char}
    (h : Skipped comments true gap rest) (inLine : c ≠ '\n') :
    Skipped comments true (c :: gap) rest := by
  obtain ⟨line, tail, rfl, inside, atEnd, trivia⟩ := h
  refine ⟨c :: line, tail, rfl, ?_, atEnd, trivia⟩
  intro d mem
  rcases List.mem_cons.mp mem with rfl | inTail
  · exact inLine
  · exact inside d inTail

theorem Grammar.Skipped.comment {comments : Bool} {gap rest : List Char} (on : comments = true)
    (h : Skipped comments true gap rest) : Trivia comments (';' :: gap) rest := by
  obtain ⟨line, tail, rfl, inside, atEnd, trivia⟩ := h
  exact .comment on inside atEnd trivia

theorem Grammar.skipped_skipTrivia (comments inside : Bool) (offset : Nat) (cs : List Char) :
    ∃ gap, cs = gap ++ (Token.skipTrivia comments inside offset cs).2 ∧
      (Token.skipTrivia comments inside offset cs).1 = offset + byteLength gap ∧
      Skipped comments inside gap (Token.skipTrivia comments inside offset cs).2 := by
  fun_induction Token.skipTrivia comments inside offset cs with
  | case1 inside offset =>
    refine ⟨[], rfl, rfl, ?_⟩
    cases inside with
    | false => exact .nil
    | true => exact ⟨[], [], rfl, by simp, by simp [LineEnd], .nil⟩
  | case2 offset c cs ih =>
    obtain ⟨gap, split, start, skipped⟩ := ih
    refine ⟨c :: gap, by rw [List.cons_append, ← split], ?_, ?_⟩
    · rw [start, byteLength_cons, Nat.add_assoc]
    · by_cases h : c = '\n'
      · subst h
        exact .lineEnd skipped
      · have inLine : (c != '\n') = true := bne_iff_ne.mpr h
        rw [inLine] at skipped ⊢
        exact skipped.cons h
  | case3 offset c cs isBlank ih =>
    obtain ⟨gap, split, start, skipped⟩ := ih
    refine ⟨c :: gap, by rw [List.cons_append, ← split], ?_, .blank isBlank skipped⟩
    rw [start, byteLength_cons, Nat.add_assoc]
  | case4 offset c cs _ opens ih =>
    obtain ⟨gap, split, start, skipped⟩ := ih
    simp only [Bool.and_eq_true, beq_iff_eq] at opens
    obtain ⟨on, rfl⟩ := opens
    refine ⟨';' :: gap, by rw [List.cons_append, ← split], ?_, skipped.comment on⟩
    rw [start, byteLength_cons, Nat.add_assoc]
  | case5 offset c cs _ _ => exact ⟨[], rfl, rfl, .nil⟩

/-! ### The list of tokens -/

/-- One token at a time. -/
theorem Token.scan_eq (comments : Bool) (offset : Nat) (cs : List Char) :
    Token.scan comments offset cs =
      match Token.skipTrivia comments false offset cs with
      | (_, []) => []
      | (start, c :: rest) =>
        if (Token.next start c rest).1.isBroken then [(Token.next start c rest).1]
        else (Token.next start c rest).1 ::
          Token.scan comments (Token.next start c rest).1.stop (Token.next start c rest).2 := by
  rw [Token.scan]
  split <;> rename_i skipped <;> simp [skipped]

theorem Token.scan_nil (comments : Bool) (offset : Nat) : Token.scan comments offset [] = [] := by
  rw [Token.scan_eq]
  rfl

/-- Trivia makes no tokens. -/
theorem Token.scan_trivia {comments : Bool} {gap rest : List Char} (h : Trivia comments gap rest)
    (offset : Nat) :
    Token.scan comments offset (gap ++ rest)
      = Token.scan comments (offset + byteLength gap) rest := by
  rw [Token.scan_eq, Token.scan_eq, Token.skipTrivia_append h]

/-- A token of the grammar is the first of the list. -/
theorem Token.scan_lexed {offset : Nat} {cs rest : List Char} {token : Token}
    (h : Lexed offset cs token rest) (comments : Bool) :
    Token.scan comments offset cs = token :: Token.scan comments token.stop rest := by
  obtain ⟨c, tail, rfl, solid, next, whole⟩ := h.next
  rw [Token.scan_eq, Token.skipTrivia_of_solid solid]
  simp only [next, whole, Bool.false_eq_true, if_false]

/-- What stands at the front of a text, behind trivia: its end, a flaw, or a token of
the grammar, which leaves a shorter text. -/
theorem Token.scan_cases (comments : Bool) (offset : Nat) (cs : List Char) :
    (Trivia comments cs [] ∧ Token.scan comments offset cs = []) ∨
      (∃ token, token.isBroken = true ∧ Token.scan comments offset cs = [token]) ∨
      ∃ gap text token rest, cs = gap ++ text ∧ Trivia comments gap text ∧
        Lexed (offset + byteLength gap) text token rest ∧ rest.length < cs.length ∧
        Token.scan comments offset cs = token :: Token.scan comments token.stop rest := by
  obtain ⟨gap, cut, shifted, skipped⟩ := skipped_skipTrivia comments false offset cs
  rw [Token.scan_eq]
  cases skip : Token.skipTrivia comments false offset cs with
  | mk start front =>
    simp only [skip] at cut shifted skipped
    subst cut shifted
    cases front with
    | nil =>
      rw [List.append_nil]
      exact .inl ⟨skipped, rfl⟩
    | cons c rest =>
      right
      cases broken : (Token.next (offset + byteLength gap) c rest).1.isBroken with
      | true => exact .inl ⟨_, broken, by simp [broken]⟩
      | false =>
        refine .inr ⟨gap, c :: rest, _, _, rfl, skipped, lexed_next broken, ?_, by simp [broken]⟩
        exact Token.length_next_lt skip (by simp [broken])

/-- The texts without tokens are trivia. -/
theorem Token.scan_eq_nil_iff {comments : Bool} {offset : Nat} {cs : List Char} :
    Token.scan comments offset cs = [] ↔ Trivia comments cs [] := by
  constructor
  · intro h
    rcases Token.scan_cases comments offset cs with
      ⟨trivia, _⟩ | ⟨broken, _, single⟩ | ⟨_, _, _, _, _, _, _, _, next⟩
    · exact trivia
    · rw [single] at h
      cases h
    · rw [next] at h
      cases h
  · intro trivia
    rw [← List.append_nil cs, Token.scan_trivia trivia, Token.scan_nil]

end Sexpr
