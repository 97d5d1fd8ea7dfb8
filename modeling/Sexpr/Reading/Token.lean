/-
Tokens: the text of a program cut into pieces.

Blanks separate tokens and, if comments are on, so does everything from a
semicolon to the end of its line. A token is a bracket, a quote mark, a text
between double quotes, or a word: a run of characters up to a blank, a bracket,
a double quote or a semicolon. Words are numbers, atoms and symbols; any other
word is a flaw, and so is a broken text. Tokens carry the byte offsets that they
span, and a flaw ends the list of tokens.
-/

import Sexpr.Name
import Sexpr.Node.Basic
import Sexpr.Number.Literal
import Sexpr.Reading.Error
import Sexpr.Text.Blank
import Sexpr.Text.Quoted

namespace Sexpr

/-- A node without parts, as it is read. -/
inductive Leaf where
  | number (value : Number)
  | text (value : String)
  | atom (name : String)
  | symbol (name : String)

def Leaf.toNode (place : Place) : Leaf → Node
  | .number n => .number place n
  | .text s => .text place s
  | .atom name => .atom place name
  | .symbol name => .symbol place name

inductive Lexeme where
  | opening (bracket : Bracket)
  | closing (bracket : Bracket)
  | quote
  | leaf (value : Leaf)
  /-- The text is flawed at an offset. -/
  | broken (flaw : Flaw) (offset : Nat)

/-- A lexeme with the byte offsets that it spans. -/
structure Token where
  lexeme : Lexeme
  start : Nat
  stop : Nat

namespace Token

/-- A character that ends a word. -/
def isDelimiter (c : Char) : Bool :=
  Text.isBlank c || "()[]\";".toList.contains c

/-- Skips blanks and comments; `inside` says whether a comment is open. Gives the
offset and the text of what follows. -/
def skipTrivia (comments : Bool) : (inside : Bool) → (offset : Nat) → List Char → Nat × List Char
  | _, offset, [] => (offset, [])
  | true, offset, c :: cs => skipTrivia comments (c != '\n') (offset + c.utf8Size) cs
  | false, offset, c :: cs =>
    if Text.isBlank c then skipTrivia comments false (offset + c.utf8Size) cs
    else if comments && c == ';' then skipTrivia comments true (offset + c.utf8Size) cs
    else (offset, c :: cs)

theorem length_skipTrivia_le (comments inside : Bool) (offset : Nat) (cs : List Char) :
    (skipTrivia comments inside offset cs).2.length ≤ cs.length := by
  fun_induction skipTrivia comments inside offset cs <;> simp <;> omega

/-- What a word stands for. -/
def wordLexeme (offset : Nat) (word : List Char) : Lexeme :=
  match Literal.read? word with
  | some literal =>
    match literal.number? with
    | some n => .leaf (.number n)
    | none => .broken (.outOfRange (String.ofList word)) offset
  | none =>
    match word with
    | ':' :: name =>
      if isAtomName name then .leaf (.atom (String.ofList name))
      else .broken (.invalidToken (String.ofList word)) offset
    | _ =>
      if isSymbolName word then .leaf (.symbol (String.ofList word))
      else .broken (.invalidToken (String.ofList word)) offset

/-- The word at the start of a text, and what follows. -/
def readWord (offset : Nat) (cs : List Char) : Token × List Char :=
  let word := cs.takeWhile (!isDelimiter ·)
  (⟨wordLexeme offset word, offset, offset + Text.byteLength word⟩, cs.dropWhile (!isDelimiter ·))

/-- The text behind an opening double quote at `offset`, and what follows. -/
def readText (offset : Nat) (cs : List Char) : Token × List Char :=
  match Text.unquote (offset + 1) cs with
  | .closed text stop rest => (⟨.leaf (.text (String.ofList text)), offset, stop⟩, rest)
  | .unclosed => (⟨.broken .unclosedText offset, offset, offset⟩, [])
  | .unknown backslash letter => (⟨.broken (.unknownEscape letter) backslash, offset, offset⟩, [])

/-- The token at the start of a text, and what follows. -/
def next (offset : Nat) : (c : Char) → (cs : List Char) → Token × List Char
  | '(', cs => (⟨.opening .round, offset, offset + 1⟩, cs)
  | '[', cs => (⟨.opening .square, offset, offset + 1⟩, cs)
  | ')', cs => (⟨.closing .round, offset, offset + 1⟩, cs)
  | ']', cs => (⟨.closing .square, offset, offset + 1⟩, cs)
  | '\'', cs => (⟨.quote, offset, offset + 1⟩, cs)
  | '"', cs => readText offset cs
  | c, cs => readWord offset (c :: cs)

def isBroken (t : Token) : Bool :=
  match t.lexeme with
  | .broken _ _ => true
  | _ => false

/-- An empty word is a flaw. -/
theorem wordLexeme_nil (offset : Nat) :
    wordLexeme offset [] = .broken (.invalidToken "") offset := rfl

/-- A word that is not broken takes at least one character. -/
theorem length_readWord_le {offset : Nat} {c : Char} {cs : List Char}
    (h : (readWord offset (c :: cs)).1.isBroken = false) :
    (readWord offset (c :: cs)).2.length ≤ cs.length := by
  cases hc : isDelimiter c with
  | true => simp [readWord, hc, wordLexeme_nil, isBroken] at h
  | false =>
    simp only [readWord, hc, Bool.not_false, List.dropWhile_cons_of_pos]
    exact (List.dropWhile_sublist _).length_le

/-- What follows a text is shorter than what follows its opening quote. -/
theorem length_readText_le (offset : Nat) (cs : List Char) :
    (readText offset cs).2.length ≤ cs.length := by
  unfold readText
  split
  · rename_i read
    exact Nat.le_of_lt (Text.length_lt_of_unquote read)
  · exact Nat.zero_le _
  · exact Nat.zero_le _

/-- A token that is not broken takes at least one character. -/
theorem length_next_le {offset : Nat} {c : Char} {cs : List Char}
    (h : (next offset c cs).1.isBroken = false) : (next offset c cs).2.length ≤ cs.length := by
  unfold next at h ⊢
  split at h <;> try exact Nat.le_refl _
  · exact length_readText_le offset cs
  · exact length_readWord_le h

/-- What is left after blanks, comments and one whole token is shorter. -/
theorem length_next_lt {comments : Bool} {offset start : Nat} {cs rest : List Char} {c : Char}
    (skipped : skipTrivia comments false offset cs = (start, c :: rest))
    (whole : ¬ (next start c rest).1.isBroken = true) :
    (next start c rest).2.length < cs.length := by
  have shorter := length_next_le (Bool.eq_false_iff.mpr whole)
  have bound := length_skipTrivia_le comments false offset cs
  rw [skipped, List.length_cons] at bound
  omega

/-- The tokens of a text that starts at `offset`, up to the first broken one. -/
def scan (comments : Bool) (offset : Nat) (cs : List Char) : List Token :=
  match skipped : skipTrivia comments false offset cs with
  | (_, []) => []
  | (start, c :: rest) =>
    if whole : (next start c rest).1.isBroken then [(next start c rest).1]
    else
      have := length_next_lt skipped whole
      (next start c rest).1 :: scan comments (next start c rest).1.stop (next start c rest).2
termination_by cs.length

end Token

end Sexpr
