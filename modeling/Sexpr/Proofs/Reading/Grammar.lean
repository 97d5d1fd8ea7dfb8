/-
The grammar of programs.

A program is trivia, then forms with trivia behind each. The rules derive a text
together with what follows it, because words end at a boundary and comments at the
end of their line, and they give the node that the text reads as, with its place.
The rules know nothing of depth: how deep a node nests is a matter of the node.

* `Trivia`: blanks and, if comments are on, comments.
* `Quotes`: what stands between double quotes.
* `Form`, `Forms`: one form; trivia with any number of forms.
* `Program`: a text as a whole.
-/

import Sexpr.Name
import Sexpr.Proofs.Number.Literal
import Sexpr.Reading.Basic

namespace Sexpr

namespace Text

/-- A literal between its quotes, with the text that it stands for: every character
but a double quote and a backslash stands for itself, the others for what their
escape means. -/
inductive Quotes : (body text : List Char) → Prop where
  | nil : Quotes [] []
  | plain {c : Char} {body text : List Char} : c ≠ '"' → c ≠ '\\' → Quotes body text →
      Quotes (c :: body) (c :: text)
  | escape {letter c : Char} {body text : List Char} : unescapeLetter? letter = some c →
      Quotes body text → Quotes ('\\' :: letter :: body) (c :: text)

end Text

/-- The node of a row of items between brackets. -/
def Bracket.node (bracket : Bracket) (place : Place) (items : List Node) : Node :=
  match bracket with
  | .round => .call place items
  | .square => .vector place items

namespace Grammar

open Text (byteLength)

/-- A word may end before `rest`: at the end of the text, or before a blank, a
bracket, a double quote or a semicolon. -/
def Boundary (rest : List Char) : Prop :=
  ∀ c ∈ rest.head?, Token.isDelimiter c = true

/-- A comment may end before `rest`: at the end of the text or of the line. -/
def LineEnd (rest : List Char) : Prop :=
  ∀ c ∈ rest.head?, c = '\n'

/-- Blanks and comments in front of `rest`. -/
inductive Trivia (comments : Bool) : (gap rest : List Char) → Prop where
  | nil {rest : List Char} : Trivia comments [] rest
  | blank {c : Char} {gap rest : List Char} : Text.isBlank c = true → Trivia comments gap rest →
      Trivia comments (c :: gap) rest
  | comment {line gap rest : List Char} : comments = true → (∀ c ∈ line, c ≠ '\n') →
      LineEnd (gap ++ rest) → Trivia comments gap rest →
      Trivia comments (';' :: (line ++ gap)) rest

/-- Neither a blank nor a comment begins at the character. -/
def Begins (comments : Bool) (c : Char) : Prop :=
  Text.isBlank c = false ∧ (comments = true → c ≠ ';')

/-- A word in front of a boundary, with the leaf that it reads as. -/
inductive Word : (word : List Char) → Leaf → Prop where
  | number {word : List Char} {l : Literal} {n : Number} : l.Spells word → l.number? = some n →
      Word word (.number n)
  | atom {name : List Char} : isAtomName name = true →
      Word (':' :: name) (.atom (String.ofList name))
  | symbol {name : List Char} : isSymbolName name = true →
      Word name (.symbol (String.ofList name))

section

variable (comments : Bool) (label : String)

/-- The place of a text that stands at an offset. -/
def placeOf (offset : Nat) (text : List Char) : Place :=
  .within label offset (offset + byteLength text)

mutual

/-- A form at `offset`, in front of `rest`, with the node that it reads as. -/
inductive Form : (offset : Nat) → (text rest : List Char) → Node → Prop where
  | word {offset : Nat} {word rest : List Char} {leaf : Leaf} : Word word leaf → Boundary rest →
      Form offset word rest (leaf.toNode (placeOf label offset word))
  | text {offset : Nat} {body text rest : List Char} : Text.Quotes body text →
      Form offset ('"' :: (body ++ ['"'])) rest
        (.text (placeOf label offset ('"' :: (body ++ ['"']))) (String.ofList text))
  | quoted {offset : Nat} {gap text rest : List Char} {inner : Node} :
      Trivia comments gap (text ++ rest) →
      Form (offset + 1 + byteLength gap) text rest inner →
      Form offset ('\'' :: (gap ++ text)) rest
        (.quoted (placeOf label offset ('\'' :: (gap ++ text))) inner)
  | sequence {offset : Nat} {bracket : Bracket} {body rest : List Char} {items : List Node} :
      Forms (offset + 1) body (bracket.closing :: rest) items →
      Form offset (bracket.opening :: (body ++ [bracket.closing])) rest
        (bracket.node (placeOf label offset (bracket.opening :: (body ++ [bracket.closing]))) items)

/-- Trivia at `offset`, in front of `rest`, and among it any number of forms. -/
inductive Forms : (offset : Nat) → (text rest : List Char) → List Node → Prop where
  | nil {offset : Nat} {gap rest : List Char} : Trivia comments gap rest →
      Forms offset gap rest []
  | cons {offset : Nat} {gap text more rest : List Char} {node : Node} {nodes : List Node} :
      Trivia comments gap (text ++ (more ++ rest)) →
      Form (offset + byteLength gap) text (more ++ rest) node →
      Forms (offset + byteLength gap + byteLength text) more rest nodes →
      Forms offset (gap ++ (text ++ more)) rest (node :: nodes)

end

/-- A text as a whole, with the nodes that it reads as. -/
def Program (text : List Char) (nodes : List Node) : Prop :=
  Forms comments label 0 text [] nodes

end

end Grammar

end Sexpr
