/-
Excerpts: a stretch of a text around an offset, on one line.

An excerpt starts twenty characters before the offset and holds a hundred
characters at most. Where text was left out it says so, line feeds are spelled
`\n` and carriage returns are dropped.
-/

namespace Sexpr.Text

/-- The extent of an excerpt and the mark for text that it leaves out. -/
structure ExcerptStyle where
  before : Nat
  most : Nat
  cut : String

def excerptStyle : ExcerptStyle where
  before := 20
  most := 100
  cut := "[...]"

/-- The number of characters that lie wholly within the first `bytes` bytes. -/
def charsWithin : List Char → (bytes : Nat) → Nat
  | [], _ => 0
  | c :: cs, bytes =>
    if c.utf8Size ≤ bytes then charsWithin cs (bytes - c.utf8Size) + 1 else 0

/-- Puts a text on one line. -/
def flattenLines : List Char → List Char
  | [] => []
  | '\n' :: cs => '\\' :: 'n' :: flattenLines cs
  | '\r' :: cs => flattenLines cs
  | c :: cs => c :: flattenLines cs

/-- The surroundings of a byte offset. -/
def excerpt (text : String) (offset : Nat) : String :=
  let cs := text.toList
  let skipped := charsWithin cs offset - excerptStyle.before
  let rest := cs.drop skipped
  let head := if skipped = 0 then [] else excerptStyle.cut.toList
  let tail := if rest.length ≤ excerptStyle.most then [] else excerptStyle.cut.toList
  String.ofList (flattenLines (head ++ rest.take excerptStyle.most ++ tail))

end Sexpr.Text
