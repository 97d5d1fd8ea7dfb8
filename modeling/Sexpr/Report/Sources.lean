/-
Sources: texts by label.

A text stored under a label replaces the one before it. Places in a known source
are described by line and column, and quoted with a line of carets below.
-/

import Sexpr.Place
import Sexpr.Table

namespace Sexpr

/-- Labelled texts, each label once. -/
structure Sources where
  entries : Table String := []

namespace Sources

def get? (s : Sources) (label : String) : Option String :=
  s.entries.lookup label

/-- Stores a text in place of the one with the same label, or at the end. -/
def put (s : Sources) (label text : String) : Sources :=
  ⟨s.entries.put label text⟩

theorem get?_put_self (s : Sources) (label text : String) :
    (s.put label text).get? label = some text :=
  Table.lookup_put_self label text s.entries

theorem get?_put_of_ne {label other : String} (s : Sources) (text : String) (h : other ≠ label) :
    (s.put label text).get? other = s.get? other :=
  Table.lookup_put_of_ne text s.entries h

def size (s : Sources) : Nat :=
  s.entries.length

def isEmpty (s : Sources) : Bool :=
  s.entries.isEmpty

def ofList (entries : List (String × String)) : Sources :=
  ⟨Table.merge [] entries⟩

/-- A label as it stands before a line number: one that holds a colon is put in
angle brackets. -/
def bracketed (label : String) : String :=
  if label.toList.contains ':' then "<" ++ label ++ ">" else label

/-- Label, line and column of a place whose source is known; otherwise what the
place says of itself. -/
def describe (s : Sources) (p : Place) : String :=
  match p.span, s.get? p.source with
  | some span, some text =>
    let (line, col) := Text.lineCol text span.start
    s!"{bracketed p.source}:{line}:{col}"
  | _, _ => p.describe

end Sources

/-- The number of carets below the quoted line: one for each character of the
span on that line, and one at least. -/
def caretCount (text : String) (span : Span) (line : List Char) (col : Nat) : Nat :=
  let size := text.utf8ByteSize
  let covered := match Text.slice? text (min span.start size) (min span.stop size) with
    | some cs => (cs.takeWhile (· != '\n')).length
    | none => 1
  max 1 (min covered (line.length - (col - 1)))

/-- The line that holds the start of a span, between margins, with carets below. -/
def snippet (text : String) (span : Span) : List String :=
  let (number, col) := Text.lineCol text span.start
  let line := (Text.lineTexts text.toList).getD (number - 1) []
  let margin := "".pushn ' ' (Nat.toDigits 10 number).length
  let carets := "".pushn ' ' (col - 1) |>.pushn '^' (caretCount text span line col)
  [margin ++ " |", s!"{number} | " ++ String.ofList line, margin ++ " | " ++ carets]

end Sexpr
