/-
Errors of the reader.

A `Flaw` is a cause: what is wrong with a text at some offset. From it follow
the kind of the error, its message, and the piece of text that it is about. A
`ReadError` is a flaw worked out against the text: with the place and the
surroundings, ready to be reported.
-/

import Sexpr.Place
import Sexpr.Text.Excerpt

namespace Sexpr

inductive Bracket where
  | round
  | square
deriving Repr, DecidableEq

def Bracket.opening : Bracket → Char
  | .round => '('
  | .square => '['

def Bracket.closing : Bracket → Char
  | .round => ')'
  | .square => ']'

/-- The kinds of reader errors. -/
inductive ReadErrorKind where
  | expectedExpression
  | expectedEnd
  | missingClosing
  | missingOpening
  | tooDeeplyNested
deriving Repr, DecidableEq

namespace ReadErrorKind

def code : ReadErrorKind → String
  | .expectedExpression => "ExpectedExpression"
  | .expectedEnd => "ExpectedEOF"
  | .missingClosing => "MissingClosing"
  | .missingOpening => "MissingOpening"
  | .tooDeeplyNested => "TooDeeplyNested"

def describe : ReadErrorKind → String
  | .expectedExpression => "expected expression"
  | .expectedEnd => "expected end of input"
  | .missingClosing => "missing closing bracket"
  | .missingOpening => "missing opening bracket"
  | .tooDeeplyNested => "too deeply nested"

/-- Every kind. -/
def all : List ReadErrorKind :=
  [.expectedExpression, .expectedEnd, .missingClosing, .missingOpening, .tooDeeplyNested]

/-- The kind with a given code. -/
def ofCode? (code : String) : Option ReadErrorKind :=
  all.find? fun kind => kind.code == code

theorem ofCode?_code (kind : ReadErrorKind) : ofCode? kind.code = some kind := by
  cases kind <;> decide

end ReadErrorKind

/-- What is wrong with a text. -/
inductive Flaw where
  /-- A form would stand under `limit` brackets and quotes or more. -/
  | tooDeep (limit : Nat)
  /-- The text ends where a form is required. -/
  | endOfInput
  /-- A closing bracket stands where no bracket is open. -/
  | unopened (bracket : Bracket)
  /-- A closing bracket does not match the bracket that is open. -/
  | mismatched (found expected : Bracket)
  /-- The text ends before a bracket is closed. -/
  | unclosed (bracket : Bracket)
  /-- The text ends before a quotation is closed. -/
  | unclosedText
  | unknownEscape (letter : Char)
  /-- A numeric literal has no number. -/
  | outOfRange (literal : String)
  | invalidToken (token : String)
  /-- Something follows the one form that was asked for. -/
  | trailing (token : String)
deriving Repr, DecidableEq

namespace Flaw

def kind : Flaw → ReadErrorKind
  | .tooDeep _ => .tooDeeplyNested
  | .endOfInput | .unknownEscape _ | .outOfRange _ | .invalidToken _ => .expectedExpression
  | .unopened _ | .mismatched _ _ => .missingOpening
  | .unclosed _ | .unclosedText => .missingClosing
  | .trailing _ => .expectedEnd

def message : Flaw → String
  | .tooDeep limit => s!"expression too deeply nested (max depth: {limit})"
  | .endOfInput => "expected an expression, found end of input"
  | .unopened b => s!"unexpected `{b.closing}` without a matching opening bracket"
  | .mismatched found b =>
    s!"unexpected `{found.closing}` where `{b.closing}` was expected to close `{b.opening}`"
  | .unclosed b => s!"missing closing `{b.closing}` for this `{b.opening}`"
  | .unclosedText => "unterminated string literal"
  | .unknownEscape letter => s!"unknown escape sequence `\\{letter}`"
  | .outOfRange literal => s!"numeric literal `{literal}` is out of range"
  | .invalidToken token => s!"invalid token `{token}`"
  | .trailing token => s!"unexpected input after expression: `{token}`"

/-- The piece of text that the flaw is about. -/
def found? : Flaw → Option String
  | .unopened b | .mismatched b _ => some (String.singleton b.closing)
  | .unknownEscape letter => some (String.ofList ['\\', letter])
  | .outOfRange token | .invalidToken token | .trailing token => some token
  | .tooDeep _ | .endOfInput | .unclosed _ | .unclosedText => none

/-- The number of bytes that the flaw covers: its piece of text, and one at least. -/
def width (f : Flaw) : Nat :=
  match f.found? with
  | some found => max 1 found.utf8ByteSize
  | none => 1

end Flaw

/-- A reader error as it is reported. -/
structure ReadError where
  kind : ReadErrorKind
  detail : String
  place : Place
  /-- The surroundings of the error on one line. -/
  context : Option String
  found : Option String
deriving DecidableEq

namespace ReadError

/-- The error for a flaw at an offset of a labelled text. -/
def ofFlaw (label text : String) (flaw : Flaw) (offset : Nat) : ReadError where
  kind := flaw.kind
  detail := flaw.message
  place := .within label offset (min (offset + flaw.width) text.utf8ByteSize)
  context := some (Text.excerpt text offset)
  found := flaw.found?

def message (e : ReadError) : String :=
  s!"{e.kind.describe}: {e.detail}"

/-- The text ended inside an unfinished form, which more text may finish. -/
def needsMore (e : ReadError) : Bool :=
  e.kind == .missingClosing

end ReadError

end Sexpr
