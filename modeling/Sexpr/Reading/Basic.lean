/-
Reading: from tokens to nodes.

The reader goes over the tokens once and keeps a stack of what is still open:
brackets with the items read so far, and quote marks. A finished node goes to
the innermost open bracket, through the quote marks around it, or out to the top
level. The depth of a token is the height of the stack, which is bounded.

`read` gives all forms of a text up to its first flaw; `readOne` insists on
exactly one form. Both work on the same `step`.
-/

import Sexpr.Reading.Token

namespace Sexpr

/-- What the reader is told about its text. -/
structure ReadSettings where
  /-- A semicolon opens a comment. -/
  comments : Bool := true
  /-- The number of brackets and quote marks that may be open at once. -/
  depth : Nat := 128
deriving Repr, DecidableEq

/-- What the reader has yet to finish. -/
inductive Pending where
  /-- An open bracket with its items, the latest first. -/
  | bracket (kind : Bracket) (start : Nat) (items : List Node)
  | quote (start : Nat)

/-- The reader after a token: still inside a form, or at its end. -/
inductive Progress where
  | inside (stack : List Pending)
  | done (node : Node)

/-- A flaw and its offset. -/
abbrev FlawAt := Flaw × Nat

namespace Reading

/-- Hands a finished node, which ends at `stop`, to what is open around it. -/
def deliver (label : String) (stop : Nat) (node : Node) : List Pending → Progress
  | [] => .done node
  | .quote start :: stack => deliver label stop (.quoted (.within label start stop) node) stack
  | .bracket kind start items :: stack => .inside (.bracket kind start (node :: items) :: stack)

/-- The node of a bracket that has been closed. -/
def close (place : Place) (kind : Bracket) (items : List Node) : Node :=
  match kind with
  | .round => .call place items.reverse
  | .square => .vector place items.reverse

/-- Begins a form: refused when too much is open. -/
def enter (settings : ReadSettings) (label : String) (stack : List Pending) (token : Token) :
    Except FlawAt Progress :=
  if settings.depth ≤ stack.length then .error (.tooDeep settings.depth, token.start)
  else
    match token.lexeme with
    | .opening kind => .ok (.inside (.bracket kind token.start [] :: stack))
    | .quote => .ok (.inside (.quote token.start :: stack))
    | .leaf leaf =>
      .ok (deliver label token.stop (leaf.toNode (.within label token.start token.stop)) stack)
    | .closing kind => .error (.unopened kind, token.start)
    | .broken flaw offset => .error (flaw, offset)

/-- Takes one token. Only inside a bracket may a closing bracket stand. -/
def step (settings : ReadSettings) (label : String) (stack : List Pending) (token : Token) :
    Except FlawAt Progress :=
  match stack, token.lexeme with
  | .bracket kind start items :: outer, .closing found =>
    if found = kind then
      .ok (deliver label token.stop (close (.within label start token.stop) kind items) outer)
    else .error (.mismatched found kind, token.start)
  | _, _ => enter settings label stack token

/-- The flaw of a text that ends, at `stop`, where a form is required. -/
def flawAtEnd (settings : ReadSettings) (stop : Nat) (stack : List Pending) : FlawAt :=
  match stack with
  | .bracket kind start _ :: _ => (.unclosed kind, start)
  | _ =>
    if settings.depth ≤ stack.length then (.tooDeep settings.depth, stop) else (.endOfInput, stop)

/-- Reads tokens into forms, up to the first flaw. -/
def readTokens (settings : ReadSettings) (label : String) (stop : Nat) :
    List Pending → List Token → List Node × Option FlawAt
  | [], [] => ([], none)
  | stack, [] => ([], some (flawAtEnd settings stop stack))
  | stack, token :: tokens =>
    match step settings label stack token with
    | .error flaw => ([], some flaw)
    | .ok (.inside stack) => readTokens settings label stop stack tokens
    | .ok (.done node) =>
      let (nodes, flaw) := readTokens settings label stop [] tokens
      (node :: nodes, flaw)

/-- Reads tokens up to the end of the first form; gives the tokens behind it. -/
def readFirst (settings : ReadSettings) (label : String) (stop : Nat) :
    List Pending → List Token → Except FlawAt (Node × List Token)
  | stack, [] => .error (flawAtEnd settings stop stack)
  | stack, token :: tokens =>
    match step settings label stack token with
    | .error flaw => .error flaw
    | .ok (.inside stack) => readFirst settings label stop stack tokens
    | .ok (.done node) => .ok (node, tokens)

/-- What stands at an offset, up to the next blank. -/
def wordAt (text : String) (offset : Nat) : String :=
  String.ofList (((Text.dropBytes? text.toList offset).getD []).takeWhile (!Text.isBlank ·))

end Reading

/-- The forms of a text, and the error that ended them, if any. -/
structure Reading where
  forms : List Node
  error : Option ReadError

/-- Reads every form of a labelled text. -/
def read (settings : ReadSettings) (label text : String) : Reading :=
  let tokens := Token.scan settings.comments 0 text.toList
  let (forms, flaw) := Reading.readTokens settings label text.utf8ByteSize [] tokens
  ⟨forms, flaw.map fun (flaw, offset) => .ofFlaw label text flaw offset⟩

/-- All forms of the text, if it has no flaw. -/
def Reading.all (r : Reading) : Except ReadError (List Node) :=
  match r.error with
  | some error => .error error
  | none => .ok r.forms

/-- Reads a labelled text that holds exactly one form. -/
def readOne (settings : ReadSettings) (label text : String) : Except ReadError Node :=
  let tokens := Token.scan settings.comments 0 text.toList
  match Reading.readFirst settings label text.utf8ByteSize [] tokens with
  | .error (flaw, offset) => .error (.ofFlaw label text flaw offset)
  | .ok (node, []) => .ok node
  | .ok (_, token :: _) =>
    .error (.ofFlaw label text (.trailing (Reading.wordAt text token.start)) token.start)

end Sexpr
