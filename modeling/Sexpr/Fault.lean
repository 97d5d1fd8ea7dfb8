/-
Faults: the causes of failure.

A cause is data; its wording is given once, by `Fault.message`. Faults of two
families, mismatches and failures, share a code each and differ in their wording.
-/

import Sexpr.Arity
import Sexpr.Number.Basic
import Sexpr.Reading.Error

namespace Sexpr

/-- A node as messages mention it. -/
structure Mention where
  kind : String
  text : String
deriving Repr, DecidableEq

/-- What an operation or a form asks of an operand. -/
inductive Requirement where
  | number
  | integer
  | text
  | atom
  | vector
  | vectorOrText
  | comparable
  | name
  | params
  | bindings
  | quoted
deriving Repr, DecidableEq

def Requirement.describe : Requirement → String
  | .number => "a numeric"
  | .integer => "an integer"
  | .text => "a string"
  | .atom => "an atom"
  | .vector => "a vector"
  | .vectorOrText => "a vector or a string"
  | .comparable => "numeric or string operands of the same kind"
  | .name => "a symbol name"
  | .params => "a parameter vector"
  | .bindings => "a vector of [name value] pairs"
  | .quoted => "a quoted value"

/-- A node is not of the kind that its position asks for. -/
inductive Mismatch where
  | operand (callee : String) (required : Requirement) (given : Mention)
  /-- The target of a binding is neither a symbol nor a quoted one. -/
  | target (given : Mention)
  | parameter (given : Mention)
  | emptyCall
  /-- An element of a binding vector is not a pair. -/
  | pair (text : String) (index : Nat)
  /-- The first half of such a pair is not a symbol. -/
  | binder (text : String) (index : Nat)
  | clause (text : String)
  /-- A mismatch that a function of the embedding program reports. -/
  | reported (text : String)
deriving Repr, DecidableEq

def Mismatch.message : Mismatch → String
  | .operand callee required given =>
    s!"`{callee}` expects {required.describe}, got {given.kind} `{given.text}`"
  | .target given => s!"`setr` could not resolve to a symbol, got {given.kind} `{given.text}`"
  | .parameter given => s!"parameters must be symbols, got {given.kind} `{given.text}`"
  | .emptyCall => "cannot evaluate an empty s-expression"
  | .pair text index => s!"`{text}` at {index} is not a pair"
  | .binder text index => s!"`{text}` at {index} is not a symbol"
  | .clause text => s!"`cond` expects [predicate expression] pairs, got `{text}`"
  | .reported text => text

/-- The operands are of the right kinds, and still there is no result. -/
inductive Failure where
  | arithmetic (fault : ArithmeticFault)
  | incomparable (callee : String)
  | outOfRange (callee : String) (index : Int)
  | step
  | notMapping (callee : String)
  | missingKey (key : String)
  | duplicateParameter (name : String)
  | restParameter
  | exitStatus (status : Int)
  /-- A failure that a function of the embedding program reports. -/
  | reported (text : String)
deriving Repr, DecidableEq

def Failure.message : Failure → String
  | .arithmetic fault => fault.message
  | .incomparable callee => s!"`{callee}`: values are not comparable"
  | .outOfRange callee index => s!"`{callee}`: index {index} out of range"
  | .step => "`slice`: step must be a positive integer"
  | .notMapping callee => s!"`{callee}`: the given vector is not a mapping"
  | .missingKey key => s!"`map-at`: key `:{key}` not found"
  | .duplicateParameter name => s!"duplicate parameter `{name}`"
  | .restParameter => "`&` must be followed by exactly one rest parameter"
  | .exitStatus status => s!"`exit`: status {status} is out of range"
  | .reported text => text

inductive Fault where
  /-- The text of a program cannot be read. -/
  | unreadable (error : ReadError)
  | unbound (name : String)
  | notCallable (text : String)
  | arity (callee : String) (expected : Arity) (given : Nat)
  | mismatch (cause : Mismatch)
  | duplicateKey (key : String)
  | strayBreak
  | strayReturn
  | depthExceeded (limit : Nat)
  | budgetExhausted (limit : Nat)
  | failure (cause : Failure)
deriving DecidableEq

namespace Fault

/-- The word that reports show for the kind of fault. -/
def code : Fault → String
  | .unreadable error => error.kind.code
  | .unbound _ => "UnboundName"
  | .notCallable _ => "NotCallable"
  | .arity _ _ _ => "ArityMismatch"
  | .mismatch _ => "WrongType"
  | .duplicateKey _ => "DuplicateKey"
  | .strayBreak => "BreakOutsideLoop"
  | .strayReturn => "ReturnOutsideClosure"
  | .depthExceeded _ => "DepthExceeded"
  | .budgetExhausted _ => "BudgetExhausted"
  | .failure _ => "EvalError"

def message : Fault → String
  | .unreadable error => error.message
  | .unbound name => s!"unbound name `{name}`"
  | .notCallable text => s!"`{text}` is not callable"
  | .arity callee expected given =>
    s!"`{callee}` expects {expected.describe} argument(s), got {given}"
  | .mismatch cause => cause.message
  | .duplicateKey key => s!"duplicate key `:{key}` in map"
  | .strayBreak => "`break` used outside of a loop"
  | .strayReturn => "`return` used outside of a closure"
  | .depthExceeded limit => s!"evaluation depth limit exceeded (max: {limit})"
  | .budgetExhausted limit => s!"evaluation budget of {limit} steps exhausted"
  | .failure cause => cause.message

end Fault

/-- Refuses a number of arguments that the arity does not accept. -/
def Arity.check (expected : Arity) (callee : String) (given : Nat) : Except Fault Unit :=
  if expected.accepts given then .ok () else .error (.arity callee expected given)

end Sexpr
