/-
Special forms: the callables that receive their operands unevaluated.

This module gives their names and arities; what they do is in
`Sexpr.Run.Form`.
-/

import Sexpr.Arity

namespace Sexpr

inductive Form where
  | quote
  /-- Binds a name that is written out. -/
  | bind
  /-- Binds the name that an operand evaluates to. -/
  | bindTo
  | unquote
  | evaluate
  /-- An anonymous function. -/
  | lambda
  /-- A named function. -/
  | function
  /-- A named closure that receives quoted operands. -/
  | expander
  | letIn
  | sequence
  | loop
  /-- Leaves the nearest loop. -/
  | leaveLoop
  /-- Leaves the nearest call. -/
  | leaveCall
  | branch
  | guarded
  | cases
  | conjunction
  | disjunction
deriving Repr, DecidableEq

namespace Form

/-- The name that programs use. -/
def name : Form → String
  | .quote => "quote"
  | .bind => "setn"
  | .bindTo => "setr"
  | .unquote => "unquote"
  | .evaluate => "eval"
  | .lambda => "fn"
  | .function => "mkfn"
  | .expander => "macro"
  | .letIn => "let"
  | .sequence => "do"
  | .loop => "loop"
  | .leaveLoop => "break"
  | .leaveCall => "return"
  | .branch => "if"
  | .guarded => "when"
  | .cases => "cond"
  | .conjunction => "and"
  | .disjunction => "or"

def arity : Form → Arity
  | .quote | .unquote | .evaluate => .exactly 1
  | .bind | .bindTo | .lambda | .letIn | .guarded => .exactly 2
  | .function | .expander => .exactly 3
  | .loop => .atLeast 1
  | .leaveLoop | .leaveCall => .between 0 1
  | .branch => .between 2 3
  | .sequence | .cases | .conjunction | .disjunction => .any

/-- Every form, in the order of the catalog. -/
def all : List Form :=
  [.quote, .bind, .bindTo, .unquote, .evaluate, .lambda, .function, .expander, .letIn, .sequence,
    .loop, .leaveLoop, .leaveCall, .branch, .guarded, .cases, .conjunction, .disjunction]

theorem mem_all (f : Form) : f ∈ all := by
  cases f <;> decide

end Form

end Sexpr
