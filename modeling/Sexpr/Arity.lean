/-
Arities: how many arguments a callable takes.
-/

namespace Sexpr

inductive Arity where
  | exactly (count : Nat)
  | atLeast (count : Nat)
  /-- Both bounds are included. -/
  | between (least most : Nat)
  | any
deriving Repr, DecidableEq

namespace Arity

def accepts : Arity → Nat → Bool
  | .exactly n, count => count == n
  | .atLeast n, count => n ≤ count
  | .between least most, count => least ≤ count && count ≤ most
  | .any, _ => true

/-- The arity as messages word it. -/
def describe : Arity → String
  | .exactly n => s!"exactly {n}"
  | .atLeast n => s!"at least {n}"
  | .between least most => s!"between {least} and {most}"
  | .any => "any number of"

def inspect : Arity → String
  | .exactly n => s!"Exact({n})"
  | .atLeast n => s!"AtLeast({n})"
  | .between least most => s!"Range({least}, {most})"
  | .any => "Any"

end Arity

end Sexpr
