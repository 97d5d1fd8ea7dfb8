/-
Operations: the callables that receive evaluated arguments.

This module gives their names and arities; what they compute is in
`Sexpr.Operation.Value`.
-/

import Sexpr.Arity

namespace Sexpr

inductive Operation where
  | add
  | sub
  | mul
  | div
  | equal
  | unequal
  | greater
  | less
  | greaterEqual
  | lessEqual
  | truth
  | negation
  | concat
  | print
  | putLine
  | merge
  | slice
  | index
  | remove
  | length
  | cons
  | snoc
  | isMap
  | mapHas
  | mapGet
  | mapPut
deriving Repr, DecidableEq

namespace Operation

/-- The name that programs use. -/
def name : Operation → String
  | .add => "+"
  | .sub => "-"
  | .mul => "*"
  | .div => "/"
  | .equal => "="
  | .unequal => "/="
  | .greater => ">"
  | .less => "<"
  | .greaterEqual => ">="
  | .lessEqual => "<="
  | .truth => "bool"
  | .negation => "not"
  | .concat => "concat"
  | .print => "print"
  | .putLine => "putstrln"
  | .merge => "merge"
  | .slice => "slice"
  | .index => "at"
  | .remove => "remove"
  | .length => "len"
  | .cons => "cons"
  | .snoc => "snoc"
  | .isMap => "is-map"
  | .mapHas => "map-in"
  | .mapGet => "map-at"
  | .mapPut => "map-up"

def arity : Operation → Arity
  | .add | .mul | .concat | .merge => .any
  | .sub | .div => .atLeast 1
  | .truth | .negation | .print | .putLine | .length | .isMap => .exactly 1
  | .slice => .between 3 4
  | .mapPut => .exactly 3
  | .equal | .unequal | .greater | .less | .greaterEqual | .lessEqual | .index | .remove
  | .cons | .snoc | .mapHas | .mapGet => .exactly 2

/-- Every operation, in the order of the catalog. -/
def all : List Operation :=
  [.add, .sub, .mul, .div, .equal, .unequal, .greater, .less, .greaterEqual, .lessEqual, .truth,
    .negation, .concat, .print, .putLine, .merge, .slice, .index, .remove, .length, .cons, .snoc,
    .isMap, .mapHas, .mapGet, .mapPut]

theorem mem_all (op : Operation) : op ∈ all := by
  cases op <;> decide

end Operation

end Sexpr
