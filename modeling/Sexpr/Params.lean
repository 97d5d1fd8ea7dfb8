/-
Parameter lists: positional names, and perhaps one name for all further
arguments.
-/

import Sexpr.Arity
import Sexpr.Text.Quoted

namespace Sexpr

/-- The name that introduces the rest parameter in a parameter vector. -/
def restMarker : String := "&"

structure Params where
  names : List String
  rest : Option String
deriving Repr, DecidableEq

namespace Params

def arity (p : Params) : Arity :=
  match p.rest with
  | some _ => .atLeast p.names.length
  | none => .exactly p.names.length

/-- The words of the parameter vector. -/
def words (p : Params) : List String :=
  match p.rest with
  | some rest => p.names ++ [restMarker, rest]
  | none => p.names

/-- The parameter vector as it is written. -/
def print (p : Params) : String :=
  "[" ++ " ".intercalate p.words ++ "]"

def inspect (p : Params) : String :=
  let names := ", ".intercalate (p.names.map Text.inspect)
  let rest := match p.rest with
    | some rest => "Some(" ++ Text.inspect rest ++ ")"
    | none => "None"
  "Params \x7b names: [" ++ names ++ "], rest: " ++ rest ++ " \x7d"

end Params

end Sexpr
