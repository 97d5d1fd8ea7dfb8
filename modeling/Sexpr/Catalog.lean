/-
The catalog: every callable that programs start with.
-/

import Sexpr.Form.Basic
import Sexpr.Operation.Basic

namespace Sexpr

inductive Builtin where
  | form (form : Form)
  | operation (op : Operation)
deriving Repr, DecidableEq

namespace Builtin

def name : Builtin → String
  | .form f => f.name
  | .operation op => op.name

def arity : Builtin → Arity
  | .form f => f.arity
  | .operation op => op.arity

def isForm : Builtin → Bool
  | .form _ => true
  | .operation _ => false

def inspect (b : Builtin) : String :=
  let kind := if b.isForm then "SpecialForm(<fn>)" else "Function(<fn>)"
  "BuiltinOp \x7b name: \"" ++ b.name ++ "\", op_kind: " ++ kind ++ ", arity: " ++ b.arity.inspect
    ++ " \x7d"

end Builtin

/-- All callables, forms first. -/
def catalog : List Builtin :=
  Form.all.map .form ++ Operation.all.map .operation

/-- The callable of the catalog with a given name. -/
def Builtin.ofName? (name : String) : Option Builtin :=
  catalog.find? fun b => b.name == name

/-- No two callables share a name. -/
theorem nodup_catalog_names : (catalog.map Builtin.name).Nodup := by
  decide

end Sexpr
