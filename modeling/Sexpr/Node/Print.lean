/-
Printed nodes.

`Node.print` writes a node as it would be read; callables have no literal and
are shown in angle brackets. `Node.inspect` names the kind of every node on the
way.
-/

import Sexpr.Node.Basic
import Sexpr.Number.Print
import Sexpr.Text.Quoted

namespace Sexpr.Node

mutual

def print : Node → String
  | .number _ n => n.print
  | .symbol _ name => name
  | .text _ s => Text.quote s
  | .atom _ name => ":" ++ name
  | .call _ items => "(" ++ " ".intercalate (printAll items) ++ ")"
  | .vector _ items => "[" ++ " ".intercalate (printAll items) ++ "]"
  | .quoted _ inner => "'" ++ print inner
  | .closure _ l _ =>
    match l.kind with
    | .function => "<fn " ++ l.name ++ ">"
    | .expander => "<macro " ++ l.name ++ ">"
  | .primitive _ p => "<primordial " ++ p.name ++ ">"
  | .form _ f => "<special-form " ++ f.name ++ ">"

def printAll : List Node → List String
  | [] => []
  | n :: ns => print n :: printAll ns

end

theorem printAll_eq_map (ns : List Node) : printAll ns = ns.map print := by
  induction ns with
  | nil => rfl
  | cons n ns ih => rw [printAll, ih, List.map_cons]

mutual

def inspect : Node → String
  | .number _ n => "Numeric(" ++ n.print ++ ")"
  | .symbol _ name => "Symbol(" ++ name ++ ")"
  | .text _ s => "String(" ++ Text.inspect s ++ ")"
  | .atom _ name => "Atom(:" ++ name ++ ")"
  | .call _ items => "SExpression([" ++ ", ".intercalate (inspectAll items) ++ "])"
  | .vector _ items => "Vector([" ++ ", ".intercalate (inspectAll items) ++ "])"
  | .quoted _ inner => "Quoted(" ++ inspect inner ++ ")"
  | .closure _ l body => "Function(" ++ l.name ++ " " ++ l.params.print ++ " " ++ print body ++ ")"
  | .primitive _ p => "Primordial(" ++ p.name ++ ")"
  | .form _ f => "SpecialForm(" ++ f.name ++ ")"

def inspectAll : List Node → List String
  | [] => []
  | n :: ns => inspect n :: inspectAll ns

end

/-- A closure in full, but for its frame. -/
def inspectClosure (l : Lambda) (body : Node) : String :=
  let kind := match l.kind with
    | .function => "Function"
    | .expander => "Macro"
  "Closure \x7b name: " ++ Text.inspect l.name ++ ", kind: " ++ kind ++ ", params: "
    ++ l.params.inspect ++ ", body: " ++ body.inspect ++ ", .. \x7d"

end Sexpr.Node
