/-
The console: a session that is typed line by line.

The console first runs the programs that it is given, then greets and takes
lines until it is left. It only gathers what it writes, to the output and to the
error output; showing that is left to the program around it. Once a console has
a status it is over and takes nothing more.
-/

import Sexpr.Session
import Sexpr.Text.Blank

namespace Sexpr

structure Console where
  session : Session
  out : String := ""
  err : String := ""
  /-- The status that the console ended with. -/
  status : Option Int := none

namespace Console

/-- Ends the program; the status is the first argument, or zero. -/
def exitHost : Host
  | [] => .exit 0
  | .number _ (.int n) :: _ =>
    if -0x80000000 ≤ n.toInt ∧ n.toInt < 0x80000000 then .exit n.toInt
    else .fault (.failure (.exitStatus n.toInt))
  | other :: _ => .fault (.mismatch (.operand "exit" .integer other.mention))

/-- A console in which nothing has happened. -/
def start : Console where
  session := (Session.start {} {} 0).register "exit" (.between 0 1) exitHost

/-- Writes lines to the output. -/
def put (c : Console) (lines : List String) : Console :=
  { c with out := c.out ++ String.join (lines.map (· ++ "\n")) }

/-- Writes to the error output. -/
def complain (c : Console) (s : String) : Console :=
  { c with err := c.err ++ s }

def finish (c : Console) (status : Int) : Console :=
  { c with status := some status }

/-- Ends the console with a parting word. -/
def leave (c : Console) (status : Int) : Console :=
  (c.put ["Goodbye!"]).finish status

/-- Goes on with a session, whose output is taken over. -/
def follow (c : Console) (session : Session) : Console :=
  let (output, session) := session.takeOutput
  { c with session, out := c.out ++ output }

/-- Says why evaluation stopped; only an exit ends the console. -/
def explain (c : Console) : Stop → Console
  | .raised signal => c.complain (c.session.report signal)
  | .exited status => c.leave status
  | .outOfFuel => c.complain "evaluation was given up\n"

/-- Runs a program, or says why it cannot be read. Any failure ends the console. -/
def load (c : Console) (name : String) (text : Except String String) : Console :=
  if c.status.isSome then c
  else
    match text with
    | .error reason => (c.complain s!"cannot read {name}: {reason}\n").finish 1
    | .ok text =>
      match c.session.run name text with
      | (.ok _, session) => c.follow session
      | (.error stop, session) =>
        let c := (c.follow session).explain stop
        if c.status.isSome then c else c.finish 1

def greeting : List String :=
  ["Amalgam", "Enter expressions like: (+ 1 2)",
    "Type :help for more commands, or Ctrl+D to exit.", ""]

def help : List String :=
  ["Commands:",
    "  :help      - Show this help message",
    "  :env       - Show current environment bindings",
    "  :quit      - Exit the interpreter (also `(exit [code])`)",
    "  Ctrl+C     - Abandon a multi-line entry",
    "  Ctrl+D     - Exit the interpreter",
    "",
    "Forms:",
    "  Values:      42, 2.5, \"text\", :ATOM, [1 2 3], 'quoted",
    "  Binding:     (setn x 1), (setr 'x 2), (let [[a 1] [b 2]] (+ a b))",
    "  Functions:   (fn [x] (* x x)), (mkfn sq [x] (* x x)), (return v)",
    "  Macros:      (macro name [args] body), (eval 'code), (unquote 'code)",
    "  Control:     (if c a b), (when c body), (cond [c1 a] [c2 b]), (do a b)",
    "  Loops:       (loop body...), (break value)",
    "",
    "Examples:",
    "  (mkfn fact [n] (if (< n 2) 1 (* n (fact (- n 1)))))",
    "  (setn square (fn [x] (* x x)))",
    "  (square 12)",
    ""]

/-- Cuts a list into rows of `width + 1` items; the last row may be shorter. -/
def rows {α : Type} (width : Nat) (xs : List α) : List (List α) :=
  match xs with
  | [] => []
  | x :: xs => (x :: xs.take width) :: rows width (xs.drop width)
termination_by xs.length
decreasing_by
  simp only [List.length_drop, List.length_cons]
  omega

/-- A name in a column of fifteen characters. -/
def column (name : String) : String :=
  ("  " ++ name).pushn ' ' (15 - name.length)

/-- The lines that list all bindings: callables of the language in four columns,
then everything else with its value. -/
def listing (bindings : Bindings) : List String :=
  let builtins := (bindings.filter (·.2.isBuiltin)).map (·.1)
  let others := bindings.filter (!·.2.isBuiltin)
  let table :=
    if builtins.isEmpty then []
    else
      s!"Built-in callables ({builtins.length}):"
        :: (rows 3 builtins).map (fun row => Text.trimEnd (String.join (row.map column))) ++ [""]
  let values :=
    if others.isEmpty then []
    else
      s!"User-defined values ({others.length}):"
        :: others.map fun (name, node) => s!"  {name} = {node.print}"
  s!"Environment bindings ({bindings.length} total):" :: "" :: table ++ values

def greet (c : Console) : Console :=
  if c.status.isSome then c else c.put greeting

/-- Gives a line to the session. -/
def submit (c : Console) (line : String) : Console :=
  let (answer, session) := c.session.feed line
  let c := c.follow session
  match answer with
  | .incomplete => c
  | .values nodes => c.put (nodes.map Node.print)
  | .stopped stop => c.explain stop

/-- Takes one line. Commands are recognised only between entries. -/
def enter (c : Console) (line : String) : Console :=
  if c.status.isSome then c
  else if c.session.isPending then c.submit line
  else
    match Text.trim line with
    | "" => c
    | ":help" => c.put help
    | ":env" => c.put (listing (c.session.world.store.visible Store.root))
    | ":quit" | ":exit" => c.leave 0
    | _ => c.submit line

/-- The input has ended. -/
def endInput (c : Console) : Console :=
  if c.status.isSome then c else c.leave 0

/-- The status as a process gives it. -/
def exitCode (c : Console) : Nat :=
  ((c.status.getD 0) % 256).toNat

/-- The lines of an input. The piece behind the last line feed is a line if it
holds anything. -/
def inputLines (input : String) : List String :=
  let pieces := Text.lineTexts input.toList
  let pieces := if pieces.getLast? = some [] then pieces.dropLast else pieces
  pieces.map String.ofList

/-- A whole console session: programs to run first, then the lines typed. -/
def transcript (programs : List (String × Except String String)) (lines : List String) : Console :=
  let loaded := programs.foldl (fun c (name, text) => c.load name text) start
  (lines.foldl enter loaded.greet).endInput

end Console

end Sexpr
