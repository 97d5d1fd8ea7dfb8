/-
The command line: runs the programs that it is given, then talks on standard
input and output. All decisions are those of `Sexpr.Console`.
-/

import Sexpr.Console

namespace Sexpr.Console

/-- Shows what the console has written so far. -/
def present (c : Console) : IO Console := do
  let out ← IO.getStdout
  let err ← IO.getStderr
  out.putStr c.out
  out.flush
  err.putStr c.err
  err.flush
  return { c with out := "", err := "" }

/-- Why a file cannot be read. -/
def reason : IO.Error → String
  | .noFileOrDirectory _ _ _ => "No such file or directory (os error 2)"
  | .permissionDenied _ _ _ => "Permission denied (os error 13)"
  | .inappropriateType _ _ _ => "Is a directory (os error 21)"
  | other => other.toString

/-- Reads a program and runs it, unless the console is over. -/
def loadFile (c : Console) (name : String) : IO Console := do
  if c.status.isSome then return c
  let text ← (IO.FS.readFile name).toBaseIO
  (c.load name (text.mapError reason)).present

/-- Takes lines until the console is over or the input ends. -/
partial def converse (c : Console) (input : IO.FS.Stream) : IO Console := do
  if c.status.isSome then return c
  let line ← input.getLine
  if line.isEmpty then c.endInput.present
  else converse (← (c.enter (String.ofList ((Text.lineTexts line.toList).headD []))).present) input

end Sexpr.Console

open Sexpr in
def main (args : List String) : IO UInt32 := do
  let console ← args.foldlM Console.loadFile Console.start
  let console ← console.greet.present
  let console ← console.converse (← IO.getStdin)
  return console.exitCode.toUInt32
