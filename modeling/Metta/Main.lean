/-
# Metta.Main -- the command line

Reads the file that a command names, and the input for a dialogue, executes the command,
reports its log, writes what it has to say and returns its code.
-/
import Metta.Command.Execute

set_option autoImplicit false

open Metta

/-- What is found at a path. -/
def readContent (path : String) : IO FileContent := do
  if path.contains '\x00' then return .unreadable .nullCharacter
  try
    return .text (← IO.FS.readFile path)
  catch
    | .noFileOrDirectory .. => return .missing
    | _ => return .unreadable .isDirectory

def runCommand (c : Command) : IO UInt32 := do
  let file ← match c.path? with
    | some path => readContent path
    | none => pure .missing
  let input ← match c with
    | .repl _ => (← IO.getStdin).readToEnd
    | _ => pure ""
  match c.execute {} file input with
  | .ok outcome =>
    for r in outcome.log do
      IO.eprintln (r.level.name ++ " - " ++ r.message)
    IO.print outcome.output
    return UInt32.ofNat outcome.code
  | .error (.file _) =>
    IO.eprintln "The path names no readable file."
    return 1
  | .error (.noBound message) =>
    IO.eprintln message
    return 1
  | .error (.failed f) =>
    IO.eprintln f.message
    return 1
  | .error (.unknownLogLevel name) =>
    IO.eprintln ("Unknown log level: " ++ name)
    return 1

def main (args : List String) : IO UInt32 := do
  match Command.ofArguments args with
  | .command c => runCommand c
  | .noCommand =>
    IO.print Command.usage
    return 2
  | .refused .help =>
    IO.print Command.usage
    return 0
  | .refused .rejected =>
    IO.eprint Command.usage
    return 2
