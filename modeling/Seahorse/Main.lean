import Seahorse.CommandLine

/-!
# The shell of the command line
-/

namespace Seahorse

open CommandLine

/-- Carries out an action. -/
def perform : Action → IO Unit
  | .note entry => IO.eprintln s!"[{entry.severity.name}] {entry.text}"
  | .print line => IO.println line
  | .pause millis => IO.sleep (UInt32.ofNat millis)

/-- The text of a file, or why there is none. -/
def readLevelFile (path : String) : IO (Except String String) := do
  try
    let text ← IO.FS.readFile path
    return .ok text
  catch e =>
    match e with
    | .noFileOrDirectory .. => return .error "No such file or directory (os error 2)"
    | e => return .error (toString e)

end Seahorse

open Seahorse in
/-- Runs the command line. -/
def main (args : List String) : IO UInt32 := do
  match CommandLine.parse? args with
  | none =>
    IO.eprintln "usage: [--level ID] [--config FILE] [--program TEXT] [--pacing PACE] [--instant] [--list]"
    return 2
  | some options =>
    let file ← match options.config with
      | none => pure (.error "")
      | some path => readLevelFile path
    let report := CommandLine.run (fun _ => file) options
    report.actions.forM perform
    report.trouble.forM fun trouble => IO.eprint trouble.text
    return UInt32.ofNat report.code
