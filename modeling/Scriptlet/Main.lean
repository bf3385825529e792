import Scriptlet.Session

/-!
# The command line

`main` runs the program in the file its one argument names, in a new session with host
functions on. What the program prints goes to standard output, then the display text of its
value. A failure is written to standard error as `error: [CLASS] message`, with exit code 1; so
is a file that cannot be read.
-/

namespace Scriptlet

variable [NestingLimit]

/-- The line that reports a failure. -/
def Failure.report (f : Failure) : String :=
  "error: [" ++ f.className ++ "] " ++ f.message

/-- The line that reports a file that cannot be read. -/
def unreadable (path : String) : String :=
  "error: [TzLoadError] file does not exist: " ++ path

end Scriptlet

open Scriptlet in
/-- Runs the program in the named file and reports its value or failure. -/
def main (args : List String) : IO UInt32 := do
  let stdout ← IO.getStdout
  let stderr ← IO.getStderr
  match args with
  | [path] =>
    match ← (IO.FS.readFile path).toBaseIO with
    | .error _ =>
      stderr.putStrLn (unreadable path)
      return 1
    | .ok source =>
      let (r, _) := (Session.start true).run source
      stdout.putStr r.printed
      match r.result with
      | .ok v =>
        stdout.putStrLn v.display
        return 0
      | .error f =>
        stdout.flush
        stderr.putStrLn f.report
        return 1
  | _ =>
    stderr.putStrLn "usage: scriptlet FILE"
    return 2
