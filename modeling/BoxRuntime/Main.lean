/-
  The program.

  Everything is decided in `Cli.run`; here the files are opened and read, and the texts written.
-/
import BoxRuntime.Cli.Run

open BoxRuntime

/-- The error number of the system, whose sign is not the same for all actions. -/
def errorNumber (code : UInt32) : Nat :=
  min code.toNat (0 - code).toNat

/-- The system's reason for a failure. -/
def reason (e : IO.Error) : String :=
  match e with
  | .noFileOrDirectory .. => PathFault.message .missing
  | .permissionDenied _ code _ => s!"Permission denied (os error {errorNumber code})"
  | .inappropriateType _ code _ =>
    match errorNumber code with
    | 20 => PathFault.message .notFolder
    | 21 => PathFault.message .isFolder
    | _ => toString e
  | .invalidArgument _ code _ =>
    match errorNumber code with
    | 36 => PathFault.message .tooLong
    | _ => toString e
  | _ => toString e

/-- The result of an action, or the system's reason why it failed. -/
def attempted {α : Type} (action : IO α) : IO (Except String α) := do
  try
    return .ok (← action)
  catch e =>
    return .error (reason e)

/-- Opens a log file to add to it. -/
def openLog (path : Option String) : IO (Except String (Option IO.FS.Handle)) :=
  match path with
  | none => return .ok none
  | some path => attempted (some <$> IO.FS.Handle.mk path .append)

/-- Runs a script as the options say. -/
def runOptions (o : Cli.Options) : IO UInt32 := do
  let log ← openLog o.logFile
  let content ← attempted (IO.FS.readBinFile o.script)
  let outcome := Cli.run o (log.map fun _ => ()) content
  IO.print outcome.stdout
  IO.eprint outcome.stderr
  match log with
  | .ok (some h) => h.putStr outcome.log
  | _ => pure ()
  return UInt32.ofNat outcome.exitCode

def main (args : List String) : IO UInt32 :=
  match Cli.Request.ofArguments args with
  | .invalid => do
    IO.eprint Cli.helpText
    return 2
  | .version => do
    IO.print Cli.versionText
    return 0
  | .help => do
    IO.print Cli.helpText
    return 0
  | .run o => runOptions o
