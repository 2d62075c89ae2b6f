/-
  The command.

  The command opens its log file, loads a script, runs it as a program and reports how that went.
  All it does to the world is in its `Outcome`: the exit code, and the texts for the two standard
  streams and for the log file.

  Exit codes: zero when no step failed, one when the script could not be loaded or failed by itself,
  and for a fault the code of its kind, as a byte.  A process that stops in the middle of its work,
  because it asks for a ring buffer that cannot be, has a code of its own.
-/
import BoxRuntime.Cli.Console
import BoxRuntime.FileTree
import BoxRuntime.Script.Interpreter
import BoxRuntime.Script.Text

namespace BoxRuntime.Cli

/-- What the command does to the world. -/
structure Outcome where
  exitCode : Nat
  stdout : String := ""
  stderr : String := ""
  /-- What is added to the log file. -/
  log : String := ""
deriving DecidableEq

/-- The version of the command. -/
def versionText : String :=
  "wyrt 0.1.0\n"

/-- A summary of the arguments. -/
def helpText : String :=
  "Usage: wyrt [OPTIONS] <SCRIPT>\n"

/-- The filter that the options describe. -/
def Options.filter (o : Options) : Filter :=
  let f := o.overrides.foldl (fun f p => f.set p.1 p.2) { global := o.level }
  if o.debug then f.withDebugDefaults else f

/-- The setup that the options describe, with a ring buffer of the given size, if it has any slots:
a logger as talkative as the filter, and the console.  No output is a file, so none is opened. -/
def Options.setup (o : Options) (size : RingSize) : ProgramSetup :=
  let debug := if o.debug then DebugSwitches.all else {}
  let outputs := if size.slots = 0 then [] else [LogOutput.ring size]
  let s := ProgramSetup.withLogging (fun _ => none) { debug }
    { level := o.filter.mostVerbose.loggerLevel, outputs }
  { s with logger := s.logger.addSink (.outlet .console) }

/-- Why a script could not be loaded. -/
inductive LoadFailure where
  /-- The file could not be read, for a reason given by the system. -/
  | unreadable (path reason : String)
  | notText (path : String)
  | notScript (path : String)
deriving DecidableEq

def LoadFailure.message : LoadFailure → String
  | unreadable path reason => s!"cannot read '{path}': {reason}"
  | notText path => s!"cannot read '{path}': stream did not contain valid UTF-8"
  | notScript path => s!"cannot parse '{path}'"

/-- The script in a file, or the system's reason why the file cannot be read. -/
def loadScript (path : String) (content : Except String ByteArray) : Except LoadFailure Script :=
  match content with
  | .error reason => .error (.unreadable path reason)
  | .ok bytes =>
    match String.fromUTF8? bytes with
    | none => .error (.notText path)
    | some text =>
      match Script.parse? text with
      | none => .error (.notScript path)
      | some script => .ok script

/-- An exit code as the byte that the system passes on. -/
def exitByte (code : Int) : Nat :=
  (code % 256).toNat

/-- The outcome of a run: the log of the run, and a text to say at the end. -/
def conclude (o : Options) (code : Nat) (logger : Logger) (stdout final : String) : Outcome :=
  let shown := events o.filter logger.journal
  { exitCode := code
    stdout
    stderr := unlines (shown.map (LogEvent.render o.format)) ++ final
    log := unlines (shown.map LogEvent.line) }

/-- What the command says of a script once it is loaded. -/
def loadedText (o : Options) (s : Script) : String :=
  s!"loaded '{o.script}': {s.init.length} init blocks, {s.steps.length} steps"

/-- The outcome if there can be no ring buffer of the size asked for: the process stops there. -/
def oversized (o : Options) (s : Script) : Outcome :=
  conclude o 101 (Logger.silent.remark .info (loadedText o s)) "" "capacity overflow\n"

/-- Runs a script that prints to a given output. -/
def runScript (o : Options) (size : RingSize) (s : Script) (out : Output := {}) : Outcome :=
  let setup := o.setup size
  let setup := { setup with logger := setup.logger.remark .info (loadedText o s) }
  let own : Interpreter := { out, defaultSizeHint := setup.runtime.list.defaultSizeHint }
  match s.run { machine := setup.machine, own } with
  -- A fault ends the run, and its report follows what the run had logged.
  | .error e h =>
    let (text, setup) := { setup with logger := h.machine.logger }.reportFailure e
    conclude o (exitByte e.exitCode) setup.logger h.own.out.text text
  | .ok _ h =>
    let logger := h.machine.logger
    match h.own.failure with
    -- The steps are through, but a piece of output was refused: only now does that count.
    | some e =>
      conclude o 1 (logger.remark .error e.message) h.own.out.text s!"Error: {e.message}\n"
    | none =>
      conclude o 0 (logger.remark .info s!"{h.own.executed} steps executed") h.own.out.text ""

/-- Runs the command with a log file, if one is wanted, that could be opened or not, and the
content of its script. -/
def run (o : Options) (logFile : Except String Unit) (content : Except String ByteArray) :
    Outcome :=
  match logFile with
  | .error reason => { exitCode := 1, stderr := s!"Error: cannot open log file: {reason}\n" }
  | .ok () =>
    match loadScript o.script content with
    | .error e => { exitCode := 1, stderr := s!"Error: {e.message}\n" }
    | .ok s =>
      match RingSize.ofNat? o.ringSize with
      | none => oversized o s
      | some size => runScript o size s

/-- What the command does to the world when it runs in a tree of files, and the tree afterwards.
There is nothing to be done with arguments that are refused but to say so by the exit code. -/
def runIn (tree : FileTree) (args : List String) : Outcome × FileTree :=
  match Request.ofArguments args with
  | .invalid => ({ exitCode := 2 }, tree)
  | .version => ({ exitCode := 0, stdout := versionText }, tree)
  | .help => ({ exitCode := 0, stdout := helpText }, tree)
  | .run o =>
    let opened : Except PathFault (Option Place × FileTree) :=
      match o.logFile with
      | none => .ok (none, tree)
      | some path => (tree.openToAdd path).map fun (place, tree) => (some place, tree)
    match opened with
    | .error e => (run o (.error e.message) (.error ""), tree)
    | .ok (place, tree) =>
      -- The log file is opened before the script is read, and is there even if the script is not.
      let outcome := run o (.ok ()) ((tree.read o.script).mapError PathFault.message)
      match place with
      | none => (outcome, tree)
      | some place => (outcome, tree.add place outcome.log)

end BoxRuntime.Cli
