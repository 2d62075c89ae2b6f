/-
  Setups of programs.

  A setup is what a program is started with: the configuration of its machine, a logger and, if
  the logger has a ring buffer to show when the program fails, where that is among the sinks.
-/
import BoxRuntime.Log.Setup
import BoxRuntime.Machine.Basic
import BoxRuntime.Program.Failure

namespace BoxRuntime

/-- What a program is started with. -/
structure ProgramSetup where
  runtime : RuntimeConfig := {}
  logger : Logger := .silent
  /-- The sink of the logger that is shown when the program fails. -/
  ring : Option Nat := none

namespace ProgramSetup

/-- A setup with the logger that a log setup describes. -/
def withLogging (places : String → Option Place) (runtime : RuntimeConfig) (log : LogSetup) :
    ProgramSetup :=
  let (logger, ring) := log.init places
  { runtime, logger, ring }

/-- The machine that the program starts on. -/
def machine (s : ProgramSetup) : Machine :=
  { config := s.runtime, logger := s.logger }

/-- The ring buffer to show when the program fails. -/
def ring? (s : ProgramSetup) : Option Ring :=
  s.ring.bind s.logger.ring?

/-! ## As diagnostics show it -/

/-- A level as diagnostics show it. -/
def levelText : Level → String
  | .trace => "Trace"
  | .debug => "Debug"
  | .info => "Info"
  | .warn => "Warn"
  | .error => "Error"

/-- A value that may be absent as diagnostics show it. -/
def optionText {α : Type} (text : α → String) : Option α → String
  | some a => s!"Some({text a})"
  | none => "None"

/-- A record as diagnostics show it: its name, then its fields between braces. -/
def recordText (name : String) (fields : List (String × String)) : String :=
  name ++ " \x7b " ++ ", ".intercalate (fields.map fun f => s!"{f.1}: {f.2}") ++ " \x7d"

def configText (c : RuntimeConfig) : String :=
  recordText "RuntimeConfig"
    [("debug", recordText "DebugConfig"
        [("trace_boxes", toString c.debug.traceBoxes),
          ("trace_splits", toString c.debug.traceSplits)]),
      ("list", recordText "ListConfig"
        [("default_size_hint", toString c.list.defaultSizeHint)])]

/-- The setup as diagnostics show it: configuration, level of the logger, capacity of the ring
buffer. -/
def debugText (s : ProgramSetup) : String :=
  recordText "RunConfig"
    [("runtime", configText s.runtime), ("log_level", levelText s.logger.level),
      ("ring", optionText (fun r => toString r.capacity.slots) s.ring?)]

/-! ## Reporting a failure -/

/-- Logs a failure as fatal.  Nothing silences an error. -/
def logFatal (s : ProgramSetup) (e : ProgramFailure) : ProgramSetup :=
  let r := e.report
  { s with
    logger := s.logger.log .error r.target
      s!"fatal {r.kind} error (exit {r.exitCode}): {r.message}" }

/-- What is shown of a ring buffer: a headline with the number of records, the records, a rule. -/
def ringText (ring : Ring) : String :=
  s!"--- last {ring.size} log records ---\n" ++ ring.dump ++ "\n---\n"

/-- Logs a failure and returns what is shown of it: the records of the ring buffer, if there are
any, and the report. -/
def reportFailure (s : ProgramSetup) (e : ProgramFailure) : String × ProgramSetup :=
  let s := s.logFatal e
  let records :=
    match s.ring? with
    | some ring => if ring.isEmpty then "" else ringText ring
    | none => ""
  (records ++ e.report.text ++ "\n", s)

/-! ## The installed setup -/

/-- Installs a setup for the whole process, unless there is one already; then the new one is handed
back. -/
def install (installed : Option ProgramSetup) (s : ProgramSetup) :
    Except ProgramSetup (Option ProgramSetup) :=
  match installed with
  | none => .ok (some s)
  | some _ => .error s

end ProgramSetup

end BoxRuntime
