/-
  Failed programs.

  A program stops at the first fault, either in an initializer or in its main part.  A failure
  wraps the fault and knows where it arose; its kind and exit code are those of the fault.  A
  report is a failure in a form to show or to pass on.
-/
import BoxRuntime.Config
import BoxRuntime.Fault
import BoxRuntime.Json.Basic

namespace BoxRuntime

/-- How a program failed. -/
inductive ProgramFailure where
  /-- In its main part. -/
  | main (f : Fault)
  /-- In the initializer of a given name. -/
  | init (name : String) (f : Fault)
deriving DecidableEq

/-- A failure as it is reported. -/
structure FailureReport where
  phase : String
  kind : String
  exitCode : Int
  message : String
  /-- The target of the failure's log record. -/
  target : String
deriving DecidableEq

namespace ProgramFailure

/-- The fault behind the failure. -/
def fault : ProgramFailure → Fault
  | main f => f
  | init _ f => f

def kind (e : ProgramFailure) : FaultKind :=
  e.fault.kind

def exitCode (e : ProgramFailure) : Int :=
  e.fault.exitCode

/-- The failure in words. -/
def message : ProgramFailure → String
  | main f => f.message
  | init name f => s!"initializer '{name}' failed: {f.message}"

/-- The part of the program that failed. -/
def phase : ProgramFailure → String
  | main _ => "runtime"
  | init .. => "init"

/-- The component that failed. -/
def component : ProgramFailure → Component
  | main _ => .runtime
  | init .. => .init

def report (e : ProgramFailure) : FailureReport where
  phase := e.phase
  kind := e.kind.name
  exitCode := e.exitCode
  message := e.message
  target := e.component.target

end ProgramFailure

namespace FailureReport

/-- The report as a line of text. -/
def text (r : FailureReport) : String :=
  s!"[{r.phase}] {r.kind} error: {r.message}"

def toJson (r : FailureReport) : Json :=
  .ofMembers [("phase", .text r.phase), ("kind", .text r.kind), ("exit_code", .int r.exitCode),
    ("message", .text r.message), ("target", .text r.target)]

end FailureReport

end BoxRuntime
