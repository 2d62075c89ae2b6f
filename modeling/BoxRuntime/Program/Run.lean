/-
  Running a program.

  A program is a chain of named initializers and a main part.  They are actions of a host: a
  machine, with whatever the program keeps besides.  The initializers run in order, inside a span
  of the log, and the first that fails ends the program.  If none does, the main part runs with a
  handle of the system object, a new int box with the number one.
-/
import BoxRuntime.Machine.Basic
import BoxRuntime.Program.Failure
import BoxRuntime.Text.Quoted

namespace BoxRuntime

/-- A machine, and what a program keeps besides. -/
structure Host (σ : Type) where
  machine : Machine
  own : σ

namespace Host

variable {σ : Type}

/-- An operation on the host's machine. -/
def on {ε α : Type} (wrap : Fault → ε) (op : Op α) : EStateM ε (Host σ) α := fun ⟨machine, own⟩ =>
  match op machine with
  | .ok a machine => .ok a { machine, own }
  | .error f machine => .error (wrap f) { machine, own }

end Host

/-- A part of a program: it works on the host, and may fail with a fault. -/
abbrev Callback (σ α : Type) := EStateM Fault (Host σ) α

/-- A part of a program that prepares it. -/
structure Initializer (σ : Type) where
  name : String
  action : Callback σ Unit

/-- Initializers in the order they run. -/
structure InitChain (σ : Type) where
  initializers : List (Initializer σ) := []

namespace InitChain

variable {σ : Type}

/-- Adds an initializer at the end. -/
def register (c : InitChain σ) (name : String) (action : Callback σ Unit) : InitChain σ :=
  { initializers := c.initializers ++ [{ name, action }] }

def length (c : InitChain σ) : Nat :=
  c.initializers.length

def isEmpty (c : InitChain σ) : Bool :=
  c.initializers.isEmpty

def names (c : InitChain σ) : List String :=
  c.initializers.map Initializer.name

/-- The names of the chain as diagnostics show them. -/
def debugText (c : InitChain σ) : String :=
  Text.quoteList c.names

/-- Logs a message of a component from within a program. -/
def log {ε : Type} (level : Level) (component : Component) (message : String) :
    EStateM ε (Host σ) Unit :=
  modify fun h =>
    { h with machine.logger := h.machine.logger.log level component.target message }

/-- Runs one initializer; `position` counts from the start of the chain. -/
def runOne (position : Nat) (i : Initializer σ) : EStateM ProgramFailure (Host σ) Unit := do
  log .debug .init s!"running initializer #{position} '{i.name}'"
  fun h =>
    match i.action h with
    | .ok () h => .ok () h
    | .error f h =>
      let e := ProgramFailure.init i.name f
      match log (ε := Fault) .error .init e.message h with
      | .ok () h => .error e h
      | .error _ h => .error e h

/-- Runs initializers from a position on, up to the first that fails. -/
def runFrom (position : Nat) : List (Initializer σ) → EStateM ProgramFailure (Host σ) Unit
  | [] => pure ()
  | i :: rest => do
    runOne position i
    runFrom (position + 1) rest

/-- Runs the chain inside a span, which is over when the chain is, whatever happened. -/
def run (c : InitChain σ) : EStateM ProgramFailure (Host σ) Unit := fun h =>
  let (guard, logger) := h.machine.logger.enterSpan "init"
  let close (h : Host σ) : Host σ :=
    { h with machine.logger := h.machine.logger.exitSpan guard }
  match runFrom 0 c.initializers { h with machine.logger := logger } with
  | .ok () h => .ok () (close h)
  | .error e h => .error e (close h)

end InitChain

/-- The main part of a program, with its fault as a failure of the program. -/
def runMain {σ α : Type} (main : Handle → Callback σ α) (system : Handle) :
    EStateM ProgramFailure (Host σ) α := fun h =>
  match main system h with
  | .ok a h => .ok a h
  | .error f h => .error (.main f) h

/-- Runs a program.  The main part owns the handle of the system object that it gets. -/
def runProgram {σ α : Type} (chain : InitChain σ) (main : Handle → Callback σ α) :
    EStateM ProgramFailure (Host σ) α := do
  InitChain.log .info .runtime s!"starting program ({chain.length} initializers)"
  chain.run
  let system ← Host.on .main (Machine.boxInt 1)
  let result ← runMain main system
  InitChain.log .info .runtime "program finished"
  return result

end BoxRuntime
