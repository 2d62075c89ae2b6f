/-
  Running scripts.

  The interpreter keeps boxes under the names that steps give them, and writes what steps print.
  A step makes its operands first, from left to right, and then looks up its collection.

  A fault of the machine ends the program.  A failure of the script itself (a name without a box,
  output that cannot be written) does not: it is noted, and every later step is passed over.
-/
import BoxRuntime.Machine.Collections
import BoxRuntime.Names
import BoxRuntime.Program.Run
import BoxRuntime.Script.Step

namespace BoxRuntime

/-! ## Output -/

/-- Where a script's text goes.  What becomes of a piece of text may depend on all the pieces that
were written before it. -/
structure Output where
  /-- The pieces written so far, in order. -/
  written : Array String := #[]
  /-- How much of the next piece is still written, and the reason why not more; none if the whole
  piece is written. -/
  refusal : Array String → String → Option (String × String) := fun _ _ => none

namespace Output

/-- The text written so far. -/
def text (o : Output) : String :=
  o.written.foldl (· ++ ·) ""

/-- An output with room for so many bytes, which takes a piece whole or not at all. -/
def limited (limit : Nat) : Output where
  refusal written s :=
    if written.foldl (fun n piece => n + piece.utf8ByteSize) s.utf8ByteSize ≤ limit then none
    else some ("", "disk full")

/-- Writes a piece of text; also says why it was not written whole, if so.  Nothing has to be done
for an empty piece. -/
def write (o : Output) (s : String) : Option String × Output :=
  if s.isEmpty then (none, o)
  else
    match o.refusal o.written s with
    | none => (none, { o with written := o.written.push s })
    | some (part, reason) => (some reason, { o with written := o.written.push part })

end Output

/-! ## Failures -/

/-- How a script failed by itself. -/
inductive ScriptFailure where
  /-- A step used a name that has no box; steps count from one, over all blocks. -/
  | unbound (step : Nat) (name : String)
  /-- The output was refused, for a reason given by its destination. -/
  | unwritable (reason : String)
deriving DecidableEq

/-- The failure in words. -/
def ScriptFailure.message : ScriptFailure → String
  | unbound step name => s!"step {step}: unbound name '{name}'"
  | unwritable reason => s!"cannot write output: {reason}"

/-- Why a step did not complete. -/
inductive StepFailure where
  | fault (f : Fault)
  | script (e : ScriptFailure)
deriving DecidableEq

/-! ## The interpreter -/

/-- What a script keeps besides its machine. -/
structure Interpreter where
  names : Names := {}
  out : Output := {}
  /-- The size hint of lists that are made without one. -/
  defaultSizeHint : Nat := 0
  /-- The number of steps begun. -/
  executed : Nat := 0
  failure : Option ScriptFailure := none

/-- A part of a step. -/
abbrev StepAct (α : Type) := EStateM StepFailure (Host Interpreter) α

namespace Interpreter

/-- An operation on the machine. -/
def on {α : Type} (op : Op α) : StepAct α :=
  Host.on .fault op

/-- Says something in the command line's own log. -/
def remark {ε : Type} (level : Level) (message : String) : EStateM ε (Host Interpreter) Unit :=
  modify fun h => { h with machine.logger := h.machine.logger.remark level message }

/-- The failure of the present step to find a name. -/
def unbound {α : Type} (name : String) : StepAct α := do
  throw (.script (.unbound (← get).own.executed name))

/-- The handle under a name. -/
def lookup (name : String) : StepAct Handle := do
  match (← get).own.names.get? name with
  | some v => return v
  | none => unbound name

/-- Removes a name and returns the handle it had. -/
def take (name : String) : StepAct Handle := do
  let v ← lookup name
  modify fun h => { h with own.names := h.own.names.erase name }
  return v

/-- Keeps a handle under a name, and gives up the one that was there. -/
def bind (name : String) (v : Handle) : StepAct Unit := do
  let old := (← get).own.names.get? name
  modify fun h => { h with own.names := h.own.names.put name v }
  match old with
  | some old => on (Machine.drop old)
  | none => pure ()

/-- The handle that an operand stands for. -/
def handleOf : Operand → StepAct Handle
  | .int n => on (Machine.boxInt n)
  | .text s => on (Machine.boxString s)
  | .var name => do
    let v ← lookup name
    on (Machine.retain v)
    return v

/-- Works with a handle, and gives it up afterwards. -/
def consuming {α : Type} (v : Handle) (work : StepAct α) : StepAct α := do
  try work finally on (Machine.drop v)

/-- Works with the handle that an operand stands for, and gives it up afterwards. -/
def holding {α : Type} (operand : Operand) (work : Handle → StepAct α) : StepAct α := do
  let v ← handleOf operand
  consuming v (work v)

/-- Writes one piece of output. -/
def write (s : String) : StepAct Unit := do
  let (refused, out) := (← get).own.out.write s
  modify fun h => { h with own.out := out }
  match refused with
  | some reason => throw (.script (.unwritable reason))
  | none => pure ()

/-- Prints a box on a line of its own. -/
def printBox (v : Handle) : StepAct Unit := do
  write v.text
  write "\n"

/-- Keeps a result under a name, or prints it and gives it up. -/
def bindOrPrint (name : Option String) (v : Handle) : StepAct Unit :=
  match name with
  | some name => bind name v
  | none => consuming v (printBox v)

/-- Carries out one step. -/
def step : Step → StepAct Unit
  | .setNew name tag => do bind name (← on (Machine.newSet (tag.getD .none)))
  | .mapNew name tag => do bind name (← on (Machine.newMap (tag.getD .none)))
  | .listNew name hint => do
    bind name (← on (Machine.newList (hint.getD (← get).own.defaultSizeHint)))
  | .box name value => do bind name (← handleOf value)
  | .setAdd name value =>
    holding value fun v => do on (Machine.setAdd (← lookup name) v)
  | .mapAdd name key value =>
    holding key fun k => holding value fun v => do on (Machine.mapAdd (← lookup name) k v)
  | .listAppend name value =>
    holding value fun v => do on (Machine.listAppend (← lookup name) v)
  | .listGet target name index => do
    match target, ← on (Machine.listGet (← lookup name) index) with
    | target, some v => bindOrPrint target v
    -- The name keeps what it denoted before, if anything.
    | some target, none => remark .debug s!"list_get past the end, '{target}' left unbound"
    | none, none => write "None\n"
  | .indexOf target name key =>
    holding key fun k => do
      bindOrPrint target (← on (Machine.indexOf (← lookup name) k))
  | .lengthOf target name => do
    bindOrPrint target (← on (Machine.lengthOf (← lookup name)))
  | .print value => holding value printBox
  | .release name deep => do
    let remaining ← on (Machine.release (← take name) deep)
    remark .debug s!"released '{name}', {remaining} references left"

/-- Carries out one step, unless the script has failed; a failure of the script is noted. -/
def runStep (s : Step) : Callback Interpreter Unit := fun h =>
  if h.own.failure.isSome then .ok () h
  else
    match step s { h with own.executed := h.own.executed + 1 } with
    | .ok () h => .ok () h
    | .error (.fault f) h => .error f h
    | .error (.script e) h => .ok () { h with own.failure := some e }

/-- Carries out steps one after another. -/
def runSteps : List Step → Callback Interpreter Unit
  | [] => pure ()
  | s :: rest => do
    runStep s
    runSteps rest

end Interpreter

namespace Script

/-- The blocks of a script as initializers of a program. -/
def chain (s : Script) : InitChain Interpreter :=
  { initializers := s.init.map fun b => { name := b.name, action := Interpreter.runSteps b.steps } }

/-- The steps of a script as the main part of a program, which returns what the system object
looks like. -/
def main (s : Script) (system : Handle) : Callback Interpreter String := do
  Interpreter.remark .debug s!"system object {system.debugText}"
  try Interpreter.runSteps s.steps finally Host.on id (Machine.drop system)
  return system.debugText

/-- Runs a script as a program. -/
def run (s : Script) : EStateM ProgramFailure (Host Interpreter) String :=
  runProgram s.chain s.main

end Script

end BoxRuntime
