/-
  Scripts without a machine.

  The rules for the steps of a script, over objects that are mathematical data.  A step makes its
  operands first, from left to right, and then looks up its collection; it keeps its result under a
  name or prints it.  Names refer to objects, and to give up a name is all that a release does.
  Nothing has to be given up, so there is no more to a step than this.

  Faults and failures of scripts are told apart as the machine's interpreter does: the first ends
  the run, the second is noted and the later steps are passed over.
-/
import BoxRuntime.Proofs.Reference.Store
import BoxRuntime.Proofs.Script.Flat

namespace BoxRuntime

namespace Reference

/-- Everything that a script works on. -/
structure World where
  store : Store := {}
  names : Names := {}
  out : Output := {}
  /-- The number of steps begun. -/
  executed : Nat := 0
  failure : Option ScriptFailure := none

/-- A part of a step. -/
abbrev WorldAct (α : Type) := EStateM StepFailure World α

/-- An operation on the objects. -/
def act {α : Type} (op : Store → Except Fault (α × Store)) : WorldAct α := fun w =>
  match op w.store with
  | .ok (a, store) => .ok a { w with store }
  | .error f => .error (.fault f) w

/-- An act that succeeds changes the store alone. -/
theorem run_act {α : Type} {op : Store → Except Fault (α × Store)} {w : World} {a : α}
    {store : Store} (hop : op w.store = .ok (a, store)) : act op w = .ok a { w with store } := by
  unfold act
  rw [hop]

/-- One that fails changes nothing. -/
theorem run_act_error {α : Type} {op : Store → Except Fault (α × Store)} {w : World} {f : Fault}
    (hop : op w.store = .error f) : act op w = .error (.fault f) w := by
  unfold act
  rw [hop]

def make (datum : Datum) (object : Object) : WorldAct Handle :=
  act fun store => .ok (store.make datum object)

def lookup (name : String) : WorldAct Handle := fun w =>
  match w.names.get? name with
  | some v => .ok v w
  | none => .error (.script (.unbound w.executed name)) w

/-- A name that denotes a box is looked up. -/
theorem run_lookup {name : String} {w : World} {v : Handle} (hv : w.names.get? name = some v) :
    lookup name w = .ok v w := by
  unfold lookup
  rw [hv]

/-- One that does not is reported with the number of the step. -/
theorem run_lookup_none {name : String} {w : World} (hn : w.names.get? name = none) :
    lookup name w = .error (.script (.unbound w.executed name)) w := by
  unfold lookup
  rw [hn]

def bind (name : String) (v : Handle) : WorldAct Unit :=
  modify fun w => { w with names := w.names.put name v }

/-- Removes a name and returns the object it referred to. -/
def take (name : String) : WorldAct Handle := do
  let v ← lookup name
  modify fun w => { w with names := w.names.erase name }
  return v

/-- The object that an operand stands for. -/
def objectOf : Operand → WorldAct Handle
  | .int n => make (.int n) .fixed
  | .text s => make (.string s) .fixed
  | .var name => lookup name

def write (s : String) : WorldAct Unit := fun w =>
  match w.out.write s with
  | (none, out) => .ok () { w with out }
  | (some reason, out) => .error (.script (.unwritable reason)) { w with out }

def print (v : Handle) : WorldAct Unit := do
  write v.text
  write "\n"

/-- The number of elements, as an object. -/
def lengthOf (v : Handle) : WorldAct Handle := do
  let size ← act fun store => (store.length v).map fun size => (size, store)
  make (.int (Int64.ofNat size)) .fixed

/-- Keeps a result under a name, or prints it. -/
def bindOrPrint (name : Option String) (v : Handle) : WorldAct Unit :=
  match name with
  | some name => bind name v
  | none => print v

/-- An open element type is written as `none`. -/
def openType (tag : Option Tag) : Option Tag :=
  tag.filter (· ≠ .none)

/-- Carries out one step. -/
def step : Step → WorldAct Unit
  | .setNew name tag => do bind name (← make .set (.set (openType tag) ∅))
  | .mapNew name tag => do bind name (← make .map (.map (openType tag) ∅))
  | .listNew name _ => do bind name (← make .list (.list []))
  | .box name value => do bind name (← objectOf value)
  | .setAdd name value => do
    let v ← objectOf value
    let set ← lookup name
    act fun store => store.setAdd set v
  | .mapAdd name key value => do
    let k ← objectOf key
    let v ← objectOf value
    let map ← lookup name
    act fun store => store.mapAdd map k v
  | .listAppend name value => do
    let v ← objectOf value
    let list ← lookup name
    act fun store => store.listAppend list v
  | .listGet target name index => do
    let list ← lookup name
    match target, ← act fun store => store.listGet list index with
    | target, some v => bindOrPrint target v
    | some _, none => pure ()
    | none, none => write "None\n"
  | .indexOf target name key => do
    let k ← objectOf key
    let collection ← lookup name
    bindOrPrint target (← act fun store => store.indexOf collection k)
  | .lengthOf target name => do bindOrPrint target (← lengthOf (← lookup name))
  | .print value => do print (← objectOf value)
  | .release name _ => do
    let _ ← take name
    return ()

/-- Carries out one step, unless the script has failed; a failure of the script is noted. -/
def runStep (s : Step) : EStateM Fault World Unit := fun w =>
  if w.failure.isSome then .ok () w
  else
    match step s { w with executed := w.executed + 1 } with
    | .ok () w => .ok () w
    | .error (.fault f) w => .error f w
    | .error (.script e) w => .ok () { w with failure := some e }

/-- Carries out steps one after another. -/
def runSteps : List Step → EStateM Fault World Unit
  | [] => pure ()
  | s :: rest => do
    runStep s
    runSteps rest

/-- Runs a script: all its steps, in order.  The failure of the program names the block of the step
that met the fault. -/
def run (s : Script) : EStateM ProgramFailure World Unit := fun w =>
  match runSteps s.allSteps w with
  | .ok () w => .ok () w
  | .error f w => .error (s.failureAt w.executed f) w

end Reference

end BoxRuntime
