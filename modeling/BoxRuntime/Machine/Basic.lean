/-
  The machine.

  A machine is a heap with a configuration and a logger.  Programs work on it through operations
  (`Op`): an operation changes the machine and gives a result, or fails with a fault.  The machine
  lives on after a fault, so an operation is a function from a machine to a machine in both cases,
  and what a fault leaves behind can be stated.

  This module has the machine itself, the making of boxes and the counting of handles.
-/
import BoxRuntime.Config
import BoxRuntime.Heap
import BoxRuntime.Log.Logger

namespace BoxRuntime

/-- A runtime with all that its programs can change. -/
structure Machine where
  config : RuntimeConfig := {}
  logger : Logger := .silent
  heap : Heap := {}
  /-- The allocator grants requests for fewer slots than this. -/
  slotLimit : Nat := 1 <<< 50

/-- An operation of the machine. -/
abbrev Op (α : Type) := EStateM Fault Machine α

namespace Machine

/-- A computed result, or the fault that came out instead. -/
def require {α : Type} : Except Fault α → Op α
  | .ok a => pure a
  | .error f => throw f

/-- Logs a message of a component. -/
def log (level : Level) (component : Component) (message : String) : Op Unit :=
  modify fun m => { m with logger := m.logger.log level component.target message }

/-! ## Making boxes -/

/-- Makes a box with one handle. -/
def newBox (datum : Datum) (content : Content) : Op Handle :=
  modifyGet fun m =>
    let (v, heap) := m.heap.alloc datum content
    (v, { m with heap })

def boxString (text : String) : Op Handle :=
  newBox (.string text) .fixed

def boxInt (n : Int64) : Op Handle :=
  newBox (.int n) .fixed

/-- Makes a box that has a type and no content. -/
def emptyBox (tag : Tag) : Op Handle := do
  newBox (← require (Datum.ofTag tag)) .fixed

/-- Makes an empty list with room for the hinted number of elements. -/
def newList (hint : Nat) : Op Handle := do
  newBox .list (.list (← require (GrowList.ofHint (← get).slotLimit hint)))

/-- Makes an empty set.  The tag `none` leaves the element type open. -/
def newSet (elementType : Tag) : Op Handle :=
  newBox .set (.set (.new elementType))

/-- Makes an empty map.  The tag `none` leaves the key type open. -/
def newMap (keyType : Tag) : Op Handle :=
  newBox .map (.map (.new keyType))

/-! ## Handles -/

/-- Makes another handle of a box. -/
def retain (v : Handle) : Op Unit :=
  modify fun m => { m with heap := m.heap.retain v.id }

/-- Gives up a handle in silence. -/
def drop (v : Handle) : Op Unit :=
  modify fun m => { m with heap := m.heap.drop v }

/-- The number of handles of a box. -/
def count (v : Handle) : Op Nat :=
  return (← get).heap.count v.id

/-- Gives up a handle and returns how many are left.  A deep release asks for the content to be
given back as well; for containers that is not supported, so the last handle of a container cannot
be released deeply.  Such a handle is lost: it still counts. -/
def release (v : Handle) (deep : Bool) : Op Nat := do
  let remaining := (← count v) - 1
  if remaining = 0 ∧ deep ∧ v.tag.isContainer then
    throw (.unsupported "release" v.tag)
  if remaining = 0 ∧ (← get).config.debug.traceBoxes then
    log .trace .box s!"deallocating box {v.idText} ({v.tag.name}, deep = {deep})"
  drop v
  return remaining

/-- Observes a box through a handle that does not count: a new handle, if the box is live. -/
def upgrade (v : Handle) : Op (Option Handle) := do
  if (← get).heap.isLive v.id then
    retain v
    return some v
  else
    return none

/-! ## Contents -/

/-- The content of a box. -/
def content? (v : Handle) : Op (Option Content) :=
  return (← get).heap.content? v.id

/-- Changes the content of a box. -/
def setContent (v : Handle) (content : Content) : Op Unit :=
  modify fun m => { m with heap := m.heap.setContent v.id content }

/-- The elements of a list, for an operation that wants one. -/
def listOf (operation : String) (v : Handle) : Op (GrowList Handle) := do
  match ← content? v with
  | some (.list slots) => return slots
  | _ => throw (.wrongType operation .list v.tag)

/-- The tree of a set, for an operation that wants one. -/
def setOf (operation : String) (v : Handle) : Op SetTree := do
  match ← content? v with
  | some (.set tree) => return tree
  | _ => throw (.wrongType operation .set v.tag)

/-- The tree of a map, for an operation that wants one. -/
def mapOf (operation : String) (v : Handle) : Op MapTree := do
  match ← content? v with
  | some (.map tree) => return tree
  | _ => throw (.wrongType operation .map v.tag)

end Machine

end BoxRuntime
