/-
  Faults of the runtime.

  A fault is the cause of a failed operation; its wording is in one place, `Fault.message`.
  Faults fall into three kinds, and the kind alone decides the exit code of a program that
  stops at the fault.
-/
import BoxRuntime.Tag

namespace BoxRuntime

/-- The kind of a fault, which decides the exit code. -/
inductive FaultKind where
  | usage
  | resourceExhausted
  | unsupported
deriving DecidableEq

namespace FaultKind

/-- The exit code of a program that stops at a fault of this kind. -/
def exitCode : FaultKind → Int
  | usage => -3
  | resourceExhausted => -4
  | unsupported => -3

/-- The kind's name in reports. -/
def name : FaultKind → String
  | usage => "usage"
  | resourceExhausted => "resource_exhausted"
  | unsupported => "unsupported"

end FaultKind

/-- Why an operation of the runtime failed. -/
inductive Fault where
  /-- An operation for one type was called on a box of another. -/
  | wrongType (operation : String) (expected found : Tag)
  /-- The collection's element type is fixed, and the key is of another type. -/
  | elementMismatch (expected found : Tag)
  /-- Boxes of this type have no order. -/
  | unordered (tag : Tag)
  /-- A comparison met an operand of a type it is not for. -/
  | foreignOperand (comparator found : Tag)
  /-- No tag has this code. -/
  | invalidTag (code : Int)
  /-- A box of this type cannot be made without its content. -/
  | missingPayload (tag : Tag)
  /-- Boxes of this type have no elements to pick by a key or an index. -/
  | notIndexable (tag : Tag)
  /-- A list was indexed by something other than an int. -/
  | indexType (found : Tag)
  | emptyMap
  | keyNotFound
  | indexUnderRange (index : Int)
  | indexOverRange (index : Int) (length : Nat)
  /-- The allocator refused that many slots. -/
  | allocationFailed (requested : Nat)
  | unsupported (operation : String) (tag : Tag)
deriving DecidableEq

namespace Fault

/-- The fault in words. -/
def message : Fault → String
  | wrongType operation expected found =>
    s!"{operation} expects a {expected.name} box, found {found.name}"
  | elementMismatch expected found =>
    s!"collection holds {expected.name} elements, cannot accept {found.name}"
  | unordered tag => s!"no comparator registered for {tag.name}"
  | foreignOperand comparator found =>
    s!"{comparator.name} comparator called on a {found.name} operand"
  | invalidTag code => s!"invalid type tag {code}"
  | missingPayload tag => s!"a {tag.name} box cannot be created without a payload"
  | notIndexable tag => s!"index_of is not defined for {tag.name}"
  | indexType found => s!"list index must be an int, found {found.name}"
  | emptyMap => "index_of on an empty map"
  | keyNotFound => "key not found in map"
  | indexUnderRange index => s!"index {index} under range for list"
  | indexOverRange index length => s!"index {index} over range for list of length {length}"
  | allocationFailed requested => s!"failed to allocate {requested} slots"
  | unsupported operation tag => s!"{operation} is not supported for {tag.name}"

/-- Indices out of a list and refused allocations exhaust a resource; of the others, only the
missing operations are not the caller's misuse. -/
def kind : Fault → FaultKind
  | indexUnderRange _ | indexOverRange .. | allocationFailed _ => .resourceExhausted
  | unsupported .. => .unsupported
  | _ => .usage

/-- The exit code of a program that stops at the fault. -/
def exitCode (f : Fault) : Int :=
  f.kind.exitCode

end Fault

end BoxRuntime
