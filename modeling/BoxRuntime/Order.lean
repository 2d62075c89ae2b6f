/-
  The order of boxes.

  Sets and maps keep their keys sorted by an order that depends on the key type alone: strings by
  their bytes, ints by value, and the types without an order of their own by box number, that is
  by age.  Boxes of the remaining types cannot be keys.
-/
import BoxRuntime.Handle

namespace BoxRuntime

/-- Compares two boxes, or says which operand it is not for. -/
abbrev Comparator := Handle → Handle → Except Fault Ordering

/-- Strings by the bytes of their encoded text. -/
def compareStrings : Comparator := fun a b =>
  match a.string?, b.string? with
  | none, _ => .error (.foreignOperand .string a.tag)
  | some _, none => .error (.foreignOperand .string b.tag)
  | some s, some t => .ok (compare s.toByteArray.data.toList t.toByteArray.data.toList)

/-- Ints by value. -/
def compareInts : Comparator := fun a b =>
  match a.int?, b.int? with
  | none, _ => .error (.foreignOperand .int a.tag)
  | some _, none => .error (.foreignOperand .int b.tag)
  | some m, some n => .ok (compare m.toInt n.toInt)

/-- Boxes of one type by number.  Equal means the same box. -/
def compareIdentity : Comparator := fun a b =>
  if a.tag = b.tag then .ok (compare a.id b.id)
  else .error (.foreignOperand a.tag b.tag)

/-- The order of a key type. -/
def comparator : Tag → Except Fault Comparator
  | .string => .ok compareStrings
  | .int => .ok compareInts
  | .any | .wideInt | .list | .set => .ok compareIdentity
  | t => .error (.unordered t)

end BoxRuntime
