/-
  Handles.

  A box is a numbered cell of the heap.  What never changes about a box (its number, its type
  and, for strings and ints, its content) travels with every handle of it, so two handles can be
  compared and printed without the heap.  What does change (the number of handles and the content
  of a list, set or map) is in the heap, under the box's number.
-/
import BoxRuntime.Fault
import BoxRuntime.Text.Quoted

namespace BoxRuntime

/-- The fixed part of a box's content. -/
inductive Datum where
  | none
  | any
  | string (text : String)
  | int (n : Int64)
  | wideInt
  | list
  | set
  | map
  | record
  | fields
deriving DecidableEq

namespace Datum

def tag : Datum → Tag
  | none => .none
  | any => .any
  | string _ => .string
  | int _ => .int
  | wideInt => .wideInt
  | list => .list
  | set => .set
  | map => .map
  | record => .record
  | fields => .fields

/-- The datum of a box that has a tag and nothing else.  Strings and ints need their content, and
containers are made empty by operations of their own. -/
def ofTag : Tag → Except Fault Datum
  | .none => .ok none
  | .any => .ok any
  | .wideInt => .ok wideInt
  | .record => .ok record
  | .fields => .ok fields
  | t => .error (.missingPayload t)

/-- The text of a string or int as a program prints it.  Other boxes have no readable form. -/
def text : Datum → String
  | string s => s
  | int n => toString n.toInt
  | _ => "Unknown"

end Datum

/-- A handle of a box.  Boxes are numbered from 1 in the order they are made. -/
structure Handle where
  id : Nat
  datum : Datum
deriving DecidableEq

namespace Handle

def tag (v : Handle) : Tag :=
  v.datum.tag

/-- The text of a string box. -/
def string? (v : Handle) : Option String :=
  match v.datum with
  | .string s => some s
  | _ => none

/-- The number in an int box. -/
def int? (v : Handle) : Option Int64 :=
  match v.datum with
  | .int n => some n
  | _ => none

/-- The box as a program prints it. -/
def text (v : Handle) : String :=
  v.datum.text

/-- The box's number as diagnostics write it. -/
def idText (v : Handle) : String :=
  s!"#{v.id}"

/-- The box as diagnostics write it: number and type, with the content of strings and ints.
Containers may hold themselves, so theirs is left out. -/
def debugText (v : Handle) : String :=
  match v.datum with
  | .string s => s!"{v.idText}:string({Text.quote s})"
  | .int n => s!"{v.idText}:int({n.toInt})"
  | d => s!"{v.idText}:{d.tag.name}"

end Handle

end BoxRuntime
