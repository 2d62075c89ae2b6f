/-
  Decoding JSON values.

  A record is written as an object of its fields, or as an array of them in order.  In an object
  every field may occur once, and members of other names are passed over; in an array the fields at
  the end may be left out.  A choice among names is written as the name, or as an object whose only
  member has that name.
-/
import BoxRuntime.Json.Basic
import BoxRuntime.Json.Range

namespace BoxRuntime.Json

/-! ## Plain values -/

def bool? : Json → Option Bool
  | .bool b => some b
  | _ => none

/-- The text of a string. -/
def text? : Json → Option String
  | .string t => t
  | _ => none

/-- An unsigned 64-bit integer. -/
def nat? : Json → Option Nat
  | .int n => if 0 ≤ n then some n.toNat else none
  | _ => none

/-- A signed 64-bit integer. -/
def int64? : Json → Option Int64
  | .int n => if n < intBound then some (Int64.ofInt n) else none
  | _ => none

/-- The elements of an array, each decoded. -/
def list? {α : Type} (decode : Json → Option α) : Json → Option (List α)
  | .array elements => elements.mapM decode
  | _ => none

/-! ## Fields -/

/-- A field that must be there. -/
def required {α : Type} (decode : Json → Option α) : Option Json → Option α
  | some v => decode v
  | none => none

/-- A field that may be left out, with the value it then has. -/
def defaulted {α : Type} (default : α) (decode : Json → Option α) : Option Json → Option α
  | some v => decode v
  | none => some default

/-- A field that may be left out or null. -/
def optional {α : Type} (decode : Json → Option α) : Option Json → Option (Option α)
  | some .null => some none
  | some v => (decode v).map some
  | none => some none

/-- The values of the members with a given name. -/
def valuesOf (name : String) (members : List (Option String × Json)) : List Json :=
  members.filterMap fun (k, v) => if k = some name then some v else none

/-- The value of a field among members, if it occurs at most once. -/
def field? (members : List (Option String × Json)) (name : String) : Option (Option Json) :=
  match valuesOf name members with
  | [] => some none
  | [v] => some (some v)
  | _ => none

/-- The fields of an object.  All its members must have a name. -/
def objectFields? (names : List String) (members : List (Option String × Json)) :
    Option (List (Option Json)) :=
  if members.all fun m => m.1.isSome then names.mapM (field? members) else none

/-- The fields of a record that is written as an array. -/
def arrayFields? (names : List String) (elements : List Json) : Option (List (Option Json)) :=
  if elements.length ≤ names.length then
    some (elements.map some ++ List.replicate (names.length - elements.length) none)
  else none

/-- The fields of a record, in the order of their names. -/
def fields? (names : List String) : Json → Option (List (Option Json))
  | .object members => objectFields? names members
  | .array elements => arrayFields? names elements
  | _ => none

/-! ## Choices -/

/-- A choice among names.  Written as an object, the name has a value that says nothing: null, or,
where `braces` allows it, an empty object. -/
def choice? {α : Type} (braces : Bool) (ofName? : String → Option α) : Json → Option α
  | .string (some s) => ofName? s
  | .object [(some s, .null)] => ofName? s
  | .object [(some s, .object [])] => if braces then ofName? s else none
  | _ => none

/-! ## Values that are read whole -/

mutual

/-- Every string in the value has a text, and every number is in range. -/
def isSound : Json → Bool
  | .real _ significand exponent => inRange significand exponent
  | .string t => t.isSome
  | .array elements => elementsSound elements
  | .object members => membersSound members
  | _ => true

def elementsSound : List Json → Bool
  | [] => true
  | v :: vs => v.isSound && elementsSound vs

def membersSound : List (Option String × Json) → Bool
  | [] => true
  | (k, v) :: ms => k.isSome && v.isSound && membersSound ms

end

/-- How deep a text may be nested where its values are read whole. -/
def depthLimit : Nat := 127

/-- A value inside `level` arrays and objects that can be read whole, whatever it holds. -/
def isReadable (level : Nat) (v : Json) : Bool :=
  v.isSound && level + v.depth ≤ depthLimit

end BoxRuntime.Json
