/-
  Scripts as JSON.

  A script is a record of two lists, a block is a record, and so is a step: its first field `op`
  says what to do, and the further fields depend on that.  A step is read whole before its fields
  are looked at, so all it holds must be readable, the members passed over included.
-/
import BoxRuntime.Config.Text
import BoxRuntime.Script.Step

namespace BoxRuntime

/-- A number, a text, or an object that names a box. -/
def Operand.ofJson? : Json → Option Operand
  | .int n => (Json.int64? (.int n)).map .int
  | .string (some s) => some (.text s)
  | .object members => do
    match ← Json.objectFields? ["var"] members with
    | [name] => return .var (← Json.required Json.text? name)
    | _ => none
  | _ => none

namespace Step

/-- The fields of a step after `op`, by what it does. -/
def fieldNames : String → Option (List String)
  | "set_new" => some ["let", "element_type"]
  | "map_new" => some ["let", "key_type"]
  | "list_new" => some ["let", "size_hint"]
  | "box" => some ["let", "value"]
  | "set_add" => some ["set", "value"]
  | "map_add" => some ["map", "key", "value"]
  | "list_append" => some ["list", "value"]
  | "list_get" => some ["let", "list", "index"]
  | "index_of" => some ["let", "collection", "key"]
  | "length_of" => some ["let", "collection"]
  | "print" => some ["value"]
  | "release" => some ["value", "deep"]
  | _ => none

/-- A type tag in a step. -/
def tag? : Json → Option Tag :=
  Json.choice? true Tag.ofName?

/-- The step with given fields. -/
def ofFields? : String → List (Option Json) → Option Step
  | "set_new", [bind, tag] =>
    return .setNew (← Json.required Json.text? bind) (← Json.optional tag? tag)
  | "map_new", [bind, tag] =>
    return .mapNew (← Json.required Json.text? bind) (← Json.optional tag? tag)
  | "list_new", [bind, hint] =>
    return .listNew (← Json.required Json.text? bind) (← Json.optional Json.nat? hint)
  | "box", [bind, value] =>
    return .box (← Json.required Json.text? bind) (← Json.required Operand.ofJson? value)
  | "set_add", [set, value] =>
    return .setAdd (← Json.required Json.text? set) (← Json.required Operand.ofJson? value)
  | "map_add", [map, key, value] =>
    return .mapAdd (← Json.required Json.text? map) (← Json.required Operand.ofJson? key)
      (← Json.required Operand.ofJson? value)
  | "list_append", [list, value] =>
    return .listAppend (← Json.required Json.text? list) (← Json.required Operand.ofJson? value)
  | "list_get", [bind, list, index] =>
    return .listGet (← Json.optional Json.text? bind) (← Json.required Json.text? list)
      (← Json.required Json.nat? index)
  | "index_of", [bind, collection, key] =>
    return .indexOf (← Json.optional Json.text? bind) (← Json.required Json.text? collection)
      (← Json.required Operand.ofJson? key)
  | "length_of", [bind, collection] =>
    return .lengthOf (← Json.optional Json.text? bind) (← Json.required Json.text? collection)
  | "print", [value] =>
    return .print (← Json.required Operand.ofJson? value)
  | "release", [name, deep] =>
    return .release (← Json.required Json.text? name) (← Json.defaulted false Json.bool? deep)
  | _, _ => none

/-- What a step does, and its further fields. -/
def fields? : Json → Option (String × List (Option Json))
  | .object members => do
    match ← Json.objectFields? ["op"] members with
    | [op] =>
      let op ← Json.required Json.text? op
      return (op, ← Json.objectFields? (← fieldNames op) members)
    | _ => none
  | .array (op :: elements) => do
    let op ← op.text?
    return (op, ← Json.arrayFields? (← fieldNames op) elements)
  | _ => none

/-- The step that a value inside `level` arrays and objects describes. -/
def ofJson? (level : Nat) (v : Json) : Option Step := do
  if v.isReadable level then
    let (op, fields) ← fields? v
    ofFields? op fields
  else none

end Step

/-- The block that a value inside two arrays or objects describes. -/
def InitBlock.ofJson? (v : Json) : Option InitBlock := do
  match ← v.fields? ["name", "steps"] with
  | [name, steps] =>
    return { name := ← Json.required Json.text? name
             steps := ← Json.required (Json.list? (Step.ofJson? 4)) steps }
  | _ => none

namespace Script

def ofJson? (v : Json) : Option Script := do
  match ← v.fields? ["init", "steps"] with
  | [init, steps] =>
    return { init := ← Json.defaulted [] (Json.list? InitBlock.ofJson?) init
             steps := ← Json.defaulted [] (Json.list? (Step.ofJson? 2)) steps }
  | _ => none

/-- The script that a text describes. -/
def parse? (s : String) : Option Script := do
  ofJson? (← Json.parse? s)

end Script

end BoxRuntime
