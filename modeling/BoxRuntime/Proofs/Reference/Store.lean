/-
  Objects without a machine.

  What a program can do with boxes, said with mathematical data: a list is a list of references, a
  set is a finite set of keys, a map is a finite map from keys to references.  There are no chunks,
  no reservations and no counts, and an object is there for ever once it was made.

  A reference is a `Handle`: the number of the object, and what never changes about it.  A key is an
  int, a text, or the number of an object of another type (`Key`).

  The operations refuse what the machine refuses, with the same faults.
-/
import BoxRuntime.Proofs.KeyOrder
import Mathlib.Data.Finmap

namespace BoxRuntime

namespace Reference

/-- What may change about an object.  The type of a set's elements or of a map's keys is open until
the first one is taken. -/
inductive Object where
  | fixed
  | list (elements : List Handle)
  | set (elementType : Option Tag) (keys : Finset Key)
  | map (keyType : Option Tag) (values : Finmap fun _ : Key => Handle)

/-- All objects that were ever made.  Object `n + 1` has position `n`. -/
structure Store where
  objects : Array Object := #[]

namespace Store

def object? (w : Store) (id : Nat) : Option Object :=
  if id = 0 then none else w.objects[id - 1]?

/-- Makes an object. -/
def make (w : Store) (datum : Datum) (object : Object) : Handle × Store :=
  ({ id := w.objects.size + 1, datum }, { objects := w.objects.push object })

/-- Changes an object. -/
def put (w : Store) (v : Handle) (object : Object) : Store :=
  { objects := w.objects.setIfInBounds (v.id - 1) object }

/-! ## Reading

  As the machine reads, with the same faults. -/

def listOf (w : Store) (operation : String) (v : Handle) : Except Fault (List Handle) :=
  match w.object? v.id with
  | some (.list elements) => .ok elements
  | _ => .error (.wrongType operation .list v.tag)

def setOf (w : Store) (operation : String) (v : Handle) :
    Except Fault (Option Tag × Finset Key) :=
  match w.object? v.id with
  | some (.set elementType keys) => .ok (elementType, keys)
  | _ => .error (.wrongType operation .set v.tag)

def mapOf (w : Store) (operation : String) (v : Handle) :
    Except Fault (Option Tag × Finmap fun _ : Key => Handle) :=
  match w.object? v.id with
  | some (.map keyType values) => .ok (keyType, values)
  | _ => .error (.wrongType operation .map v.tag)

/-! ## Keys

  An int and a text are keys by what they are, everything else by its number. -/

/-- Ints and texts are keys by what they hold, and these others by which object they are. -/
def isKey : Tag → Bool
  | .int | .string => true
  | .any | .wideInt | .list | .set => true
  | _ => false

/-- The type of the elements once one with the given type is taken. -/
def accept (elementType : Option Tag) (tag : Tag) : Except Fault Tag :=
  match elementType with
  | none => if isKey tag then .ok tag else .error (.unordered tag)
  | some expected =>
    if expected ≠ tag then .error (.elementMismatch expected tag)
    else if isKey tag then .ok tag
    else .error (.unordered tag)

/-! ## Operations

  The objects are mathematical, so each operation is a line or two. -/

def listAppend (w : Store) (list v : Handle) : Except Fault (Unit × Store) := do
  let elements ← w.listOf "list_append" list
  return ((), w.put list (.list (elements ++ [v])))

def listGet (w : Store) (list : Handle) (i : Nat) : Except Fault (Option Handle × Store) := do
  let elements ← w.listOf "list_get" list
  return (elements[i]?, w)

def setAdd (w : Store) (set v : Handle) : Except Fault (Unit × Store) := do
  let (elementType, keys) ← w.setOf "set_add" set
  let tag ← accept elementType v.tag
  return ((), w.put set (.set (some tag) (insert v.toKey keys)))

def mapAdd (w : Store) (map key value : Handle) : Except Fault (Unit × Store) := do
  let (keyType, values) ← w.mapOf "map_add" map
  let tag ← accept keyType key.tag
  return ((), w.put map (.map (some tag) (values.insert key.toKey value)))

/-- The value under a key. -/
def valueOf (keyType : Option Tag) (values : Finmap fun _ : Key => Handle) (key : Handle) :
    Except Fault Handle :=
  match keyType with
  | none => .error .emptyMap
  | some expected =>
    if expected ≠ key.tag then .error (.elementMismatch expected key.tag)
    else if values.keys = ∅ then .error .emptyMap
    else
      match values.lookup key.toKey with
      | some v => .ok v
      | none => .error .keyNotFound

def mapGet (w : Store) (map key : Handle) : Except Fault (Handle × Store) := do
  let (keyType, values) ← w.mapOf "map_get" map
  let v ← valueOf keyType values key
  return (v, w)

/-- The number of elements. -/
def length (w : Store) (v : Handle) : Except Fault Nat :=
  match v.tag with
  | .list => do
    let elements ← w.listOf "length_of" v
    return elements.length
  | .set => do
    let (elementType, keys) ← w.setOf "length_of" v
    match elementType with
    | none => return 0
    | some .any => .error (.unsupported "length_of" .any)
    | some _ => return keys.card
  | .map => do
    let (_, values) ← w.mapOf "length_of" v
    return values.keys.card
  | other => .error (.unsupported "length_of" other)

def listIndex (w : Store) (list index : Handle) : Except Fault (Handle × Store) :=
  match index.int? with
  | none => .error (.indexType index.tag)
  | some n =>
    if n.toInt < 0 then .error (.indexUnderRange n.toInt)
    else do
      let elements ← w.listOf "length_of" list
      match elements[n.toInt.toNat]? with
      | some v => return (v, w)
      | none => .error (.indexOverRange n.toInt elements.length)

def indexOf (w : Store) (collection key : Handle) : Except Fault (Handle × Store) :=
  match collection.tag with
  | .list => w.listIndex collection key
  | .map => w.mapGet collection key
  | other => .error (.notIndexable other)

end Store

end Reference

end BoxRuntime
