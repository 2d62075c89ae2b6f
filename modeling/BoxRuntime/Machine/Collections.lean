/-
  Lists, sets and maps on the machine.

  Adding to a container gives the container handles of its own; reading from one gives the reader
  handles of his own.  The handles for a container are made first, and then it is asked to take
  them.  If it refuses, they are given back, and what the refusal leaves of the content is what
  the container has from then on.

  The log tells when a list grew, when an open element type was settled and, if wanted, when a
  chunk of a set or map was split.
-/
import BoxRuntime.Machine.Basic

namespace BoxRuntime.Machine

/-! ## Lists -/

/-- Appends an element to a list. -/
def listAppend (list v : Handle) : Op Unit := do
  let slots ← listOf "list_append" list
  retain v
  match slots.push (← get).slotLimit v with
  | .ok grew grown =>
    setContent list (.list grown)
    if grew then
      log .trace .list s!"list {list.idText} grew to {grown.capacity} slots"
  | .error f left =>
    setContent list (.list left)
    drop v
    throw f

/-- The element at a position, if the list is that long. -/
def listGet (list : Handle) (i : Nat) : Op (Option Handle) := do
  match (← listOf "list_get" list).get? i with
  | some v =>
    retain v
    return some v
  | none => return none

/-! ## Sets and maps -/

/-- How a split is described. -/
def splitText : SplitKind → String
  | .branches => "Branches"
  | .leaves => "Leaves"

/-- Logs that an insertion settled the element type, and that it split a chunk. -/
def noteInsert {β : Type} (collection : Handle) (before after : Option Tag)
    (outcome : InsertOutcome β) : Op Unit := do
  let name := s!"{collection.tag.name} {collection.idText}"
  match before, after with
  | none, some tag => log .debug .tree s!"{name} element type fixed to {tag.name}"
  | _, _ => pure ()
  match outcome with
  | .added depth index (some kind) =>
    if (← get).config.debug.traceSplits then
      log .debug .tree
        s!"{name} split a chunk at depth {depth} (index {index}, {splitText kind} moved down)"
  | _ => pure ()

/-- Adds a value to a set.  A set that has an equal value stays as it is, and the handle that was
made for it is given back. -/
def setAdd (set v : Handle) : Op Unit := do
  let tree ← setOf "set_add" set
  -- The handle is made before the tree is asked, since the tree may keep it.
  retain v
  match tree.insert { key := v, item := () } with
  | .ok outcome grown =>
    setContent set (.set grown)
    match outcome with
    | .added .. => pure ()
    -- The tree kept the key that it had.
    | .merged _ => drop v
    noteInsert set tree.elementType grown.elementType outcome
  -- A refusal leaves a tree, and that is what is stored, as it was grown in place.
  | .error f left =>
    setContent set (.set left)
    drop v
    throw f

/-- Whether a set has a value equal to this one. -/
def setContains (set v : Handle) : Op Bool := do
  return (← require ((← setOf "set_contains" set).find v)).isSome

/-- The values of a set in order. -/
def setElements (set : Handle) : Op (List Handle) := do
  let values := (← setOf "set_elements" set).entries.toList.map Entry.key
  values.forM retain
  return values

/-- Stores a value under a key.  A map that has an equal key keeps the key it has: it gives up the
value it had, and the handle that was made of the new key is given back. -/
def mapAdd (map key value : Handle) : Op Unit := do
  let tree ← mapOf "map_add" map
  retain key
  retain value
  match tree.insert { key, item := value } with
  | .ok outcome grown =>
    setContent map (.map grown)
    match outcome with
    | .added .. => pure ()
    | .merged displaced =>
      drop displaced
      drop key
    noteInsert map tree.elementType grown.elementType outcome
  | .error f left =>
    setContent map (.map left)
    drop key
    drop value
    throw f

/-- The value stored under a key.  A map without a key type is empty; one with a key type takes
keys of that type only, even if it is empty. -/
def mapGet (map key : Handle) : Op Handle := do
  let tree ← mapOf "map_get" map
  match tree.elementType with
  | none => throw .emptyMap
  | some expected =>
    if expected ≠ key.tag then throw (.elementMismatch expected key.tag)
    if tree.isEmpty then throw .emptyMap
    match ← require (tree.find key) with
    | some e =>
      retain e.item
      return e.item
    | none => throw .keyNotFound

/-- The keys and values of a map, in the order of the keys. -/
def mapEntries (map : Handle) : Op (List (Handle × Handle)) := do
  let pairs := (← mapOf "map_entries" map).entries.toList.map fun e => (e.key, e.item)
  pairs.forM fun (key, value) => do
    retain key
    retain value
  return pairs

/-! ## Access whatever the container -/

/-- The number of elements of a container. -/
def length (v : Handle) : Op Nat := do
  match v.tag with
  | .list => return (← listOf "length_of" v).size
  | .set =>
    let tree ← setOf "length_of" v
    match tree.elementType with
    | none => return 0
    | some .any => throw (.unsupported "length_of" .any)
    | some _ => return tree.size
  | .map => return (← mapOf "length_of" v).size
  | other => throw (.unsupported "length_of" other)

/-- The number of elements of a container, as a box.  Sets of values of any type have none. -/
def lengthOf (v : Handle) : Op Handle := do
  boxInt (Int64.ofNat (← length v))

/-- The element of a list at the position that an int box gives. -/
def listIndex (list index : Handle) : Op Handle := do
  match index.int? with
  | none => throw (.indexType index.tag)
  | some n =>
    if n.toInt < 0 then throw (.indexUnderRange n.toInt)
    let size := (← listOf "length_of" list).size
    match ← listGet list n.toInt.toNat with
    | some v => return v
    | none => throw (.indexOverRange n.toInt size)

/-- The element of a list at a position, or the value of a map under a key. -/
def indexOf (collection key : Handle) : Op Handle :=
  match collection.tag with
  | .list => listIndex collection key
  | .map => mapGet collection key
  | other => throw (.notIndexable other)

/-- The sizes of the tree of a set or map. -/
def treeStats (v : Handle) : Op TreeStats := do
  match ← content? v with
  | some (.set tree) => return tree.stats
  | some (.map tree) => return tree.stats
  | _ => throw (.unsupported "tree_stats" v.tag)

end BoxRuntime.Machine
