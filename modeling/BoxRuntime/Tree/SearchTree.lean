/-
  Search trees.

  A search tree is a root chunk with the element type of its keys.  The type may be left open when
  the tree is made; the first entry then fixes it.  Keys of another type are refused, and so are
  types without an order, before anything is compared.

  Inserting a key that is present replaces the item stored with it and nothing else.  Inserting a
  new key counts it, counts the split it may have caused, and notes where it went as a hint for
  rebalancing; the tree itself is never rebalanced.
-/
import BoxRuntime.Tree.Chunk

namespace BoxRuntime

/-- Where the last new entry went: the depth of its chunk and the position among the leaves. -/
structure RebalanceHint where
  depth : Nat
  index : Nat
deriving DecidableEq

/-- What an insertion did. -/
inductive InsertOutcome (β : Type) where
  /-- The entry is new; it went to the given depth and position and may have split that chunk. -/
  | added (depth index : Nat) (split : Option SplitKind)
  /-- An equal key was there; `displaced` is the item that was stored with it. -/
  | merged (displaced : β)
deriving DecidableEq

/-- A sorted collection with chunks of a given shape. -/
structure SearchTree (shape : Shape) (β : Type) where
  elementType : Option Tag
  size : Nat
  root : Chunk β
  splits : Nat
  lastHint : Option RebalanceHint

namespace SearchTree

variable {shape : Shape} {β : Type}

/-- An empty tree.  The tag `none` leaves the element type open. -/
def new (tag : Tag) : SearchTree shape β where
  elementType := if tag = .none then none else some tag
  size := 0
  root := .tail []
  splits := 0
  lastHint := none

def isEmpty (t : SearchTree shape β) : Bool :=
  t.size == 0

/-- The order for keys of a given type, if the tree takes them. -/
def resolve (t : SearchTree shape β) (tag : Tag) : Except Fault Comparator :=
  match t.elementType with
  | some expected =>
    if expected = tag then comparator expected else .error (.elementMismatch expected tag)
  | none => comparator tag

/-- The tree after a new entry of type `tag` went somewhere into its chunks. -/
def added (t : SearchTree shape β) (tag : Tag) (root : Chunk β) (depth index : Nat)
    (split : Option SplitKind) : SearchTree shape β where
  elementType := some (t.elementType.getD tag)
  size := t.size + 1
  root
  splits := t.splits + (if split.isSome then 1 else 0)
  lastHint := some { depth, index }

/-- Inserts an entry, or replaces the item of the entry with an equal key.  The tree that is left
comes with the outcome, and with a fault as well. -/
def insert (t : SearchTree shape β) (e : Entry β) :
    EStateM.Result Fault (SearchTree shape β) (InsertOutcome β) :=
  match t.resolve e.key.tag with
  | .error f => .error f t
  | .ok compare =>
    if t.isEmpty then .ok (.added 0 0 none) (t.added e.key.tag (.tail [e]) 0 0 none)
    else
      match t.root.attempt shape (compare e.key) e 0 with
      | .error f root => .error f { t with root }
      | .ok (.merged displaced) root => .ok (.merged displaced) { t with root }
      | .ok (.added depth index kind) root =>
        .ok (.added depth index kind) (t.added e.key.tag root depth index kind)
      | .ok (.full before after) root =>
        -- A root without room makes some as any other chunk does, so all chunks keep their depth or
        -- sink.
        let (root, kind) := root.split shape before e after
        .ok (.added 0 before.length (some kind))
          (t.added e.key.tag root 0 before.length (some kind))

/-- The entry with an equal key.  An empty tree has none, whatever the key's type. -/
def find (t : SearchTree shape β) (key : Handle) : Except Fault (Option (Entry β)) :=
  if t.isEmpty then .ok none
  else
    match t.resolve key.tag with
    | .error f => .error f
    | .ok compare => t.root.find (compare key)

/-- The entries in order. -/
def entries (t : SearchTree shape β) : Array (Entry β) :=
  t.root.entries

def stats (t : SearchTree shape β) : TreeStats :=
  t.root.stats t.splits

end SearchTree

end BoxRuntime
