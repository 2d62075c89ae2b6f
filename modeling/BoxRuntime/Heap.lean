/-
  The heap.

  The heap holds the boxes that are still owned.  A cell counts the handles of its box and, for a
  container, holds the handles that the container owns.  Boxes get consecutive numbers, and a
  number is never used again: a freed box leaves an empty cell behind.

  Giving up a handle (`drop`) may free its box, which gives up the handles that the box owned, and
  so on.  A list gives them up from front to back, a set or map in the order in which its chunks
  are taken apart (`Content.released`).  The cascade works off a list of handles to give up and
  ends because every box freed on the way moves its handles from the heap to that list once
  (`kept`).  Boxes that own each other in a circle keep each other alive.
-/
import BoxRuntime.GrowList
import BoxRuntime.Tree.SearchTree

namespace BoxRuntime

/-- A set keeps nothing with its keys. -/
abbrev SetTree := SearchTree Shape.set Unit

/-- A map keeps a value with each key. -/
abbrev MapTree := SearchTree Shape.map Handle

/-- The content of a box that can change. -/
inductive Content where
  | fixed
  | list (slots : GrowList Handle)
  | set (tree : SetTree)
  | map (tree : MapTree)

/-- The handles that a container owns. -/
def Content.handles : Content → List Handle
  | fixed => []
  | list slots => slots.toList
  | set tree => tree.entries.toList.map Entry.key
  | map tree => tree.entries.toList.flatMap fun e => [e.key, e.item]

/-- The handles of a container in the order in which it gives them up when it is freed. -/
def Content.released : Content → List Handle
  | fixed => []
  | list slots => slots.toList
  | set tree => tree.root.teardown.toList.map Entry.key
  | map tree => tree.root.teardown.toList.flatMap fun e => [e.key, e.item]

/-- A live box.  It has a handle at least: one without any is freed. -/
structure Cell where
  /-- The number of handles of the box besides one. -/
  others : Nat
  content : Content

/-- The number of handles of the box. -/
def Cell.count (c : Cell) : Nat :=
  c.others + 1

/-- The live boxes, by number.  Cell `n` is for box `n + 1`. -/
structure Heap where
  cells : Array (Option Cell) := #[]

namespace Heap

/-- The cell of a live box. -/
def cell? (h : Heap) (id : Nat) : Option Cell :=
  if id = 0 then none else (h.cells[id - 1]?).join

/-- Whether the box still has an owner. -/
def isLive (h : Heap) (id : Nat) : Bool :=
  (h.cell? id).isSome

/-- The number of handles of a box; zero once it is freed. -/
def count (h : Heap) (id : Nat) : Nat :=
  match h.cell? id with
  | some cell => cell.count
  | none => 0

/-- The content of a live box. -/
def content? (h : Heap) (id : Nat) : Option Content :=
  (h.cell? id).map Cell.content

/-- The number the next box will get. -/
def nextId (h : Heap) : Nat :=
  h.cells.size + 1

/-- Changes the cell of a live box. -/
def update (h : Heap) (id : Nat) (f : Cell → Cell) : Heap :=
  if id = 0 then h else { h with cells := h.cells.modify (id - 1) (Option.map f) }

/-- Makes a box with one handle. -/
def alloc (h : Heap) (datum : Datum) (content : Content) : Handle × Heap :=
  ({ id := h.nextId, datum }, { h with cells := h.cells.push (some { others := 0, content }) })

/-- Makes another handle of a box. -/
def retain (h : Heap) (id : Nat) : Heap :=
  h.update id fun cell => { cell with others := cell.others + 1 }

/-- Changes the content of a live box. -/
def setContent (h : Heap) (id : Nat) (content : Content) : Heap :=
  h.update id fun cell => { cell with content }

/-- Removes a box.  What it owned is not given up here. -/
def free (h : Heap) (id : Nat) : Heap :=
  if id = 0 then h else { h with cells := h.cells.modify (id - 1) fun _ => none }

/-- Handles that the content of a cell's box has. -/
def gatherFrom (part : Content → List Handle) : Option Cell → List Handle
  | some cell => part cell.content
  | none => []

/-- Handles that the contents of live boxes have. -/
def gather (part : Content → List Handle) (h : Heap) : List Handle :=
  h.cells.toList.flatMap (gatherFrom part)

/-- Emptying a cell takes away the handles that its content has, and no others. -/
theorem length_gather_modify_none (part : Content → List Handle) (cells : List (Option Cell))
    (i : Nat) (cell : Cell) (h : cells[i]?.join = some cell) :
    ((cells.modify i fun _ => none).flatMap (gatherFrom part)).length + (part cell.content).length
      = (cells.flatMap (gatherFrom part)).length := by
  -- On the list of cells, position by position: either the freed cell comes first, and its part
  -- goes, or the first cell stays and the rest loses the part.
  induction cells generalizing i with
  | nil => simp at h
  | cons c cells ih =>
    cases i with
    | zero =>
      obtain rfl : c = some cell := by simpa using h
      simp only [List.modify_zero_cons, List.flatMap_cons, List.length_append, gatherFrom,
        List.length_nil]
      omega
    | succ i =>
      have := ih i (by simpa using h)
      simp only [List.modify_succ_cons, List.flatMap_cons, List.length_append]
      omega

/-- Freeing a box takes away the handles that its content has. -/
theorem length_gather_free (part : Content → List Handle) {h : Heap} {id : Nat} {cell : Cell}
    (hc : h.cell? id = some cell) :
    ((h.free id).gather part).length + (part cell.content).length = (h.gather part).length := by
  unfold cell? at hc
  split at hc
  · simp at hc
  · rename_i hne
    simp only [free, gather, hne, if_false, Array.toList_modify]
    exact length_gather_modify_none part _ _ _ (by simpa using hc)

/-- A change of a cell that keeps the content keeps the handles. -/
theorem flatMap_gather_modify_map (part : Content → List Handle) (cells : List (Option Cell))
    (i : Nat) (f : Cell → Cell) (hf : ∀ c, (f c).content = c.content) :
    (cells.modify i (Option.map f)).flatMap (gatherFrom part) =
      cells.flatMap (gatherFrom part) := by
  induction cells generalizing i with
  | nil => rw [List.modify_nil]
  | cons c cells ih =>
    cases i with
    | zero => cases c <;> simp only [List.modify_zero_cons, List.flatMap_cons, gatherFrom,
        Option.map_some, Option.map_none, hf]
    | succ i => simp only [List.modify_succ_cons, List.flatMap_cons, ih]

/-- What contents have does not depend on how many handles their boxes have. -/
theorem gather_update (part : Content → List Handle) (h : Heap) (id : Nat) (f : Cell → Cell)
    (hf : ∀ c, (f c).content = c.content) : (h.update id f).gather part = h.gather part := by
  unfold update
  split
  · rfl
  · simpa [gather] using flatMap_gather_modify_map part _ _ f hf

/-- The handles that live containers would give up if they were freed. -/
def kept (h : Heap) : List Handle :=
  h.gather Content.released

/-- Counts one handle of a box less, if there are others. -/
def countDown (h : Heap) (id : Nat) : Heap :=
  h.update id fun cell => { cell with others := cell.others - 1 }

/-- Gives up handles, one after another.  The last handle of a box frees it, and then the handles
that the box owned are given up next. -/
def dropAll (h : Heap) : List Handle → Heap
  | [] => h
  | v :: rest =>
    match _hc : h.cell? v.id with
    | none => h.dropAll rest
    | some cell =>
      if cell.others = 0 then (h.free v.id).dropAll (cell.content.released ++ rest)
      else (h.countDown v.id).dropAll rest
termination_by work => h.kept.length + work.length
decreasing_by
  · simp
  · have := length_gather_free Content.released _hc
    simp only [kept, List.length_append, List.length_cons]
    omega
  · rw [countDown, kept, kept,
      gather_update _ h v.id (fun cell => { cell with others := cell.others - 1 }) fun _ => rfl]
    simp

/-- Gives up one handle. -/
def drop (h : Heap) (v : Handle) : Heap :=
  h.dropAll [v]

end Heap

end BoxRuntime
