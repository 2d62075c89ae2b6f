/-
  Walking a chunk tree without recursion.

  `Chunk.walk` keeps a stack of frames: the frame `(c, next)` stands for a chunk `c` whose first
  `next` children are done.  What such a frame still has to bring forth is the entry that follows
  the last of those children, if there is one, and then everything to the right of it
  (`Chunk.unvisited`).  The walk ends with what it had, followed by what its frames have left
  (`Chunk.walk_toList`), so started on a whole chunk it lists the entries in order
  (`Chunk.toList_entries`).
-/
import BoxRuntime.Tree.SearchTree

namespace BoxRuntime

namespace Chunk

variable {β : Type}

/-! ## Chunks without their first branches

  Dropping branches one by one goes along the links of the chunk, and what is left is a chunk with
  the same leaves. -/

/-- A chunk from a branch on begins with this branch. -/
theorem dropBranches_eq_link {c child : Chunk β} {e : Entry β} {next : Nat}
    (h : c.branches[next]? = some (child, e)) :
    c.dropBranches next = link child e (c.dropBranches (next + 1)) := by
  -- On the number of branches that are dropped.
  induction next generalizing c with
  | zero =>
    cases c with
    | tail leaves => simp [branches] at h
    | link first entry rest =>
      obtain ⟨rfl, rfl⟩ : first = child ∧ entry = e := by simpa [branches] using h
      rfl
  | succ next ih =>
    cases c with
    | tail leaves => simp [branches] at h
    | link first entry rest => exact ih (by simpa [branches] using h)

/-- Without any of its branches a chunk has its leaves left. -/
theorem dropBranches_eq_tail {c : Chunk β} {next : Nat} (h : c.branches[next]? = none) :
    c.dropBranches next = tail c.leaves := by
  induction next generalizing c with
  | zero =>
    cases c with
    | tail leaves => rfl
    | link first entry rest => simp [branches] at h
  | succ next ih =>
    cases c with
    | tail leaves => rfl
    | link first entry rest => exact ih (by simpa [branches] using h)

/-! ## What a walk still has to visit

  The invariant of the loop: what is out already, followed by what each frame still owes, is the
  list of all entries. -/

/-- The entry after the last of the children that are done. -/
def owed (c : Chunk β) : Nat → List (Entry β)
  | 0 => []
  | done + 1 => (c.branches[done]?.map Prod.snd).toList

/-- What a frame still has to bring forth. -/
def unvisited (frame : Chunk β × Nat) : List (Entry β) :=
  owed frame.1 frame.2 ++ (frame.1.dropBranches frame.2).toList

/-- Coming back to a frame brings forth the entry it owes. -/
theorem toList_emit (c : Chunk β) (next : Nat) (out : Array (Entry β)) :
    (match next with
      | 0 => out
      | done + 1 =>
        match c.branches[done]? with
        | some (_, e) => out.push e
        | none => out).toList = out.toList ++ owed c next := by
  cases next with
  | zero => simp [owed]
  | succ done =>
    cases h : c.branches[done]? with
    | none => simp [owed, h]
    | some b => simp [owed, h]

/-- Before a child, a frame has three things left: what it owes, the child, and what it has left
once the child is done. -/
theorem unvisited_eq_child {c child : Chunk β} {e : Entry β} {next : Nat}
    (h : c.branches[next]? = some (child, e)) :
    unvisited (c, next) = owed c next ++ (unvisited (child, 0) ++ unvisited (c, next + 1)) := by
  simp [unvisited, owed, h, dropBranches_eq_link h, dropBranches, toList]

/-- When no branch is left the leaves are. -/
theorem unvisited_eq_leaves {c : Chunk β} {next : Nat} (h : c.branches[next]? = none) :
    unvisited (c, next) = owed c next ++ c.leaves := by
  simp [unvisited, dropBranches_eq_tail h, toList]

/-- A walk adds to what it has what its frames have left, the topmost frame first. -/
theorem walk_toList (frames : List (Chunk β × Nat)) (out : Array (Entry β)) :
    (walk frames out).toList = out.toList ++ frames.flatMap unvisited := by
  -- along the walk: a turn pays what the topmost frame owes and then goes down, or comes back
  induction frames, out using walk.induct with
  | case1 out => simp [walk]
  | case2 out c next frames out' child e h ih =>
    have hout : out'.toList = out.toList ++ owed c next := toList_emit c next out
    rw [walk.eq_def]
    dsimp only
    split
    -- down into the next child
    · rename_i child' e' h'
      obtain ⟨rfl, rfl⟩ : child' = child ∧ e' = e := by simpa [h] using h'.symm
      rw [ih, hout, List.flatMap_cons, List.flatMap_cons, List.flatMap_cons,
        unvisited_eq_child h]
      simp only [List.append_assoc]
    · rename_i h'
      simp [h] at h'
  | case3 out c next frames out' h ih =>
    have hout : out'.toList = out.toList ++ owed c next := toList_emit c next out
    rw [walk.eq_def]
    dsimp only
    split
    · rename_i child' e' h'
      simp [h] at h'
    -- no child is left: the leaves, and back
    · rw [ih, Array.toList_appendList, hout, List.flatMap_cons, unvisited_eq_leaves h]
      simp only [List.append_assoc]

/-- The walk of a whole chunk lists its entries in order. -/
@[simp] theorem toList_entries (c : Chunk β) : c.entries.toList = c.toList := by
  rw [entries, walk_toList]
  simp [unvisited, owed, dropBranches]

end Chunk

end BoxRuntime
