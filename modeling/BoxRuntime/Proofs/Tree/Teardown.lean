/-
  Taking a chunk tree apart.

  A tree that is freed is taken apart by a loop with a stack of its own, because it can be as deep
  as it has chunks.  The loop cuts off the children of a chunk before it lets the chunk go, so no
  chunk is ever freed together with chunks below it.  What comes out in between are the entries, in
  an order that is neither that of the keys nor that of the levels.

  The crux is `drain_perm`: what has come out and what the chunks on the stack and below them still
  hold are the entries of the tree, at every turn.  The stack is empty in the end, so every entry of
  every chunk comes out, and no entry twice (`teardown_perm`).
-/
import BoxRuntime.Proofs.Tree.Walk

namespace BoxRuntime

namespace Chunk

variable {β : Type}

/-- The first child comes first. -/
theorem children_link (child : Chunk β) (entry : Entry β) (rest : Chunk β) :
    (link child entry rest).children = child :: rest.children :=
  rfl

/-- A chunk holds the entries between its children and its leaves; its children hold the others. -/
theorem toList_perm_parts (c : Chunk β) :
    c.toList.Perm (c.branches.map Prod.snd ++ c.leaves ++ c.children.flatMap toList) := by
  induction c with
  | tail leaves =>
    show leaves.Perm ([] ++ leaves ++ [])
    rw [List.nil_append, List.append_nil]
  | link child entry rest _ ih =>
    rw [toList, children_link, List.flatMap_cons]
    show List.Perm _ (entry :: (rest.branches.map Prod.snd ++ rest.leaves ++
      (child.toList ++ rest.children.flatMap toList)))
    -- the entry comes first on both sides, and then the child moves behind the own entries
    refine List.perm_middle.trans (List.Perm.cons entry ?_)
    refine (ih.append_left child.toList).trans ?_
    rw [← List.append_assoc, ← List.append_assoc (rest.branches.map Prod.snd ++ rest.leaves)]
    exact List.perm_append_comm.append_right _

/-- One turn of the loop: the chunk gives up what it holds itself, and its children go on the stack.
-/
theorem drain_turn_perm (c : Chunk β) (loose : List (Chunk β)) (gone : Array (Entry β)) :
    ((gone ++ c.branches.map Prod.snd ++ c.leaves).toList ++
        (c.children.reverse ++ loose).flatMap toList).Perm
      (gone.toList ++ (c :: loose).flatMap toList) := by
  have hchildren : (c.children.reverse.flatMap toList).Perm (c.children.flatMap toList) :=
    (List.reverse_perm _).flatMap_right _
  rw [Array.toList_appendList, Array.toList_appendList, List.flatMap_append, List.flatMap_cons,
    List.append_assoc, List.append_assoc]
  refine List.Perm.append_left _ ?_
  rw [← List.append_assoc, ← List.append_assoc]
  refine List.Perm.append_right _ ?_
  exact (hchildren.append_left _).trans c.toList_perm_parts.symm

/-- The loop adds to what has come out what the chunks on its stack and below them hold. -/
theorem drain_perm (loose : List (Chunk β)) (gone : Array (Entry β)) :
    (drain loose gone).toList.Perm (gone.toList ++ loose.flatMap toList) := by
  fun_induction drain loose gone with
  | case1 gone =>
    rw [List.flatMap_nil, List.append_nil]
  | case2 gone c loose ih => exact ih.trans (drain_turn_perm c loose gone)

/-- **Taking a tree apart reaches every entry of every chunk once.** -/
theorem teardown_perm (c : Chunk β) : c.teardown.toList.Perm c.toList := by
  have hbelow := drain_perm c.children.reverse (c.branches.map Prod.snd).toArray
  have hchildren : (c.children.reverse.flatMap toList).Perm (c.children.flatMap toList) :=
    (List.reverse_perm _).flatMap_right _
  rw [teardown, Array.toList_appendList]
  refine (hbelow.append_right c.leaves).trans (List.Perm.trans ?_ c.toList_perm_parts.symm)
  -- the leaves of the root come last and not in the middle
  rw [List.append_assoc, List.append_assoc]
  refine List.Perm.append_left _ ?_
  exact List.perm_append_comm.trans (hchildren.append_left _)

end Chunk

end BoxRuntime
