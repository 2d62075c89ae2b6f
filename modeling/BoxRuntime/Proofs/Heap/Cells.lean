/-
  What the operations of the heap do to its cells.

  A heap is known by three views: the cell under each number (`cell?`), the number that comes next
  (`nextId`) and the handles that live containers own (`owned`).  This module says what making,
  changing and freeing a box does to each of them, so that later modules never look at the array.

  The crux is `owned_perm`: taking a box away takes exactly its own handles out of `owned`.  From
  it follows what a change of content does, because a changed box and the box from before leave
  the same heap behind when they are taken away (`free_update`).

  A cascade only frees boxes and counts handles down: a box that outlives it has the content it
  had (`content?_dropAll`).  A box that is freed gives up exactly the handles that it owned, each as
  often as it owned it (`released_perm`); the order is that in which its tree comes apart.

  A handle that is made and given up again leaves no trace, on any heap and whatever happens to
  contents in between (`drop_retain`).
-/
import BoxRuntime.Heap
import BoxRuntime.Proofs.Tree.Teardown

namespace BoxRuntime

/-- A container that is freed gives up what it owned, no handle more or less. -/
theorem Content.released_perm (content : Content) : content.released.Perm content.handles := by
  -- Only trees are taken apart in another order than the one they are listed in.
  cases content with
  | fixed => exact List.Perm.refl _
  | list slots => exact List.Perm.refl _
  | set tree =>
    have hentries : tree.root.teardown.toList.Perm tree.entries.toList := by
      rw [SearchTree.entries, Chunk.toList_entries]
      exact tree.root.teardown_perm
    exact hentries.map Entry.key
  | map tree =>
    have hentries : tree.root.teardown.toList.Perm tree.entries.toList := by
      rw [SearchTree.entries, Chunk.toList_entries]
      exact tree.root.teardown_perm
    exact hentries.flatMap_right _

namespace Heap

/-! ## Cells by number

  Box `n + 1` is in place `n` of the array, and the number 0 is no box. What an operation does to
  the cell of a number is stated as a case distinction on that number. -/

/-- Boxes are numbered from one, cells from zero. -/
theorem cell?_succ (h : Heap) (n : Nat) : h.cell? (n + 1) = (h.cells[n]?).join :=
  rfl

/-- No box has a number that is still to come. -/
theorem cell?_of_nextId_le {h : Heap} {id : Nat} (hid : h.nextId ≤ id) : h.cell? id = none := by
  cases id with
  | zero => rfl
  | succ n =>
    have hn : h.cells.size ≤ n := Nat.le_of_succ_le_succ hid
    rw [cell?_succ, Array.getElem?_eq_none hn]
    rfl

/-- Every live box has a number that was given out. -/
theorem lt_nextId_of_cell? {h : Heap} {id : Nat} {cell : Cell} (hc : h.cell? id = some cell) :
    id < h.nextId := by
  rcases Nat.lt_or_ge id h.nextId with hlt | hge
  · exact hlt
  · rw [cell?_of_nextId_le hge] at hc
    cases hc

/-- A new box has the next number, and the others are as before. -/
theorem cell?_alloc (h : Heap) (datum : Datum) (content : Content) (id : Nat) :
    (h.alloc datum content).2.cell? id =
      if id = h.nextId then some { others := 0, content } else h.cell? id := by
  cases id with
  | zero => rfl
  | succ n =>
    have hpush : (h.alloc datum content).2.cell? (n + 1) =
        ((h.cells.push (some { others := 0, content }))[n]?).join := rfl
    rw [hpush, Array.getElem?_push, cell?_succ]
    -- The new cell is the last; below it nothing has changed.
    by_cases hn : n = h.cells.size
    · have hid : n + 1 = h.nextId := congrArg (· + 1) hn
      rw [if_pos hn, if_pos hid]
      rfl
    · have hid : n + 1 ≠ h.nextId := fun hs => hn (Nat.succ.inj hs)
      rw [if_neg hn, if_neg hid]

/-- A cell changed in place; a place without a cell stays without one. -/
theorem join_modify (cells : Array (Option Cell)) (i n : Nat) {g : Option Cell → Option Cell}
    (hg : g none = none) :
    ((cells.modify i g)[n]?).join =
      if n + 1 = i + 1 then g (cells[n]?).join else (cells[n]?).join := by
  rw [Array.getElem?_modify]
  by_cases hn : n = i
  · rw [if_pos hn.symm, if_pos (congrArg (· + 1) hn)]
    cases cells[n]? with
    | none => exact hg.symm
    | some c => rfl
  · rw [if_neg fun hs => hn hs.symm, if_neg fun hs => hn (Nat.succ.inj hs)]

/-- An update reaches one cell. -/
theorem cell?_update (h : Heap) (i : Nat) (f : Cell → Cell) (id : Nat) :
    (h.update i f).cell? id = if id = i then (h.cell? id).map f else h.cell? id := by
  cases i with
  | zero =>
    -- there is no box `0`, so nothing was changed
    have hzero : id = 0 → (h.cell? id).map f = h.cell? id := by
      rintro rfl
      rfl
    exact (ite_eq_right_iff.mpr hzero).symm
  | succ i =>
    cases id with
    | zero => rfl
    | succ n => exact join_modify h.cells i n rfl

/-- A box that is freed has no cell, and the others keep theirs. -/
theorem cell?_free (h : Heap) (i id : Nat) :
    (h.free i).cell? id = if id = i then none else h.cell? id := by
  -- The number 0 is that of no box, so freeing it does nothing.
  cases i with
  | zero =>
    have hzero : id = 0 → none = h.cell? id := by
      rintro rfl
      rfl
    exact (ite_eq_right_iff.mpr hzero).symm
  | succ i =>
    cases id with
    | zero => rfl
    | succ n =>
      have hg : (fun _ : Option Cell => (none : Option Cell)) none = none := rfl
      exact join_modify h.cells i n hg

/-! ## The next number

  Only making a box changes it. -/

/-- Making a box takes one number; nothing else takes any or gives one back. -/
@[simp] theorem nextId_alloc (h : Heap) (datum : Datum) (content : Content) :
    (h.alloc datum content).2.nextId = h.nextId + 1 := by
  simp only [nextId, alloc, Array.size_push]

@[simp] theorem nextId_update (h : Heap) (i : Nat) (f : Cell → Cell) :
    (h.update i f).nextId = h.nextId := by
  unfold update
  split
  · rfl
  · simp only [nextId, Array.size_modify]

@[simp] theorem nextId_free (h : Heap) (i : Nat) : (h.free i).nextId = h.nextId := by
  unfold free
  split
  · rfl
  · simp only [nextId, Array.size_modify]

/-! ## Counts and contents

  Read off the cells. A box is live if it has a cell, and counts one handle more than the cell
  says. -/

theorem count_of_cell? {h : Heap} {id : Nat} {cell : Cell} (hc : h.cell? id = some cell) :
    h.count id = cell.count := by
  rw [count, hc]

theorem count_of_none {h : Heap} {id : Nat} (hc : h.cell? id = none) : h.count id = 0 := by
  rw [count, hc]

theorem content?_eq_some {h : Heap} {id : Nat} {content : Content} :
    h.content? id = some content ↔ ∃ cell, h.cell? id = some cell ∧ cell.content = content := by
  rw [content?, Option.map_eq_some_iff]

theorem isLive_iff {h : Heap} {id : Nat} : h.isLive id = true ↔ ∃ cell, h.cell? id = some cell := by
  rw [isLive, Option.isSome_iff_exists]

/-- Counting another handle leaves contents alone. -/
theorem content?_update (h : Heap) (i : Nat) (f : Cell → Cell)
    (hf : ∀ c, (f c).content = c.content) (id : Nat) :
    (h.update i f).content? id = h.content? id := by
  rw [content?, content?, cell?_update]
  split
  · cases h.cell? id with
    | none => rfl
    | some cell => exact congrArg some (hf cell)
  · rfl

/-- More handles of a box do not change what it contains. -/
@[simp] theorem content?_retain (h : Heap) (i id : Nat) :
    (h.retain i).content? id = h.content? id := by
  rw [retain, content?_update]
  intro c
  rfl

@[simp] theorem isLive_retain (h : Heap) (i id : Nat) :
    (h.retain i).isLive id = h.isLive id := by
  rw [isLive, isLive, retain, cell?_update]
  split
  · rw [Option.isSome_map]
  · rfl

/-- A new content reaches one box, if it is live. -/
theorem content?_setContent (h : Heap) (i : Nat) (content : Content) (id : Nat) :
    (h.setContent i content).content? id =
      if id = i then (h.content? id).map fun _ => content else h.content? id := by
  rw [content?, content?, setContent, cell?_update]
  split
  · rw [Option.map_map, Option.map_map]
    rfl
  · rfl

/-- A new content neither frees boxes nor makes any. -/
@[simp] theorem isLive_setContent (h : Heap) (i : Nat) (content : Content) (id : Nat) :
    (h.setContent i content).isLive id = h.isLive id := by
  rw [isLive, isLive, setContent, cell?_update]
  split
  · rw [Option.isSome_map]
  · rfl

@[simp] theorem count_setContent (h : Heap) (i : Nat) (content : Content) (id : Nat) :
    (h.setContent i content).count id = h.count id := by
  rw [count, count, setContent, cell?_update]
  by_cases hid : id = i
  · rw [if_pos hid]
    cases h.cell? id <;> rfl
  · rw [if_neg hid]

/-! ## What containers own

  Taken together over all live boxes, and up to the order. Each lemma says what enters the list and
  what leaves it. -/

/-- The handles that live containers own. -/
def owned (h : Heap) : List Handle :=
  h.gather Content.handles

/-- What the new box contains is owned from then on. -/
theorem owned_alloc (h : Heap) (datum : Datum) (content : Content) :
    (h.alloc datum content).2.owned = h.owned ++ content.handles := by
  simp only [owned, gather, alloc, Array.toList_push, List.flatMap_append,
    List.flatMap_singleton, gatherFrom]

/-- What containers own depends on their contents alone. -/
theorem owned_update (h : Heap) (id : Nat) (f : Cell → Cell)
    (hf : ∀ c, (f c).content = c.content) : (h.update id f).owned = h.owned :=
  gather_update Content.handles h id f hf

/-- The handles in all cells are those in one of them and those in the others. -/
theorem flatMap_gather_perm (part : Content → List Handle) (cells : List (Option Cell)) (i : Nat)
    (cell : Cell) (h : cells[i]?.join = some cell) :
    (cells.flatMap (gatherFrom part)).Perm
      (part cell.content ++ (cells.modify i fun _ => none).flatMap (gatherFrom part)) := by
  induction cells generalizing i with
  | nil => cases h
  | cons c cells ih =>
    cases i with
    | zero =>
      obtain rfl : c = some cell := by simpa using h
      rw [List.modify_zero_cons, List.flatMap_cons, List.flatMap_cons]
      exact List.Perm.refl _
    | succ i =>
      have hrest := ih i (by simpa using h)
      rw [List.modify_succ_cons, List.flatMap_cons, List.flatMap_cons]
      refine (hrest.append_left (gatherFrom part c)).trans ?_
      -- the handles of the wanted cell move past those of the first one
      rw [← List.append_assoc, ← List.append_assoc]
      exact List.perm_append_comm.append_right _

/-- A live box accounts for its own handles among all that are owned. -/
theorem owned_perm {h : Heap} {id : Nat} {cell : Cell} (hc : h.cell? id = some cell) :
    h.owned.Perm (cell.content.handles ++ (h.free id).owned) := by
  cases id with
  | zero => cases hc
  | succ n =>
    have hfree : (h.free (n + 1)).owned =
        (h.cells.toList.modify n fun _ => none).flatMap (gatherFrom Content.handles) := by
      simp [free, owned, gather]
    rw [hfree, owned, gather]
    refine flatMap_gather_perm Content.handles _ n cell ?_
    rw [Array.getElem?_toList]
    exact hc

/-- It does not matter what becomes of a box before it is freed. -/
theorem free_update (h : Heap) (id : Nat) (f : Cell → Cell) :
    (h.update id f).free id = h.free id := by
  unfold update free
  split
  · rfl
  · refine congrArg Heap.mk (Array.toList_inj.mp ?_)
    rw [Array.toList_modify, Array.toList_modify, Array.toList_modify, List.modify_modify_eq]
    rfl

/-- After an update the box owns what its new content has; the other boxes own what they owned. -/
theorem owned_update_perm {h : Heap} {id : Nat} {cell : Cell} (hc : h.cell? id = some cell)
    (f : Cell → Cell) :
    (h.update id f).owned.Perm ((f cell).content.handles ++ (h.free id).owned) := by
  have hc' : (h.update id f).cell? id = some (f cell) := by
    rw [cell?_update, if_pos rfl, hc]
    rfl
  -- the changed box is taken away instead of the one from before
  have hperm := owned_perm hc'
  rw [free_update] at hperm
  exact hperm

/-- A change matters only where it is applied. -/
theorem update_congr {h : Heap} {i : Nat} {f g : Cell → Cell}
    (hfg : ∀ cell, h.cell? i = some cell → f cell = g cell) : h.update i f = h.update i g := by
  cases i with
  | zero => rfl
  | succ n =>
    refine congrArg Heap.mk (Array.ext_getElem? fun k => ?_)
    show (h.cells.modify n (Option.map f))[k]? = (h.cells.modify n (Option.map g))[k]?
    rw [Array.getElem?_modify, Array.getElem?_modify]
    -- The two changes only meet the cell with the number, and agree on that.
    by_cases hk : n = k
    · subst hk
      rw [if_pos rfl, if_pos rfl]
      cases hn : h.cells[n]? with
      | none => rfl
      | some c =>
        cases c with
        | none => rfl
        | some cell =>
          have hcell : h.cell? (n + 1) = some cell := by
            rw [cell?_succ, hn]
            rfl
          exact congrArg (fun c => some (some c)) (hfg cell hcell)
    · rw [if_neg hk, if_neg hk]

/-! ## Giving up handles

  The cascade in its three cases: a handle of a box that is gone, the last handle of a box, and any
  other. It leaves what outlives it as it was. -/

/-- Giving up a handle of a box that is gone does nothing.  A ledger shows that this does not
happen. -/
theorem dropAll_freed {h : Heap} {v : Handle} (hc : h.cell? v.id = none) (rest : List Handle) :
    h.dropAll (v :: rest) = h.dropAll rest := by
  rw [dropAll]
  split
  · rfl
  · rename_i hsome
    rw [hc] at hsome
    cases hsome

/-- The last handle of a box frees it, and then what it owned is given up. -/
theorem dropAll_last {h : Heap} {v : Handle} {cell : Cell} (hc : h.cell? v.id = some cell)
    (hlast : cell.others = 0) (rest : List Handle) :
    h.dropAll (v :: rest) = (h.free v.id).dropAll (cell.content.released ++ rest) := by
  rw [dropAll]
  split
  · rename_i hnone
    rw [hc] at hnone
    cases hnone
  · rename_i hsome
    obtain rfl := Option.some.inj (hc.symm.trans hsome)
    rw [if_pos hlast]

/-- Any other handle of a box is counted down and does nothing else. -/
theorem dropAll_other {h : Heap} {v : Handle} {cell : Cell} (hc : h.cell? v.id = some cell)
    (hothers : cell.others ≠ 0) (rest : List Handle) :
    h.dropAll (v :: rest) = (h.countDown v.id).dropAll rest := by
  rw [dropAll]
  split
  · rename_i hnone
    rw [hc] at hnone
    cases hnone
  · rename_i hsome
    obtain rfl := Option.some.inj (hc.symm.trans hsome)
    rw [if_neg hothers]

/-- Numbers of freed boxes are not given out again. -/
@[simp] theorem nextId_dropAll (h : Heap) (work : List Handle) :
    (h.dropAll work).nextId = h.nextId := by
  fun_induction dropAll h work with
  | case1 h => rfl
  | case2 h v rest hc ih => exact ih
  | case3 h v rest cell hc hlast ih => rw [ih, nextId_free]
  | case4 h v rest cell hc hothers ih => rw [ih, countDown, nextId_update]

/-- A box that outlives a cascade has the content it had. -/
theorem content?_dropAll {h : Heap} {work : List Handle} {id : Nat} {content : Content}
    (hc : (h.dropAll work).content? id = some content) : h.content? id = some content := by
  fun_induction dropAll h work with
  | case1 h => exact hc
  | case2 h v rest hv ih => exact ih hc
  | case3 h v rest cell hv hlast ih =>
    -- freeing a box leaves the others alone, and this one is not the box that is freed
    have hfree := ih hc
    rw [content?, cell?_free] at hfree
    split at hfree
    · cases hfree
    · exact hfree
  | case4 h v rest cell hv hothers ih =>
    have hupdate := ih hc
    rw [countDown, content?_update] at hupdate
    · exact hupdate
    · intro c
      rfl

/-! ## Handles made and given back

  Changes of different cells, or of different parts of one cell, can be exchanged. That is enough
  to move giving back next to making, where the two cancel. -/

/-- A heap is known by its cells and the number that comes next. -/
theorem ext_cell? {h h' : Heap} (hnext : h.nextId = h'.nextId)
    (hcell : ∀ id, h.cell? id = h'.cell? id) : h = h' := by
  have hsize : h.cells.size = h'.cells.size := Nat.succ.inj hnext
  refine congrArg Heap.mk (Array.ext hsize fun n hn hn' => ?_)
  have hn := hcell (n + 1)
  rw [cell?_succ, cell?_succ, Array.getElem?_eq_getElem, Array.getElem?_eq_getElem] at hn
  exact hn

/-- Two changes of one box are one change. -/
theorem update_update (h : Heap) (i : Nat) (f g : Cell → Cell) :
    (h.update i f).update i g = h.update i fun cell => g (f cell) := by
  refine ext_cell? (by rw [nextId_update, nextId_update, nextId_update]) fun id => ?_
  rw [cell?_update, cell?_update, cell?_update]
  split
  · rw [Option.map_map]
    rfl
  · rfl

/-- An update that changes nothing leaves the heap. -/
theorem update_id (h : Heap) (i : Nat) : h.update i (fun cell => cell) = h := by
  refine ext_cell? (nextId_update h i _) fun id => ?_
  rw [cell?_update, Option.map_id']
  exact ite_self _

/-- Changes that do not get in each other's way can be made in either order. -/
theorem update_comm (h : Heap) (i j : Nat) {f g : Cell → Cell}
    (hfg : ∀ cell, g (f cell) = f (g cell)) :
    (h.update i f).update j g = (h.update j g).update i f := by
  have hmap : ∀ c : Option Cell, (c.map f).map g = (c.map g).map f := by
    intro c
    rw [Option.map_map, Option.map_map]
    exact congrArg (Option.map · c) (funext hfg)
  -- Cell by cell: they commute on one cell, and do not meet on two.
  refine ext_cell? (by simp only [nextId_update]) fun id => ?_
  simp only [cell?_update]
  by_cases hi : id = i
  · by_cases hj : id = j
    · rw [if_pos hi, if_pos hj, if_pos hj, if_pos hi, hmap]
    · rw [if_pos hi, if_neg hj, if_neg hj, if_pos hi]
  · by_cases hj : id = j
    · rw [if_neg hi, if_pos hj, if_neg hi]
    · rw [if_neg hi, if_neg hj, if_neg hi]

/-- Handles of two boxes can be made in either order. -/
theorem retain_comm (h : Heap) (i j : Nat) : (h.retain i).retain j = (h.retain j).retain i :=
  update_comm h i j fun _ => rfl

/-- A handle can be made before or after a new content is stored. -/
theorem setContent_retain (h : Heap) (i j : Nat) (content : Content) :
    (h.retain i).setContent j content = (h.setContent j content).retain i :=
  update_comm h i j fun _ => rfl

/-- **A handle that was made and is given up again leaves no trace.** -/
@[simp] theorem drop_retain (h : Heap) (v : Handle) : (h.retain v.id).drop v = h := by
  -- Without a cell neither does anything; with one the count goes up and down again, and as it is
  -- not 0 in between, nothing is freed.
  cases hc : h.cell? v.id with
  | none =>
    have hnone : (h.retain v.id).cell? v.id = none := by
      rw [retain, cell?_update, if_pos rfl, hc]
      rfl
    have hsame : h.retain v.id = h.update v.id fun cell => cell :=
      update_congr fun cell hcell => by
        rw [hc] at hcell
        cases hcell
    rw [drop, dropAll_freed hnone, dropAll, hsame, update_id]
  | some cell =>
    have hsome : (h.retain v.id).cell? v.id = some { cell with others := cell.others + 1 } := by
      rw [retain, cell?_update, if_pos rfl, hc]
      rfl
    rw [drop, dropAll_other hsome (Nat.succ_ne_zero _), dropAll, countDown, retain, update_update]
    exact update_id h v.id

/-- To give a box the content that it has is to do nothing. -/
theorem setContent_same {h : Heap} {id : Nat} {content : Content}
    (hc : h.content? id = some content) : h.setContent id content = h := by
  obtain ⟨cell, hcell, rfl⟩ := content?_eq_some.mp hc
  have hsame : h.setContent id cell.content = h.update id fun cell => cell :=
    update_congr fun cell' hcell' => by
      obtain rfl := Option.some.inj (hcell.symm.trans hcell')
      rfl
  rw [hsame, update_id]

/-- Handles can be given up in two goes. -/
theorem dropAll_append (h : Heap) (vs ws : List Handle) :
    h.dropAll (vs ++ ws) = (h.dropAll vs).dropAll ws := by
  fun_induction dropAll h vs with
  | case1 h => rfl
  | case2 h v rest hc ih => rw [List.cons_append, dropAll_freed hc, ih]
  | case3 h v rest cell hc hlast ih =>
    rw [List.cons_append, dropAll_last hc hlast, ← List.append_assoc, ih]
  | case4 h v rest cell hc hothers ih => rw [List.cons_append, dropAll_other hc hothers, ih]

end Heap

end BoxRuntime
