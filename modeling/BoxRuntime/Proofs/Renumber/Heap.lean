/-
  Heaps do not depend on box numbers.

  A heap is `Renumbered` by `ρ` into another if under the new number of every box there is the same
  cell, with the new numbers in its content, and if the numbers still to come correspond one by one.
  The second heap may have further boxes, under numbers that `ρ` leaves out.

  Making boxes, applying a patch and the cascades that follow respect the relation.  Plans respect
  it as well: for renumbered handles in a renumbered heap every plan is the renumbered plan, and a
  fault is the same fault (`Plan.…_renumber`).

  The crux is the cascade.  It goes by counts alone, these are the same on both sides, and what a
  freed box gives up on one side is what it gives up on the other, renumbered.
-/
import BoxRuntime.Proofs.Machine.Plan
import BoxRuntime.Proofs.Renumber.Tree

namespace BoxRuntime

/-! ## Renumbered data

  New numbers in every handle, and nothing else. What a content owns is renumbered with it, in
  whatever order it is listed. -/

/-- The list with other elements in the same slots. -/
def GrowList.map {α β : Type} (f : α → β) (l : GrowList α) : GrowList β :=
  { slots := l.slots.map f, capacity := l.capacity }

def Content.renumber (ρ : Nat → Nat) : Content → Content
  | fixed => fixed
  | list slots => list (slots.map (Handle.renumber ρ))
  | set tree => set (tree.relabel (Handle.renumber ρ) id)
  | map tree => map (tree.relabel (Handle.renumber ρ) (Handle.renumber ρ))

def Cell.renumber (ρ : Nat → Nat) (c : Cell) : Cell :=
  { others := c.others, content := c.content.renumber ρ }

def Patch.renumber (ρ : Nat → Nat) (p : Patch) : Patch where
  retained := p.retained.map (Handle.renumber ρ)
  revised := p.revised.map fun r => (r.1.renumber ρ, r.2.renumber ρ)
  dropped := p.dropped.map (Handle.renumber ρ)

/-- A content owns the same boxes under their new numbers. -/
theorem Content.handles_renumber (ρ : Nat → Nat) (c : Content) :
    (c.renumber ρ).handles = c.handles.map (Handle.renumber ρ) := by
  -- Trees are relabelled in their chunks, and list the entries in the same order.
  cases c with
  | fixed => rfl
  | list slots =>
    show (slots.slots.map (Handle.renumber ρ)).toList = _
    rw [Array.toList_map]
    rfl
  | set tree =>
    show (SearchTree.relabel _ _ tree).entries.toList.map Entry.key = _
    rw [SearchTree.entries_relabel, List.map_map, handles, List.map_map]
    rfl
  | map tree =>
    show ((SearchTree.relabel _ _ tree).entries.toList.flatMap fun e => [e.key, e.item]) = _
    rw [SearchTree.entries_relabel, List.flatMap_map, handles, List.map_flatMap]
    rfl

/-- A renumbered container comes apart in the same order. -/
theorem Content.released_renumber (ρ : Nat → Nat) (c : Content) :
    (c.renumber ρ).released = c.released.map (Handle.renumber ρ) := by
  cases c with
  | fixed => rfl
  | list slots => exact handles_renumber ρ (list slots)
  | set tree =>
    show (Chunk.relabel _ _ tree.root).teardown.toList.map Entry.key = _
    rw [Chunk.teardown_relabel, List.map_map, released, List.map_map]
    rfl
  | map tree =>
    show ((Chunk.relabel _ _ tree.root).teardown.toList.flatMap fun e => [e.key, e.item]) = _
    rw [Chunk.teardown_relabel, List.flatMap_map, released, List.map_flatMap]
    rfl

/-! ## Renumbered heaps

  The renumbering is strictly increasing, so different boxes stay different and the order of
  numbers stays as it is. -/

namespace Heap

/-- The second heap has the boxes of the first under their new numbers. -/
structure Renumbered (ρ : Nat → Nat) (h h' : Heap) : Prop where
  cell : ∀ id, h'.cell? (ρ id) = (h.cell? id).map (Cell.renumber ρ)
  next : ∀ k, ρ (h.nextId + k) = h'.nextId + k

namespace Renumbered

variable {ρ : Nat → Nat} {h h' : Heap}

/-- A box has as many handles under its new number. -/
theorem count (hr : Renumbered ρ h h') (id : Nat) : h'.count (ρ id) = h.count id := by
  rw [Heap.count, Heap.count, hr.cell]
  cases h.cell? id <;> rfl

theorem content (hr : Renumbered ρ h h') (id : Nat) :
    h'.content? (ρ id) = (h.content? id).map (Content.renumber ρ) := by
  rw [content?, content?, hr.cell, Option.map_map, Option.map_map]
  rfl

/-- A box that is gone is gone under its new number. -/
theorem cell_of_none (hr : Renumbered ρ h h') {v : Handle} (hc : h.cell? v.id = none) :
    h'.cell? (v.renumber ρ).id = none := by
  refine (hr.cell v.id).trans ?_
  rw [hc]
  rfl

/-- A live box is live under its new number. -/
theorem cell_of_some (hr : Renumbered ρ h h') {v : Handle} {cell : Cell}
    (hc : h.cell? v.id = some cell) : h'.cell? (v.renumber ρ).id = some (cell.renumber ρ) := by
  refine (hr.cell v.id).trans ?_
  rw [hc]
  rfl

/-- The next box has corresponding numbers on both sides. -/
theorem handle_alloc (hr : Renumbered ρ h h') (datum : Datum) (content content' : Content) :
    (h'.alloc datum content').1 = ((h.alloc datum content).1).renumber ρ :=
  congrArg (fun id => Handle.mk id datum) (hr.next 0).symm

/-- The next box gets the new number of the next box. -/
theorem alloc (hρ : StrictMono ρ) (hr : Renumbered ρ h h') (datum : Datum) (content : Content) :
    Renumbered ρ (h.alloc datum content).2 (h'.alloc datum (content.renumber ρ)).2 := by
  have hnext : ρ h.nextId = h'.nextId := hr.next 0
  constructor
  · intro id
    rw [cell?_alloc, cell?_alloc, hr.cell]
    -- New numbers are those of new boxes.
    by_cases hid : id = h.nextId
    · rw [if_pos hid, if_pos (hid ▸ hnext)]
      rfl
    · -- Another box has another number on both sides, since the renumbering is injective.
      have hne : ρ id ≠ h'.nextId := by
        intro heq
        exact hid (hρ.injective (heq.trans hnext.symm))
      rw [if_neg hid, if_neg hne]
  · intro k
    rw [nextId_alloc, nextId_alloc, Nat.add_assoc, Nat.add_assoc]
    exact hr.next (1 + k)

/-- An update of a box is one of the box under its new number. -/
theorem update (hρ : StrictMono ρ) (hr : Renumbered ρ h h') (i : Nat) {f f' : Cell → Cell}
    (hf : ∀ c, f' (c.renumber ρ) = (f c).renumber ρ) :
    Renumbered ρ (h.update i f) (h'.update (ρ i) f') := by
  constructor
  · intro id
    rw [cell?_update, cell?_update, hr.cell]
    by_cases hid : id = i
    · rw [if_pos hid, if_pos (congrArg ρ hid), Option.map_map, Option.map_map]
      exact congrArg (fun f => (h.cell? id).map f) (funext hf)
    · rw [if_neg hid, if_neg fun heq => hid (hρ.injective heq)]
  · intro k
    rw [nextId_update, nextId_update]
    exact hr.next k

theorem free (hρ : StrictMono ρ) (hr : Renumbered ρ h h') (i : Nat) :
    Renumbered ρ (h.free i) (h'.free (ρ i)) := by
  constructor
  · intro id
    rw [cell?_free, cell?_free, hr.cell]
    by_cases hid : id = i
    · rw [if_pos hid, if_pos (congrArg ρ hid)]
      rfl
    · rw [if_neg hid, if_neg fun heq => hid (hρ.injective heq)]
  · intro k
    rw [nextId_free, nextId_free]
    exact hr.next k

/-- A handle made of a box is a handle made of its new number. -/
theorem retainAll (hρ : StrictMono ρ) (hr : Renumbered ρ h h') (vs : List Handle) :
    Renumbered ρ (h.retainAll vs) (h'.retainAll (vs.map (Handle.renumber ρ))) := by
  induction vs generalizing h h' with
  | nil => exact hr
  | cons v vs ih => exact ih (hr.update hρ v.id fun _ => rfl)

theorem revise (hρ : StrictMono ρ) (hr : Renumbered ρ h h') (r : Option (Handle × Content)) :
    Renumbered ρ (h.revise r)
      (h'.revise (r.map fun r => (r.1.renumber ρ, r.2.renumber ρ))) := by
  cases r with
  | none => exact hr
  | some r => exact hr.update hρ r.1.id fun _ => rfl

/-- Both cascades take the same course. -/
theorem dropAll (hρ : StrictMono ρ) (hr : Renumbered ρ h h') (work : List Handle) :
    Renumbered ρ (h.dropAll work) (h'.dropAll (work.map (Handle.renumber ρ))) := by
  fun_induction Heap.dropAll h work generalizing h' with
  | case1 h =>
    rw [List.map_nil, dropAll_nil]
    exact hr
  | case2 h v rest hc ih =>
    rw [List.map_cons, dropAll_freed (hr.cell_of_none hc)]
    exact ih hr
  | case3 h v rest cell hc hlast ih =>
    -- the counts are the same, so the last handle is the last one on both sides
    have hc' := hr.cell_of_some hc
    have hwork : (cell.renumber ρ).content.released ++ rest.map (Handle.renumber ρ) =
        (cell.content.released ++ rest).map (Handle.renumber ρ) := by
      rw [List.map_append]
      exact congrArg (· ++ _) (Content.released_renumber ρ cell.content)
    rw [List.map_cons, dropAll_last hc' hlast, hwork]
    exact ih (hr.free hρ v.id)
  | case4 h v rest cell hc hothers ih =>
    rw [List.map_cons, dropAll_other (hr.cell_of_some hc) hothers]
    exact ih (hr.update hρ v.id fun _ => rfl)

/-- **A patch of the one heap is the renumbered patch of the other.**. -/
theorem patch (hρ : StrictMono ρ) (hr : Renumbered ρ h h') (p : Patch) :
    Renumbered ρ (h.patch p) (h'.patch (p.renumber ρ)) :=
  ((hr.retainAll hρ p.retained).revise hρ p.revised).dropAll hρ p.dropped

end Renumbered

/-! ## Reading

  A box is asked by its new number and answers with its renumbered content. -/

section

variable {ρ : Nat → Nat} {h h' : Heap}

/-- Looking up a list finds the same list, renumbered; the faults are the same, as they name no
boxes. -/
theorem listOf_renumber (hr : Renumbered ρ h h') (operation : String) (v : Handle) :
    h'.listOf operation (v.renumber ρ) =
      (h.listOf operation v).map (GrowList.map (Handle.renumber ρ)) := by
  have hc : h'.content? (v.renumber ρ).id = (h.content? v.id).map (Content.renumber ρ) :=
    hr.content v.id
  unfold listOf
  rw [hc]
  rcases h.content? v.id with _ | content
  · rfl
  · cases content <;> rfl

theorem setOf_renumber (hr : Renumbered ρ h h') (operation : String) (v : Handle) :
    h'.setOf operation (v.renumber ρ) =
      (h.setOf operation v).map (SearchTree.relabel (Handle.renumber ρ) id) := by
  have hc : h'.content? (v.renumber ρ).id = (h.content? v.id).map (Content.renumber ρ) :=
    hr.content v.id
  unfold setOf
  rw [hc]
  rcases h.content? v.id with _ | content
  · rfl
  · cases content <;> rfl

theorem mapOf_renumber (hr : Renumbered ρ h h') (operation : String) (v : Handle) :
    h'.mapOf operation (v.renumber ρ) =
      (h.mapOf operation v).map (SearchTree.relabel (Handle.renumber ρ) (Handle.renumber ρ)) := by
  have hc : h'.content? (v.renumber ρ).id = (h.content? v.id).map (Content.renumber ρ) :=
    hr.content v.id
  unfold mapOf
  rw [hc]
  rcases h.content? v.id with _ | content
  · rfl
  · cases content <;> rfl

end

end Heap

/-! ## Plans

  Each plan of the renumbered heap is the renumbered plan. -/

/-- Plans that go on alike from corresponding findings are alike. -/
theorem Plan.map_bind_eq {α α' β β' : Type} {x : Except Fault α} {f : α → α'}
    {k : α → Except Fault β} {k' : α' → Except Fault β'} {r : β → β'}
    (hk : ∀ a, k' (f a) = (k a).map r) : x.map f >>= k' = (x >>= k).map r := by
  cases x with
  | error e => rfl
  | ok a => exact hk a

/-- The new numbers of a result and of the patch that goes with it. -/
def Plan.renumber {α : Type} (ρ : Nat → Nat) (r : α → α) (x : α × Patch) : α × Patch :=
  (r x.1, x.2.renumber ρ)

namespace Plan

open Heap

variable {ρ : Nat → Nat} {h h' : Heap}

/-- Each of the following plans, made on the renumbered heap, is the renumbered plan. -/
theorem release_renumber (hr : Renumbered ρ h h') (v : Handle) (deep : Bool) :
    release h' (v.renumber ρ) deep = (release h v deep).map (renumber ρ id) := by
  have hcount : h'.count (v.renumber ρ).id = h.count v.id := hr.count v.id
  have htag : (v.renumber ρ).tag = v.tag := rfl
  unfold release
  rw [hcount, htag]
  split
  · rfl
  · rfl

/-- Whether a list gets a slot has nothing to do with numbers. -/
theorem listAppend_renumber (hr : Renumbered ρ h h') (limit : Nat) (list v : Handle) :
    listAppend limit h' (list.renumber ρ) (v.renumber ρ) =
      (listAppend limit h list v).map (renumber ρ id) := by
  unfold listAppend
  rw [listOf_renumber hr]
  refine map_bind_eq fun slots => ?_
  -- How much is reserved depends on how many elements there are, and on no number.
  have hroom : (slots.map (Handle.renumber ρ)).reservation limit = slots.reservation limit := by
    unfold GrowList.reservation GrowList.isFull GrowList.map
    rw [Array.size_map]
  rw [hroom]
  rcases slots.reservation limit with f | capacity
  · rfl
  · have hstore : (slots.map (Handle.renumber ρ)).store capacity (v.renumber ρ) =
        (slots.store capacity v).map (Handle.renumber ρ) := by
      refine congrArg (fun slots => GrowList.mk slots capacity) ?_
      exact Array.map_push.symm
    refine congrArg Except.ok (congrArg (Prod.mk ()) ?_)
    rw [hstore]
    rfl

/-- The element at a position is the same, renumbered. -/
theorem pick_renumber (slots : GrowList Handle) (i : Nat) :
    pick (slots.map (Handle.renumber ρ)) i =
      renumber ρ (Option.map (Handle.renumber ρ)) (pick slots i) := by
  have hget : (slots.map (Handle.renumber ρ)).get? i =
      (slots.get? i).map (Handle.renumber ρ) := Array.getElem?_map
  unfold pick
  rw [hget]
  cases slots.get? i <;> rfl

theorem listGet_renumber (hr : Renumbered ρ h h') (list : Handle) (i : Nat) :
    listGet h' (list.renumber ρ) i =
      (listGet h list i).map (renumber ρ (Option.map (Handle.renumber ρ))) := by
  unfold listGet
  rw [listOf_renumber hr]
  exact map_bind_eq fun slots => congrArg Except.ok (pick_renumber slots i)

/-- Where a value goes in a set depends on numbers only by their order, and that is kept. -/
theorem setAdd_renumber (hρ : StrictMono ρ) (hr : Renumbered ρ h h') (set v : Handle) :
    setAdd h' (set.renumber ρ) (v.renumber ρ) = (setAdd h set v).map (renumber ρ id) := by
  unfold setAdd
  rw [setOf_renumber hr]
  refine map_bind_eq fun tree => ?_
  -- The tree sees keys through the comparator, which the renumbering keeps.
  have hinsert := SearchTree.insert_relabel (g := id) (keeps_renumber hρ) tree
    { key := v, item := () }
  have hentry : ({ key := v.renumber ρ, item := () } : Entry Unit) =
    Entry.relabel (Handle.renumber ρ) id { key := v, item := () } := rfl
  rw [hentry, hinsert, completed_mapResult]
  refine map_bind_eq fun r => ?_
  obtain ⟨outcome, grown⟩ := r
  cases outcome with
  | added depth index split => rfl
  | merged displaced => rfl

/-- What is displaced is the item of the relabelled entry, so the patch gives up its new number. -/
theorem mapAdd_renumber (hρ : StrictMono ρ) (hr : Renumbered ρ h h') (map key value : Handle) :
    mapAdd h' (map.renumber ρ) (key.renumber ρ) (value.renumber ρ) =
      (mapAdd h map key value).map (renumber ρ id) := by
  unfold mapAdd
  rw [mapOf_renumber hr]
  refine map_bind_eq fun tree => ?_
  -- As for a set, with the items renumbered as well.
  have hinsert := SearchTree.insert_relabel (g := Handle.renumber ρ) (keeps_renumber hρ) tree
    { key, item := value }
  have hentry : ({ key := key.renumber ρ, item := value.renumber ρ } : Entry Handle) =
    Entry.relabel (Handle.renumber ρ) (Handle.renumber ρ) { key, item := value } := rfl
  rw [hentry, hinsert, completed_mapResult]
  refine map_bind_eq fun r => ?_
  obtain ⟨outcome, grown⟩ := r
  cases outcome with
  | added depth index split => rfl
  | merged displaced => rfl

theorem valueOf_renumber (hρ : StrictMono ρ) (tree : MapTree) (key : Handle) :
    valueOf (tree.relabel (Handle.renumber ρ) (Handle.renumber ρ)) (key.renumber ρ) =
      (valueOf tree key).map (Handle.renumber ρ) := by
  have hfind := SearchTree.find_relabel (g := Handle.renumber ρ) (keeps_renumber hρ) tree key
  have htag : (key.renumber ρ).tag = key.tag := rfl
  unfold valueOf
  rw [SearchTree.elementType_relabel, SearchTree.isEmpty_relabel, hfind, htag]
  -- Types, sizes and what is found all agree, so the same question is answered first on both.
  cases tree.elementType with
  | none => rfl
  | some expected =>
    dsimp only
    split
    · rfl
    · split
      · rfl
      · rcases tree.find key with f | found
        · rfl
        · cases found <;> rfl

theorem mapGet_renumber (hρ : StrictMono ρ) (hr : Renumbered ρ h h') (map key : Handle) :
    mapGet h' (map.renumber ρ) (key.renumber ρ) =
      (mapGet h map key).map (renumber ρ (Handle.renumber ρ)) := by
  unfold mapGet
  rw [mapOf_renumber hr]
  refine map_bind_eq fun tree => ?_
  rw [valueOf_renumber hρ]
  exact map_bind_eq fun v => rfl

/-- Lengths have nothing to do with numbers. -/
theorem length_renumber (hr : Renumbered ρ h h') (v : Handle) :
    length h' (v.renumber ρ) = length h v := by
  have htag : (v.renumber ρ).tag = v.tag := rfl
  -- Lengths are no handles, so nothing is renumbered in them.
  have hid : ∀ x : Except Fault Nat, x.map id = x := by
    intro x
    cases x <;> rfl
  rw [← hid (length h v)]
  unfold length
  rw [htag]
  cases v.tag with
  | list =>
    dsimp only
    rw [listOf_renumber hr]
    refine map_bind_eq fun slots => ?_
    exact congrArg Except.ok Array.size_map
  | set =>
    dsimp only
    rw [setOf_renumber hr]
    refine map_bind_eq fun tree => ?_
    rw [SearchTree.elementType_relabel, SearchTree.size_relabel, hid]
  | map =>
    dsimp only
    rw [mapOf_renumber hr]
    exact map_bind_eq fun tree => rfl
  | _ => rfl

/-- The index is an int and has no number to be changed; the element that it picks has. -/
theorem listIndex_renumber (hr : Renumbered ρ h h') (list index : Handle) :
    listIndex h' (list.renumber ρ) (index.renumber ρ) =
      (listIndex h list index).map (renumber ρ (Handle.renumber ρ)) := by
  have hint : (index.renumber ρ).int? = index.int? := rfl
  have htag : (index.renumber ρ).tag = index.tag := rfl
  unfold listIndex
  rw [hint, htag]
  -- The index is the same int.
  cases index.int? with
  | none => rfl
  | some n =>
    dsimp only
    split
    · rfl
    · rw [listOf_renumber hr]
      refine map_bind_eq fun slots => ?_
      have hsize : (slots.map (Handle.renumber ρ)).size = slots.size := Array.size_map
      rw [pick_renumber, hsize]
      obtain ⟨found, p⟩ := pick slots n.toInt.toNat
      cases found <;> rfl

/-- Whatever the collection, what is found is the same, renumbered. -/
theorem indexOf_renumber (hρ : StrictMono ρ) (hr : Renumbered ρ h h') (collection key : Handle) :
    indexOf h' (collection.renumber ρ) (key.renumber ρ) =
      (indexOf h collection key).map (renumber ρ (Handle.renumber ρ)) := by
  have htag : (collection.renumber ρ).tag = collection.tag := rfl
  unfold indexOf
  rw [htag]
  cases collection.tag with
  | list => exact listIndex_renumber hr collection key
  | map => exact mapGet_renumber hρ hr collection key
  | _ => rfl

end Plan

/-! ## Numbers that stay

  A renumbering that moves only numbers that are not in use yet leaves a heap as it is. -/

/-- A content whose handles keep their numbers stays as it is. -/
theorem Content.renumber_of_fixed {ρ : Nat → Nat} {c : Content}
    (h : ∀ v ∈ c.handles, ρ v.id = v.id) : c.renumber ρ = c := by
  -- No handle of the content changes, so the content does not.
  have hv : ∀ v ∈ c.handles, v.renumber ρ = v := fun v hv => Handle.renumber_of_fixed (h v hv)
  cases c with
  | fixed => rfl
  | list slots =>
    have hslots : slots.slots.map (Handle.renumber ρ) = slots.slots := by
      have hsame : ∀ v ∈ slots.slots.toList, v.renumber ρ = id v := hv
      apply Array.toList_inj.mp
      rw [Array.toList_map, List.map_congr_left hsame, List.map_id]
    exact congrArg (fun s => list { slots := s, capacity := slots.capacity }) hslots
  | set tree =>
    refine congrArg set (SearchTree.relabel_of_fixed fun e he => ?_)
    have hkey : e.key.renumber ρ = e.key := hv e.key (List.mem_map_of_mem he)
    exact congrArg (fun key => Entry.mk key e.item) hkey
  | map tree =>
    refine congrArg map (SearchTree.relabel_of_fixed fun e he => ?_)
    have hkey : e.key.renumber ρ = e.key :=
      hv e.key (List.mem_flatMap.mpr ⟨e, he, List.mem_cons_self⟩)
    have hitem : e.item.renumber ρ = e.item :=
      hv e.item (List.mem_flatMap.mpr ⟨e, he, List.mem_cons_of_mem _ List.mem_cons_self⟩)
    show Entry.mk (e.key.renumber ρ) (e.item.renumber ρ) = e
    rw [hkey, hitem]

/-- A cell whose boxes keep their numbers stays the same. -/
theorem Cell.renumber_of_fixed {ρ : Nat → Nat} {c : Cell}
    (h : ∀ v ∈ c.content.handles, ρ v.id = v.id) : c.renumber ρ = c :=
  congrArg (fun content => Cell.mk c.others content) (Content.renumber_of_fixed h)

namespace Heap

/-- Every heap is its own renumbering. -/
theorem Renumbered.refl (h : Heap) : h.Renumbered id h := by
  refine ⟨fun i => ?_, fun _ => rfl⟩
  show h.cell? i = _
  cases h.cell? i with
  | none => rfl
  | some cell => exact congrArg some (Cell.renumber_of_fixed fun _ _ => rfl).symm

/-- The numbers when number `n` is left out. -/
def skip (n i : Nat) : Nat :=
  if i < n then i else i + 1

/-- Leaving out a number keeps the lower ones, moves up the others by one, and keeps the order. -/
theorem skip_of_lt {n i : Nat} (h : i < n) : skip n i = i :=
  if_pos h

theorem skip_of_le {n i : Nat} (h : n ≤ i) : skip n i = i + 1 :=
  if_neg (Nat.not_lt.mpr h)

/-- Skipping a number keeps the order of all others. -/
theorem skip_strictMono (n : Nat) : StrictMono (skip n) := by
  intro i j hij
  rcases Nat.lt_or_ge i n with hi | hi
  · rw [skip_of_lt hi]
    rcases Nat.lt_or_ge j n with hj | hj
    · rw [skip_of_lt hj]
      exact hij
    · rw [skip_of_le hj]
      omega
  · rw [skip_of_le hi, skip_of_le (Nat.le_trans hi (Nat.le_of_lt hij))]
    omega

/-- A heap with one more box is the same heap without the number of that box. -/
theorem Renumbered.alloc_right {h h' : Heap} (hr : h.Renumbered id h')
    (hclosed : ∀ v ∈ h.owned, v.id < h.nextId) (datum : Datum) (content : Content) :
    h.Renumbered (skip h.nextId) (h'.alloc datum content).2 := by
  have hnext : h.nextId = h'.nextId := hr.next 0
  constructor
  · intro i
    rcases Nat.lt_or_ge i h.nextId with hi | hi
    -- a box from before: its own number stays, and so do those in its content
    · have hne : i ≠ h'.nextId := by omega
      have hcell : h'.cell? i = (h.cell? i).map (Cell.renumber id) := hr.cell i
      rw [skip_of_lt hi, cell?_alloc, if_neg hne, hcell]
      cases hc : h.cell? i with
      | none => rfl
      | some cell =>
        have hsame : cell.renumber id = cell := Cell.renumber_of_fixed fun _ _ => rfl
        have hskip : cell.renumber (skip h.nextId) = cell := by
          refine Cell.renumber_of_fixed fun v hv => skip_of_lt (hclosed v ?_)
          exact (owned_perm hc).mem_iff.mpr (List.mem_append_left _ hv)
        show some (cell.renumber id) = some (cell.renumber (skip h.nextId))
        rw [hsame, hskip]
    -- a number still to come: on both sides there is no box under it
    · have hne : i + 1 ≠ h'.nextId := by omega
      have hgone : h'.nextId ≤ i + 1 := by omega
      rw [skip_of_le hi, cell?_alloc, if_neg hne, cell?_of_nextId_le hgone, cell?_of_nextId_le hi]
      rfl
  · intro k
    rw [skip_of_le (Nat.le_add_right _ k), nextId_alloc, hnext]
    omega

end Heap

end BoxRuntime
