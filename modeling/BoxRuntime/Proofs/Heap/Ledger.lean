/-
  The ledger of handles.

  A box is owned by the handles that live containers hold and by handles outside of the heap: those
  of whoever works on it, those that an operation holds for a moment, those still to be given up.
  The ledger (`Ledger`) says that every box counts exactly these.  A live box counts one handle at
  least, so a box without owners is not live.  The handles outside are a list, in which the order
  does not matter and the number of times does.

  There is one lemma for each thing that happens to a heap: a box is made, a handle is made, a
  content is replaced, handles are given up.  In each the list outside changes by what was gained
  or spent, so that a whole operation balances if its parts do.

  The crux is the cascade (`Ledger.dropAll`).  The handles that are still to be given up are simply
  outside; when a box is freed, its handles move from the heap to that list, and the ledger is kept
  at every step, whatever the boxes share and however deep they are nested.
-/
import BoxRuntime.Proofs.Heap.Cells

namespace BoxRuntime

/-! ## Counting handles

  How often a box occurs in a list of handles. Counts add up over lists and do not depend on the
  order. -/

/-- How many of the handles are of a given box. -/
def tally (id : Nat) (vs : List Handle) : Nat :=
  vs.countP fun v => v.id == id

@[simp] theorem tally_nil (id : Nat) : tally id [] = 0 :=
  rfl

theorem tally_cons (id : Nat) (v : Handle) (vs : List Handle) :
    tally id (v :: vs) = tally id [v] + tally id vs := by
  rw [← List.singleton_append, tally, List.countP_append]
  rfl

theorem tally_append (id : Nat) (vs ws : List Handle) :
    tally id (vs ++ ws) = tally id vs + tally id ws :=
  List.countP_append

theorem tally_self (v : Handle) : tally v.id [v] = 1 := by
  simp [tally]

theorem tally_of_ne {v : Handle} {id : Nat} (h : id ≠ v.id) : tally id [v] = 0 := by
  simp [tally, h.symm]

/-- The order of handles does not matter. -/
theorem tally_perm {vs ws : List Handle} (h : vs.Perm ws) (id : Nat) : tally id vs = tally id ws :=
  h.countP_eq _

/-- A box is counted if there is a handle of it. -/
theorem tally_pos_iff {id : Nat} {vs : List Handle} : 0 < tally id vs ↔ ∃ v ∈ vs, v.id = id := by
  rw [tally, List.countP_pos_iff]
  simp only [beq_iff_eq]

namespace Heap

/-- Every box counts its handles, those in live containers and those outside. -/
structure Ledger (h : Heap) (outside : List Handle) : Prop where
  count_eq : ∀ id, h.count id = tally id (outside ++ h.owned)

namespace Ledger

variable {h : Heap} {outside : List Handle}

/-- There is nothing to account for in an empty heap. -/
theorem empty : Ledger {} [] := by
  have hcell : ∀ id, ({} : Heap).cell? id = none := by
    intro id
    cases id with
    | zero => rfl
    | succ n => rfl
  constructor
  intro id
  rw [count_of_none (hcell id)]
  rfl

/-- The order of the handles outside does not matter. -/
theorem of_tally_eq (hl : h.Ledger outside) {outside' : List Handle}
    (heq : ∀ id, tally id outside' = tally id outside) : h.Ledger outside' := by
  constructor
  intro id
  rw [hl.count_eq, tally_append, tally_append, heq]

/-- The order of the handles outside does not matter. -/
theorem of_perm (hl : h.Ledger outside) {outside' : List Handle} (hp : outside'.Perm outside) :
    h.Ledger outside' :=
  hl.of_tally_eq (tally_perm hp)

/-! ## Owners and life

  A live box counts one handle at least, so being live and having an owner are the same. -/

/-- A box is live exactly as long as it has owners. -/
theorem isLive_iff (hl : h.Ledger outside) {id : Nat} :
    h.isLive id = true ↔ 0 < tally id (outside ++ h.owned) := by
  rw [← hl.count_eq, Heap.isLive_iff]
  constructor
  · rintro ⟨cell, hc⟩
    rw [count_of_cell? hc]
    exact Nat.succ_pos cell.others
  · intro hpos
    cases hc : h.cell? id with
    | none =>
      rw [count_of_none hc] at hpos
      exact absurd hpos (Nat.lt_irrefl 0)
    | some cell => exact ⟨cell, rfl⟩

/-- Whoever has a handle has a live box. -/
theorem live_of_mem (hl : h.Ledger outside) {v : Handle} (hv : v ∈ outside) :
    h.isLive v.id = true :=
  hl.isLive_iff.mpr (tally_pos_iff.mpr ⟨v, List.mem_append_left _ hv, rfl⟩)

/-- A box that is owned by another is live. -/
theorem live_of_owned (hl : h.Ledger outside) {v : Handle} (hv : v ∈ h.owned) :
    h.isLive v.id = true :=
  hl.isLive_iff.mpr (tally_pos_iff.mpr ⟨v, List.mem_append_right _ hv, rfl⟩)

/-- What is held outside has a cell to look at. -/
theorem cell?_of_mem (hl : h.Ledger outside) {v : Handle} (hv : v ∈ outside) :
    ∃ cell, h.cell? v.id = some cell :=
  Heap.isLive_iff.mp (hl.live_of_mem hv)

/-- What a live container holds is live. -/
theorem live_of_held (hl : h.Ledger outside) {id : Nat} {content : Content}
    (hc : h.content? id = some content) {v : Handle} (hv : v ∈ content.handles) :
    h.isLive v.id = true := by
  obtain ⟨cell, hcell, rfl⟩ := content?_eq_some.mp hc
  exact hl.live_of_owned ((owned_perm hcell).mem_iff.mpr (List.mem_append_left _ hv))

/-! ## What happens to a heap

  One lemma for each change. The handles outside of the heap are what the caller has in hand at
  that point, and change with it. -/

/-- A new box has one handle, which is outside. -/
theorem alloc (hl : h.Ledger outside) (datum : Datum) {content : Content}
    (hnone : content.handles = []) :
    (h.alloc datum content).2.Ledger ((h.alloc datum content).1 :: outside) := by
  have hnew : h.count h.nextId = 0 := count_of_none (cell?_of_nextId_le (Nat.le_refl _))
  constructor
  intro id
  rw [owned_alloc, hnone, List.append_nil, List.cons_append, tally_cons]
  by_cases hid : id = h.nextId
  -- no handle can be there of a box that is only made now
  · subst hid
    have hself : tally h.nextId [(h.alloc datum content).1] = 1 :=
      tally_self (h.alloc datum content).1
    have hcell := cell?_alloc h datum content h.nextId
    rw [if_pos rfl] at hcell
    rw [count_of_cell? hcell, hself, ← hl.count_eq, hnew]
    rfl
  · have hother : tally id [(h.alloc datum content).1] = 0 := tally_of_ne hid
    rw [hother, ← hl.count_eq, count, count, cell?_alloc, if_neg hid, Nat.zero_add]

/-- A new handle of a live box is outside. -/
theorem retain (hl : h.Ledger outside) {v : Handle} (hv : h.isLive v.id = true) :
    (h.retain v.id).Ledger (v :: outside) := by
  obtain ⟨cell, hc⟩ := Heap.isLive_iff.mp hv
  -- Contents are the same, so all that changes is one count, by the handle that was made.
  have howned : (h.retain v.id).owned = h.owned := owned_update h v.id _ fun _ => rfl
  constructor
  intro id
  rw [howned, List.cons_append, tally_cons, ← hl.count_eq]
  by_cases hid : id = v.id
  · subst hid
    have hcell : (h.retain v.id).cell? v.id = some { cell with others := cell.others + 1 } := by
      rw [Heap.retain, cell?_update, if_pos rfl, hc]
      rfl
    rw [count_of_cell? hcell, count_of_cell? hc, tally_self, Nat.add_comm]
    rfl
  · rw [tally_of_ne hid, Nat.zero_add, count, count, Heap.retain, cell?_update, if_neg hid]

/-- When a content is replaced, the container gives the handles it had to the outside, and gets
its new ones from there. -/
theorem setContent (hl : h.Ledger outside) {id : Nat} {old new : Content} {outside' : List Handle}
    (hc : h.content? id = some old)
    (heq : ∀ k, tally k new.handles + tally k outside' = tally k old.handles + tally k outside) :
    (h.setContent id new).Ledger outside' := by
  obtain ⟨cell, hcell, rfl⟩ := content?_eq_some.mp hc
  constructor
  intro k
  have hold := tally_perm (owned_perm hcell) k
  have hnew : tally k (h.setContent id new).owned = tally k (new.handles ++ (h.free id).owned) :=
    tally_perm (owned_update_perm hcell fun c => { c with content := new }) k
  have hk := heq k
  rw [tally_append] at hold hnew
  -- the count stays, what the other boxes own stays, and the rest is `heq`
  rw [count_setContent, hl.count_eq, tally_append, tally_append, hold, hnew]
  omega

/-- A box that loses one of several handles. -/
theorem countDown {v : Handle} (hl : h.Ledger (v :: outside)) {cell : Cell}
    (hc : h.cell? v.id = some cell) (hothers : cell.others ≠ 0) :
    (h.countDown v.id).Ledger outside := by
  -- Contents are the same; the count goes down with the handle that was given up.
  have howned : (h.countDown v.id).owned = h.owned := owned_update h v.id _ fun _ => rfl
  constructor
  intro id
  have hcount := hl.count_eq id
  rw [howned]
  rw [List.cons_append, tally_cons] at hcount
  by_cases hid : id = v.id
  · subst hid
    rw [count_of_cell? hc, tally_self, Cell.count] at hcount
    rw [count, Heap.countDown, cell?_update, if_pos rfl, hc]
    show cell.others - 1 + 1 = _
    omega
  · rw [tally_of_ne hid, Nat.zero_add] at hcount
    rw [← hcount, count, count, Heap.countDown, cell?_update, if_neg hid]

/-- A box that loses its last handle: what it owned is outside, because taking it apart brings out
every handle that it owned. -/
theorem free {v : Handle} (hl : h.Ledger (v :: outside)) {cell : Cell}
    (hc : h.cell? v.id = some cell) (hlast : cell.others = 0) :
    (h.free v.id).Ledger (cell.content.released ++ outside) := by
  constructor
  intro id
  have hcount := hl.count_eq id
  rw [List.cons_append, tally_cons, tally_append, tally_perm (owned_perm hc), tally_append]
    at hcount
  rw [tally_append, tally_append, tally_perm cell.content.released_perm]
  by_cases hid : id = v.id
  -- the count was one, for `v`, so no other handle of this box can be left
  · subst hid
    rw [count_of_cell? hc, tally_self, Cell.count, hlast] at hcount
    rw [count, cell?_free, if_pos rfl]
    show 0 = _
    omega
  · rw [tally_of_ne hid] at hcount
    have hsame : (h.free v.id).count id = h.count id := by
      rw [count, count, cell?_free, if_neg hid]
    omega

/-- Giving up handles takes them from the outside, and nothing else from there. -/
theorem dropAll {work : List Handle} (hl : h.Ledger (work ++ outside)) :
    (h.dropAll work).Ledger outside := by
  -- along the cascade: the ledger with the whole work list outside is the invariant
  fun_induction Heap.dropAll h work with
  | case1 h => exact hl
  | case2 h v rest hc ih =>
    -- a handle outside is of a live box
    obtain ⟨cell, hcell⟩ := hl.cell?_of_mem List.mem_cons_self
    rw [hc] at hcell
    cases hcell
  | case3 h v rest cell hc hlast ih =>
    -- what the freed box gives up is work now
    refine ih ?_
    rw [List.append_assoc]
    exact hl.free hc hlast
  | case4 h v rest cell hc hothers ih => exact ih (hl.countDown hc hothers)

end Ledger

end Heap

end BoxRuntime
