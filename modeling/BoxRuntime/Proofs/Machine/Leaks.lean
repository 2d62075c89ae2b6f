/-
  No box is leaked.

  Boxes that own each other in a circle keep each other alive.  This module says that nothing else
  does: if no live box holds itself, be it through other boxes, then whoever has given up all
  handles has freed all boxes (`Reachable.nothing_left`).  Nesting and sharing do not matter, nor
  how the entries of a set or map are spread over chunks, nor the order in which the handles are
  given up.

  There are three parts.  A box that is freed gives up every handle it owns, once for each time it
  owns it: that is the ledger, and for a set or map it rests on the loop that takes the chunks
  apart, which reaches every entry of every chunk once (`Chunk.teardown_perm`).  Giving up handles
  frees boxes and changes no content, so a heap without circles stays without (`GaveUp.acyclic`).
  And a heap without circles of which nobody outside holds a handle is empty
  (`Ledger.not_live_of_acyclic`): every live box has an owner, and the owner is a live box; among
  finitely many boxes such a search for owners comes back to a box where it has been.
-/
import BoxRuntime.Proofs.Machine.Refusal
import Mathlib.Data.Fintype.EquivFin
import Mathlib.Logic.Relation
import Mathlib.Order.WellFounded

namespace BoxRuntime

namespace Heap

/-! ## Boxes that hold boxes

  A relation between numbers. Without circles it has a box that no other holds, as long as there is
  any box, since there are finitely many. -/

/-- The first box is a live container that holds a handle of the second. -/
def Holds (h : Heap) (i j : Nat) : Prop :=
  ∃ content, h.content? i = some content ∧ ∃ v ∈ content.handles, v.id = j

/-- No live box holds itself, directly or through others. -/
def Acyclic (h : Heap) : Prop :=
  ∀ i, ¬Relation.TransGen h.Holds i i

/-- What is owned is held by some box. -/
theorem holds_of_owned {h : Heap} {v : Handle} (hv : v ∈ h.owned) : ∃ i, h.Holds i v.id := by
  obtain ⟨c, hc, hvc⟩ := List.mem_flatMap.mp hv
  cases c with
  | none => cases hvc
  | some cell =>
    obtain ⟨n, hn⟩ := List.getElem?_of_mem hc
    have hcell : h.cell? (n + 1) = some cell := by
      rw [cell?_succ, ← Array.getElem?_toList, hn]
      rfl
    exact ⟨n + 1, cell.content, content?_eq_some.mpr ⟨cell, hcell, rfl⟩, v, hvc, rfl⟩

/-- Only live boxes hold others. -/
theorem Holds.isLive {h : Heap} {i j : Nat} (hh : h.Holds i j) : h.isLive i = true := by
  obtain ⟨content, hcontent, -⟩ := hh
  obtain ⟨cell, hcell, -⟩ := content?_eq_some.mp hcontent
  exact isLive_iff.mpr ⟨cell, hcell⟩

/-- A heap has no circle if a heap without any has all the contents that it has. -/
theorem Acyclic.mono {h h' : Heap} (ha : h.Acyclic)
    (hcontent : ∀ id content, h'.content? id = some content → h.content? id = some content) :
    h'.Acyclic := by
  intro i hcircle
  have hholds : ∀ a b, h'.Holds a b → h.Holds a b := by
    rintro a b ⟨content, hc, hb⟩
    exact ⟨content, hcontent a content hc, hb⟩
  exact ha i (Relation.TransGen.mono hholds i i hcircle)

/-- There are no circles if all boxes hold boxes only that were made later. -/
theorem acyclic_of_lt {h : Heap} (hlater : ∀ i j, h.Holds i j → i < j) : h.Acyclic := by
  intro i hcircle
  have hlt : ∀ j, Relation.TransGen h.Holds i j → i < j := by
    intro j hj
    induction hj with
    | single hij => exact hlater _ _ hij
    | tail _ hjk ih => exact Nat.lt_trans ih (hlater _ _ hjk)
  exact Nat.lt_irrefl i (hlt i hcircle)

/-- Without circles there is a live box that no box holds, if there is a live box at all. -/
theorem Acyclic.exists_unheld {h : Heap} (ha : h.Acyclic) {id : Nat} (hid : h.isLive id = true) :
    ∃ top, h.isLive top = true ∧ ∀ i, ¬h.Holds i top := by
  -- boxes have numbers below the next one, so there are finitely many
  let above : Fin h.nextId → Fin h.nextId → Prop := fun i j => Relation.TransGen h.Holds i j
  have htrans : IsTrans (Fin h.nextId) above := ⟨fun _ _ _ hij hjk => hij.trans hjk⟩
  have hirrefl : Std.Irrefl above := ⟨fun i => ha i⟩
  have hwell : WellFounded above := Finite.wellFounded_of_trans_of_irrefl above
  have hbound : ∀ {i}, h.isLive i = true → i < h.nextId := by
    intro i hi
    obtain ⟨cell, hcell⟩ := isLive_iff.mp hi
    exact lt_nextId_of_cell? hcell
  obtain ⟨top, htop, hleast⟩ := hwell.has_min {i | h.isLive i = true} ⟨⟨id, hbound hid⟩, hid⟩
  refine ⟨top, htop, ?_⟩
  intro i hi
  exact hleast ⟨i, hbound hi.isLive⟩ hi.isLive (Relation.TransGen.single hi)

/-- A heap without circles is empty if there are no handles outside. -/
theorem Ledger.not_live_of_acyclic {h : Heap} (hl : h.Ledger []) (ha : h.Acyclic) (id : Nat) :
    h.isLive id = false := by
  rw [← Bool.not_eq_true]
  intro hlive
  obtain ⟨top, htop, hunheld⟩ := ha.exists_unheld hlive
  obtain ⟨v, hv, rfl⟩ := tally_pos_iff.mp (hl.isLive_iff.mp htop)
  obtain ⟨i, hi⟩ := holds_of_owned hv
  exact hunheld i hi

end Heap

namespace Client

/-! ## Giving up handles

  Only dropping and releasing. Contents never change meanwhile, so no circle can come about. -/

/-- The call gives up a handle and does nothing else. -/
def GivesUp : Call → Prop
  | .drop _ | .release .. => True
  | _ => False

/-- From the first client one comes to the second by giving up handles, in some order. -/
inductive GaveUp (c : Client) : Client → Prop where
  | refl : GaveUp c c
  | step {d : Client} {call : Call} : GaveUp c d → GivesUp call → d.Allows call →
      GaveUp c (d.step call)

/-- Giving up a handle makes no content and changes none. -/
theorem content?_of_givesUp {c : Client} {call : Call} (hg : GivesUp call) {id : Nat}
    {content : Content} (hc : (c.step call).machine.heap.content? id = some content) :
    c.machine.heap.content? id = some content := by
  -- Only handles are given up, so a content that is left was there.
  have hdropped : ∀ {v logger}, ({ c.machine with
      heap := c.machine.heap.patch { dropped := [v] }, logger } : Machine).heap.content? id =
        some content → c.machine.heap.content? id = some content := by
    intro v logger h
    exact Heap.content?_dropAll h
  unfold step at hc
  cases hperform : call.perform c.machine with
  | error f m =>
    rw [hperform] at hc
    have hsame : m = c.machine := call.restores c.machine f m hperform
    rw [← hsame]
    exact hc
  -- Of the operations that succeed only these two give up a handle.
  | ok gained m =>
    rw [hperform] at hc
    cases call with
    | drop v =>
      obtain ⟨logger, hok⟩ := Machine.does_drop (m := c.machine) v
      have hboth := (run_map hok fun _ => ([] : List Handle)).symm.trans hperform
      obtain ⟨-, rfl⟩ := EStateM.Result.ok.inj hboth
      exact hdropped hc
    | release v deep =>
      have hdoes := Machine.does_release (m := c.machine) v deep
      unfold Plan.release at hdoes
      split at hdoes
      · have hboth := (run_map_error hdoes fun _ => ([] : List Handle)).symm.trans hperform
        cases hboth
      · obtain ⟨logger, hok⟩ := hdoes
        have hboth := (run_map hok fun _ => ([] : List Handle)).symm.trans hperform
        obtain ⟨-, rfl⟩ := EStateM.Result.ok.inj hboth
        exact hdropped hc
    | _ => exact hg.elim

variable {c d : Client}

/-- Giving handles up is one of the things that calls can do. -/
theorem GaveUp.reachable (hr : Reachable c) (hg : GaveUp c d) : Reachable d := by
  induction hg with
  | refl => exact hr
  | step _ _ hallow ih => exact ih.step hallow

/-- No circle comes about while handles are given up. -/
theorem GaveUp.acyclic (hg : GaveUp c d) (ha : c.machine.heap.Acyclic) :
    d.machine.heap.Acyclic := by
  induction hg with
  | refl => exact ha
  | step _ hcall _ ih => exact ih.mono fun _ _ hc => content?_of_givesUp hcall hc

/-- Whatever a client still holds it can give up: by dropping, if in no other way. -/
theorem GaveUp.exists_all (hg : GaveUp c d) :
    ∃ d', GaveUp c d' ∧ d'.held = [] ∧ d'.lost = d.lost := by
  -- by the handles still held
  induction hheld : d.held generalizing d with
  | nil => exact ⟨d, hg, hheld, rfl⟩
  | cons v rest ih =>
    have hallow : d.Allows (.drop v) := by
      refine ⟨?_, List.forall_mem_nil _⟩
      intro w hw
      rw [List.mem_singleton.mp hw, hheld]
      exact List.mem_cons_self
    have hkept : (d.step (.drop v)).held = rest := by
      show d.held.erase v = rest
      rw [hheld, List.erase_cons_head]
    have hgives : GivesUp (.drop v) := trivial
    have hgave : GaveUp c (d.step (.drop v)) := hg.step hgives hallow
    obtain ⟨d', hg', hnone, hsame⟩ := ih hgave hkept
    exact ⟨d', hg', hnone, hsame⟩

/-- **No box is leaked.**  If no release failed and no live box holds itself, directly or through
others, then all boxes are freed once all handles are given up, in whatever order and whether by
dropping or by releasing them.  And there always is a way to give them up. -/
theorem Reachable.nothing_left (hr : Reachable c) (hlost : c.lost = [])
    (ha : c.machine.heap.Acyclic) :
    (∀ d, GaveUp c d → d.held = [] → d.lost = [] → ∀ id, d.isLive id = false) ∧
      ∃ d, GaveUp c d ∧ d.held = [] ∧ d.lost = [] := by
  refine ⟨?_, ?_⟩
  · intro d hg hheld hnone id
    have hhealthy : d.machine.heap.Healthy (d.held ++ d.lost) := (hg.reachable hr).healthy
    rw [hheld, hnone] at hhealthy
    exact hhealthy.ledger.not_live_of_acyclic (hg.acyclic ha) id
  · obtain ⟨d, hg, hheld, hsame⟩ := (GaveUp.refl : GaveUp c c).exists_all
    exact ⟨d, hg, hheld, hsame.trans hlost⟩

/-- A list that holds a set and a number, where the set holds the number as well. -/
theorem nothing_left_shared : ∃ c : Client, Reachable c ∧ c.lost = [] ∧
    c.machine.heap.Acyclic ∧ c.isLive 3 = true ∧
      (∀ d, GaveUp c d → d.held = [] → d.lost = [] → ∀ id, d.isLive id = false) ∧
      ∃ d, GaveUp c d ∧ d.held = [] ∧ d.lost = [] := by
  let made := ((({ machine := {} } : Client).step (.newList 0)).step (.newSet .none)).step
    (.boxInt 7)
  let added := made.step (.setAdd ⟨2, .set⟩ ⟨3, .int 7⟩)
  let nested := added.step (.listAppend ⟨1, .list⟩ ⟨2, .set⟩)
  let filled := nested.step (.listAppend ⟨1, .list⟩ ⟨3, .int 7⟩)
  have hstart : Reachable { machine := {} } := Reachable.start {} .silent (1 <<< 50)
  have hmade : Reachable made :=
    ((hstart.step ⟨by decide, by decide⟩).step ⟨by decide, by decide⟩).step
      ⟨by decide, by decide⟩
  have hadded : Reachable added := hmade.step ⟨by decide +kernel, List.forall_mem_nil _⟩
  have hnested : Reachable nested := hadded.step ⟨by decide +kernel, List.forall_mem_nil _⟩
  have hfilled : Reachable filled := hnested.step ⟨by decide +kernel, List.forall_mem_nil _⟩
  -- the boxes were made in the order in which they are held
  have hnext : filled.machine.heap.nextId = 4 := by
    decide +kernel
  have hall : ∀ i < 4, ∀ content ∈ filled.machine.heap.content? i,
      ∀ v ∈ content.handles, i < v.id := by
    decide +kernel
  have hlater : ∀ i j, filled.machine.heap.Holds i j → i < j := by
    rintro i j ⟨content, hcontent, v, hv, rfl⟩
    obtain ⟨cell, hcell, -⟩ := Heap.content?_eq_some.mp hcontent
    have hi : i < 4 := hnext ▸ Heap.lt_nextId_of_cell? hcell
    exact hall i hi content hcontent v hv
  have hacyclic := Heap.acyclic_of_lt hlater
  have hlost : filled.lost = [] := by
    decide +kernel
  have hlive : filled.isLive 3 = true := by
    decide +kernel
  exact ⟨filled, hfilled, hlost, hacyclic, hlive, Reachable.nothing_left hfilled hlost hacyclic⟩

end Client

end BoxRuntime
