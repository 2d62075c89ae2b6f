/-
  A box has one identity.

  All handles of a box are the same: whoever holds one, and wherever it came from, it carries the
  number of the box and the datum that the box was made with.  And the content of a box is of the
  kind that its datum says: a box called a list has a list.  Nothing in the machine checks that; it
  is so because a number is given out once, when the box is made (`Call.made`), and handles are only
  ever copied.

  The main result is `Client.Reachable.identified`.  A call that makes a box keeps it, because the
  number is new (`Identified.step_of_some`).  Any other call keeps it, because it only copies
  handles: those that it gives it has found (`Call.gives`), and those that it puts into a container
  it was made with (`Content.mem_after`).
-/
import BoxRuntime.Proofs.Machine.Runs

namespace BoxRuntime

/-- The content of a box is of the kind that the datum says. -/
def Content.Fits (datum : Datum) : Content → Prop
  | fixed => datum.tag.isContainer = false
  | list _ => datum = .list
  | set _ => datum = .set
  | map _ => datum = .map

/-- What is added to a content does not change its kind. -/
theorem Content.Fits.after {datum : Datum} {content : Content} (h : content.Fits datum)
    (limit id : Nat) (calls : List Call) : (content.after limit id calls).Fits datum := by
  cases content <;> exact h

/-! ## What calls make

  Six operations make a box, and a seventh boxes a length. The number is the next one, and the
  content is empty and of the kind that the datum says. -/

/-- The box that a call makes, if it makes one. -/
def Call.made (m : Machine) : Call → Option (Datum × Content)
  -- Each as the operation makes it; what fails, and what only copies handles, makes nothing.
  | boxString text => some (.string text, .fixed)
  | boxInt n => some (.int n, .fixed)
  | emptyBox tag => (Datum.ofTag tag).toOption.map fun datum => (datum, .fixed)
  | newList hint => (GrowList.ofHint m.slotLimit hint).toOption.map fun slots => (.list, .list slots)
  | newSet elementType => some (.set, .set (.new elementType))
  | newMap keyType => some (.map, .map (.new keyType))
  | lengthOf v =>
    (Plan.length m.heap v).toOption.map fun n => (.int (Int64.ofNat n), .fixed)
  | _ => none

variable {m : Machine} {call : Call} {datum : Datum} {content : Content}

/-- The plan of a call that makes a box. -/
theorem Machine.Boxes.made {op : Op Handle} {plan : Except Fault (Datum × Content)}
    (h : m.Boxes op plan) (hplan : plan.toOption = some (datum, content)) :
    ((fun v => [v]) <$> op) m =
      .ok [⟨m.heap.nextId, datum⟩] { m with heap := (m.heap.alloc datum content).2 } := by
  cases plan with
  | error f => cases hplan
  | ok r =>
    obtain rfl := Option.some.inj hplan
    exact run_map h _

open Machine in
/-- It makes that box, under the next number, and gives a handle of it. -/
theorem Call.perform_of_made (h : call.made m = some (datum, content)) :
    call.perform m =
      .ok [⟨m.heap.nextId, datum⟩] { m with heap := (m.heap.alloc datum content).2 } := by
  -- Those that cannot fail, and those that do not make a box if they do.
  cases call with
  | boxString text => exact (boxes_newBox _ _).made h
  | boxInt n => exact (boxes_newBox _ _).made h
  | emptyBox tag =>
    refine (boxes_emptyBox tag).made ?_
    rw [← h, made]
    cases Datum.ofTag tag <;> rfl
  | newList hint =>
    refine (boxes_newList hint).made ?_
    rw [← h, made]
    cases (GrowList.ofHint m.slotLimit hint : Except Fault (GrowList Handle)) <;> rfl
  | newSet elementType => exact (boxes_newBox _ _).made h
  | newMap keyType => exact (boxes_newBox _ _).made h
  | lengthOf v =>
    refine (boxes_lengthOf v).made ?_
    rw [← h, made]
    cases Plan.length m.heap v <;> rfl
  | _ => cases h

/-- A box that is made is empty, and of its kind. -/
theorem Call.fits_of_made (h : call.made m = some (datum, content)) :
    content.Fits datum ∧ content.handles = [] := by
  -- Contents at the start hold nothing and are of the right kind.
  have hmade : ∀ {d : Datum} {c : Content}, (d, c) = (datum, content) →
      c.Fits d ∧ c.handles = [] → content.Fits datum ∧ content.handles = [] := by
    intro d c hpair hc
    obtain ⟨rfl, rfl⟩ := Prod.mk.inj hpair
    exact hc
  cases call with
  | boxString text => exact hmade (Option.some.inj h) ⟨rfl, rfl⟩
  | boxInt n => exact hmade (Option.some.inj h) ⟨rfl, rfl⟩
  | emptyBox tag =>
    obtain ⟨d, hd, hpair⟩ := Option.map_eq_some_iff.mp h
    refine hmade hpair ⟨?_, rfl⟩
    cases tag <;> cases hd <;> rfl
  | newList hint =>
    obtain ⟨slots, hslots, hpair⟩ := Option.map_eq_some_iff.mp h
    refine hmade hpair ⟨rfl, ?_⟩
    cases hhint : (GrowList.ofHint m.slotLimit hint : Except Fault (GrowList Handle)) with
    | error f =>
      rw [hhint] at hslots
      cases hslots
    | ok slots' =>
      rw [hhint] at hslots
      obtain rfl := Option.some.inj hslots
      exact (blank_list hhint).owns_nothing
  | newSet elementType =>
    exact hmade (Option.some.inj h) ⟨rfl, (blank_set elementType).owns_nothing⟩
  | newMap keyType => exact hmade (Option.some.inj h) ⟨rfl, (blank_map keyType).owns_nothing⟩
  | lengthOf v =>
    obtain ⟨n, -, hpair⟩ := Option.map_eq_some_iff.mp h
    exact hmade hpair ⟨rfl, rfl⟩
  | _ => cases h

/-! ## What calls give

  All others give handles that they were given, or that they found in a container, or that a weak
  handle stood for. -/

/-- The handle is one that the call was made with, or a container has it. -/
def Call.Finds (m : Machine) (call : Call) (v : Handle) : Prop :=
  v ∈ call.operands ∨ v ∈ call.watched ∨
    ∃ id content, m.heap.content? id = some content ∧ v ∈ content.handles

/-- A call that makes no box gives handles that it finds. -/
structure Call.Gives (m : Machine) (call : Call) (r : EStateM.Result Fault Machine (List Handle)) :
    Prop where
  nextId_eq : (leftBy r).heap.nextId = m.heap.nextId
  found : ∀ gained m', r = .ok gained m' → ∀ v ∈ gained, call.Finds m v

namespace Machine

variable {α : Type}

/-- An operation gives out what its plan finds. -/
theorem gives_of_does {op : Op α} {plan : Except Fault (α × Patch)} (given : α → List Handle)
    (hd : m.Does op plan)
    (hfound : ∀ a p, plan = .ok (a, p) → ∀ v ∈ given a, call.Finds m v) :
    call.Gives m ((given <$> op) m) := by
  cases plan with
  -- A call that fails gives nothing.
  | error f =>
    rw [run_map_error hd given]
    exact ⟨rfl, fun _ _ h => nomatch h⟩
  | ok r =>
    obtain ⟨a, p⟩ := r
    obtain ⟨logger, hok⟩ := hd
    rw [run_map hok given]
    refine ⟨m.heap.nextId_patch p, fun gained m' h => ?_⟩
    obtain ⟨rfl, -⟩ := EStateM.Result.ok.inj h
    exact hfound a p rfl

/-- A call that could have made a box and did not gives nothing. -/
theorem gives_of_boxes {op : Op Handle} {plan : Except Fault (Datum × Content)}
    (hd : m.Boxes op plan) (hnone : plan.toOption = none) :
    call.Gives m (((fun v => [v]) <$> op) m) := by
  cases plan with
  | error f =>
    rw [run_map_error hd]
    exact ⟨rfl, fun _ _ h => nomatch h⟩
  | ok r => cases hnone

theorem found_nothing {v : Handle} (h : v ∈ ([] : List Handle)) : call.Finds m v :=
  absurd h List.not_mem_nil

/-- What is picked from a list is one of its elements. -/
theorem found_of_pick {list : Handle} {slots : GrowList Handle} {i : Nat} {operation : String}
    (hslots : m.heap.listOf operation list = .ok slots) {v : Handle}
    (hv : v ∈ (Plan.pick slots i).1.toList) : call.Finds m v := by
  refine Or.inr (Or.inr ⟨list.id, .list slots, Heap.content?_of_listOf hslots, ?_⟩)
  unfold Plan.pick at hv
  -- Past the end nothing is picked.
  cases hget : slots.get? i with
  | none =>
    rw [hget] at hv
    exact absurd hv List.not_mem_nil
  | some w =>
    rw [hget] at hv
    rw [List.mem_singleton.mp hv]
    exact List.mem_of_getElem? ((Array.getElem?_toList).trans hget)

/-- A value that is found in a map is stored there, under a key that is equal. -/
theorem found_of_mapGet {map key v : Handle} {p : Patch}
    (hs : ∀ id content, m.heap.content? id = some content → content.Sound)
    (hp : Plan.mapGet m.heap map key = .ok (v, p)) : call.Finds m v := by
  obtain ⟨tree, htree, hp⟩ := Plan.bind_eq_ok.mp hp
  obtain ⟨w, hw, hp⟩ := Plan.bind_eq_ok.mp hp
  obtain ⟨rfl, -⟩ := Prod.mk.inj (Except.ok.inj hp)
  -- The map that was read has the entry, and the value is the item of it.
  have hcontent := Heap.content?_of_mapOf htree
  obtain ⟨e, he, rfl⟩ := Plan.mem_of_valueOf (hs _ _ hcontent) hw
  refine Or.inr (Or.inr ⟨map.id, .map tree, hcontent, ?_⟩)
  rw [Content.handles, SearchTree.toList_entries]
  exact List.mem_flatMap.mpr ⟨e, he, by simp⟩

/-- What an int box picks is an element of the list. -/
theorem found_of_listIndex {list index v : Handle} {p : Patch}
    (hp : Plan.listIndex m.heap list index = .ok (v, p)) : call.Finds m v := by
  unfold Plan.listIndex at hp
  -- Every other outcome is a fault, so an element was picked.
  cases hn : index.int? with
  | none =>
    rw [hn] at hp
    cases hp
  | some n =>
    rw [hn] at hp
    dsimp only at hp
    by_cases hneg : n.toInt < 0
    · rw [if_pos hneg] at hp
      cases hp
    · rw [if_neg hneg] at hp
      obtain ⟨slots, hslots, hp⟩ := Plan.bind_eq_ok.mp hp
      have hpicked : ∀ w ∈ (Plan.pick slots n.toInt.toNat).1.toList, call.Finds m w :=
        fun w hw => found_of_pick hslots hw
      split at hp
      · rename_i hpick
        obtain ⟨rfl, -⟩ := Prod.mk.inj (Except.ok.inj hp)
        rw [hpick] at hpicked
        exact hpicked _ List.mem_cons_self
      · cases hp

end Machine

open Machine in
/-- **Calls only copy handles**, unless they make a box. -/
theorem Call.gives (hs : ∀ id content, m.heap.content? id = some content → content.Sound)
    (hmade : call.made m = none) : call.Gives m (call.perform m) := by
  -- Of those that make boxes only failures are left.
  cases call with
  | boxString text => cases hmade
  | boxInt n => cases hmade
  | newSet elementType => cases hmade
  | newMap keyType => cases hmade
  | emptyBox tag =>
    refine gives_of_boxes (boxes_emptyBox tag) ?_
    rw [← hmade, made]
    cases Datum.ofTag tag <;> rfl
  | newList hint =>
    refine gives_of_boxes (boxes_newList hint) ?_
    rw [← hmade, made]
    cases (GrowList.ofHint m.slotLimit hint : Except Fault (GrowList Handle)) <;> rfl
  | lengthOf v =>
    refine gives_of_boxes (boxes_lengthOf v) ?_
    rw [← hmade, made]
    cases Plan.length m.heap v <;> rfl
  | retain v => exact gives_of_does _ (does_retain v) fun _ _ _ w hw => Or.inl hw
  | drop v => exact gives_of_does _ (does_drop v) fun _ _ _ _ => found_nothing
  | release v deep => exact gives_of_does _ (does_release v deep) fun _ _ _ _ => found_nothing
  -- An upgrade gives the handle that it was asked with.
  | upgrade v =>
    refine gives_of_does _ (does_upgrade v) fun found p hp w hw => Or.inr (Or.inl ?_)
    unfold Plan.upgrade at hp
    split at hp
    · obtain ⟨rfl, -⟩ := Prod.mk.inj (Except.ok.inj hp)
      exact hw
    · obtain ⟨rfl, -⟩ := Prod.mk.inj (Except.ok.inj hp)
      exact absurd hw List.not_mem_nil
  | listAppend list v => exact gives_of_does _ (does_listAppend list v) fun _ _ _ _ => found_nothing
  | listGet list i =>
    refine gives_of_does _ (does_listGet list i) fun found p hp w hw => ?_
    obtain ⟨slots, hslots, hp⟩ := Plan.bind_eq_ok.mp hp
    have hpick : (Plan.pick slots i).1 = found := congrArg Prod.fst (Except.ok.inj hp)
    exact found_of_pick hslots (hpick ▸ hw)
  | setAdd set v => exact gives_of_does _ (does_setAdd set v) fun _ _ _ _ => found_nothing
  | setContains set v => exact gives_of_does _ (does_setContains set v) fun _ _ _ _ => found_nothing
  -- Reading hands out what a container holds.
  | setElements set =>
    refine gives_of_does _ (does_setElements set) fun values p hp w hw => ?_
    obtain ⟨tree, htree, hp⟩ := Plan.bind_eq_ok.mp hp
    obtain ⟨rfl, -⟩ := Prod.mk.inj (Except.ok.inj hp)
    exact Or.inr (Or.inr ⟨set.id, .set tree, Heap.content?_of_setOf htree, hw⟩)
  | mapAdd map key value =>
    exact gives_of_does _ (does_mapAdd map key value) fun _ _ _ _ => found_nothing
  | mapGet map key =>
    refine gives_of_does _ (does_mapGet map key) fun v p hp w hw => ?_
    rw [List.mem_singleton.mp hw]
    exact found_of_mapGet hs hp
  | mapEntries map =>
    refine gives_of_does _ (does_mapEntries map) fun pairs p hp w hw => ?_
    obtain ⟨tree, htree, hp⟩ := Plan.bind_eq_ok.mp hp
    obtain ⟨rfl, -⟩ := Prod.mk.inj (Except.ok.inj hp)
    rw [List.flatMap_map] at hw
    exact Or.inr (Or.inr ⟨map.id, .map tree, Heap.content?_of_mapOf htree, hw⟩)
  | indexOf collection key =>
    refine gives_of_does _ (does_indexOf collection key) fun v p hp w hw => ?_
    rw [List.mem_singleton.mp hw]
    unfold Plan.indexOf at hp
    split at hp
    · exact found_of_listIndex hp
    · exact found_of_mapGet hs hp
    · cases hp
  | treeStats v => exact gives_of_does _ (does_treeStats v) fun _ _ _ _ => found_nothing

/-! ## What calls put into containers

  What a container holds after a call it held before, or the call was given it. -/

namespace SearchTree

variable {shape : Shape} {β : Type} {t t' : SearchTree shape β} {e : Entry β}

/-- After an insertion a tree has the keys and items that it had, and those inserted. -/
theorem mem_of_keep (hs : t.Sound) {x : Entry β} (hx : x ∈ (t.keep e).toList) :
    (x.key = e.key ∨ ∃ y ∈ t.toList, x.key = y.key) ∧
      (x.item = e.item ∨ ∃ y ∈ t.toList, x.item = y.item) := by
  -- A refused entry leaves the tree.
  cases h : t.insert e with
  | error f left =>
    rw [keep_of_error h] at hx
    exact ⟨Or.inr ⟨x, hx, rfl⟩, Or.inr ⟨x, hx, rfl⟩⟩
  | ok outcome grown =>
    rw [keep_of_ok h] at hx
    exact (change_of_insert hs h).1.mem_parts hx

theorem key_of_keep (hs : t.Sound) {k : Handle} (hk : k ∈ (t.keep e).toList.map Entry.key) :
    k = e.key ∨ k ∈ t.toList.map Entry.key := by
  obtain ⟨x, hx, rfl⟩ := List.mem_map.mp hk
  rcases (mem_of_keep hs hx).1 with hnew | ⟨y, hy, hold⟩
  · exact Or.inl hnew
  · exact Or.inr (List.mem_map.mpr ⟨y, hy, hold.symm⟩)

theorem item_of_keep (hs : t.Sound) {b : β} (hb : b ∈ (t.keep e).toList.map Entry.item) :
    b = e.item ∨ b ∈ t.toList.map Entry.item := by
  obtain ⟨x, hx, rfl⟩ := List.mem_map.mp hb
  rcases (mem_of_keep hs hx).2 with hnew | ⟨y, hy, hold⟩
  · exact Or.inl hnew
  · exact Or.inr (List.mem_map.mpr ⟨y, hy, hold.symm⟩)

end SearchTree

/-- After a push a list has the elements that it had, and the one pushed. -/
theorem GrowList.mem_of_keep {α : Type} {limit : Nat} {slots : GrowList α} {a b : α}
    (h : b ∈ (slots.keep limit a).toList) : b ∈ slots.toList ∨ b = a := by
  cases hr : slots.reservation limit with
  | error f =>
    rw [keep_of_reservation_error hr] at h
    exact Or.inl h
  | ok capacity =>
    rw [keep_of_reservation hr, toList_store] at h
    rcases List.mem_append.mp h with h | h
    · exact Or.inl h
    · exact Or.inr (List.mem_singleton.mp h)

theorem Content.mem_handles_map {tree : MapTree} {v : Handle} :
    v ∈ (map tree).handles ↔ v ∈ tree.toList.map Entry.key ∨ v ∈ tree.toList.map Entry.item := by
  rw [handles, SearchTree.toList_entries, List.mem_flatMap, List.mem_map, List.mem_map]
  constructor
  · rintro ⟨e, he, hv⟩
    -- Keys and items are owned in turn, so a handle is one of a pair.
    have hpair : v = e.key ∨ v = e.item := by simpa using hv
    rcases hpair with rfl | rfl
    · exact Or.inl ⟨e, he, rfl⟩
    · exact Or.inr ⟨e, he, rfl⟩
  · rintro (⟨e, he, rfl⟩ | ⟨e, he, rfl⟩)
    · exact ⟨e, he, by simp⟩
    · exact ⟨e, he, by simp⟩

/-- What a container has after a call, it had before, or the call was made with it. -/
theorem Content.mem_after (hs : content.Sound) (limit id : Nat) {v : Handle}
    (hv : v ∈ (content.after limit id [call]).handles) :
    v ∈ content.handles ∨ v ∈ call.operands := by
  -- Content and call have to be of one kind, and the call has to be for this container.
  cases content with
  | fixed => exact Or.inl hv
  | list slots =>
    rw [after, List.flatMap_singleton] at hv
    cases call with
    | listAppend list w =>
      by_cases hid : list.id = id
      · rw [Call.appended, if_pos hid] at hv
        rcases GrowList.mem_of_keep hv with hold | rfl
        · exact Or.inl hold
        · exact Or.inr (by simp [Call.operands])
      · rw [Call.appended, if_neg hid] at hv
        exact Or.inl hv
    | _ => exact Or.inl hv
  | set tree =>
    rw [after, List.flatMap_singleton] at hv
    cases call with
    | setAdd set w =>
      by_cases hid : set.id = id
      · rw [Call.added, if_pos hid] at hv
        rw [handles, SearchTree.toList_entries] at hv ⊢
        rcases SearchTree.key_of_keep hs hv with rfl | hold
        · exact Or.inr (by simp [Call.operands])
        · exact Or.inl hold
      · rw [Call.added, if_neg hid] at hv
        exact Or.inl hv
    | _ => exact Or.inl hv
  | map tree =>
    rw [after, List.flatMap_singleton] at hv
    cases call with
    | mapAdd map key value =>
      by_cases hid : map.id = id
      · rw [Call.stored, if_pos hid] at hv
        rw [mem_handles_map] at hv ⊢
        rcases hv with hv | hv
        · rcases SearchTree.key_of_keep hs hv with rfl | hold
          · exact Or.inr (by simp [Call.operands])
          · exact Or.inl (Or.inl hold)
        · rcases SearchTree.item_of_keep hs hv with rfl | hold
          · exact Or.inr (by simp [Call.operands])
          · exact Or.inl (Or.inr hold)
      · rw [Call.stored, if_neg hid] at hv
        exact Or.inl hv
    | _ => exact Or.inl hv

/-! ## Clients

  The invariant, by one lemma for calls that make a box and one for all others. -/

namespace Client

variable {c : Client}

/-- Every box that the client has to do with has one identity. -/
structure Identified (c : Client) : Prop where
  /-- The client was given what it holds, and what containers hold. -/
  held_known : ∀ v ∈ c.held, v ∈ c.known
  content_known : ∀ id content, c.machine.heap.content? id = some content →
    ∀ v ∈ content.handles, v ∈ c.known
  known_lt : ∀ v ∈ c.known, v.id < c.machine.heap.nextId
  /-- All handles of one box are the same. -/
  known_eq : ∀ v ∈ c.known, ∀ w ∈ c.known, v.id = w.id → v = w
  /-- A box has the kind of content that its handles say. -/
  fits : ∀ v ∈ c.known, ∀ content, c.machine.heap.content? v.id = some content →
    content.Fits v.datum
  /-- Every box that is there was made for the client. -/
  has_handle : ∀ id, c.isLive id = true → ∃ v ∈ c.known, v.id = id

/-- What a call finds is the client's own or in a live box, so it is known. -/
theorem Identified.finds (hc : c.Identified) (hallow : c.Allows call) {v : Handle}
    (hv : call.Finds c.machine v) : v ∈ c.known := by
  rcases hv with hin | hin | ⟨id, content, hcontent, hin⟩
  · exact hc.held_known v (hallow.1 v hin)
  · exact hallow.2 v hin
  · exact hc.content_known id content hcontent v hin

/-- What a client keeps it had. -/
theorem mem_of_kept {v : Handle} (hv : v ∈ c.kept call) : v ∈ c.held := by
  cases call with
  | drop w => exact List.mem_of_mem_erase hv
  | release w deep => exact List.mem_of_mem_erase hv
  | _ => exact hv

/-- A call that makes no box makes the client acquainted with none. -/
theorem Identified.step_of_none (hc : c.Identified) (hh : c.Healthy) (hallow : c.Allows call)
    (hmade : call.made c.machine = none) : (c.step call).Identified := by
  have hgives := call.gives hh.sound hmade
  have hnext : (c.step call).machine.heap.nextId = c.machine.heap.nextId := by
    rw [machine_step]
    exact hgives.nextId_eq
  have hsame : (∀ v, v ∈ (c.step call).known ↔ v ∈ c.known) ∧
      ∀ v ∈ (c.step call).held, v ∈ c.known := by
    unfold Client.step
    cases hresult : call.perform c.machine with
    | error f m' =>
      exact ⟨fun _ => Iff.rfl, fun v hv => hc.held_known v (mem_of_kept hv)⟩
    | ok gained m' =>
      have hgained : ∀ v ∈ gained, v ∈ c.known :=
        fun v hv => hc.finds hallow (hgives.found gained m' hresult v hv)
      refine ⟨fun v => ⟨fun hv => ?_, List.mem_append_right gained⟩, fun v hv => ?_⟩
      · exact (List.mem_append.mp hv).elim (hgained v) id
      · exact (List.mem_append.mp hv).elim (hgained v) fun hv => hc.held_known v (mem_of_kept hv)
  obtain ⟨hknown, hheld⟩ := hsame
  -- what a box has now comes from what it had and from the call
  have hcontent : ∀ id content, (c.step call).machine.heap.content? id = some content →
      ∃ old, c.machine.heap.content? id = some old ∧
        content = old.after c.machine.slotLimit id [call] := by
    intro id content hafter
    obtain ⟨cell, hcell, -⟩ := Heap.content?_eq_some.mp hafter
    have hid : id < c.machine.heap.nextId := hnext ▸ Heap.lt_nextId_of_cell? hcell
    rw [machine_step] at hafter
    exact (Machine.turns_perform call hid).content content hafter
  refine ⟨fun v hv => (hknown v).mpr (hheld v hv), ?_, ?_, ?_, ?_, ?_⟩
  · intro id content hafter v hv
    obtain ⟨old, hold, rfl⟩ := hcontent id content hafter
    rw [hknown]
    rcases Content.mem_after (hh.sound id old hold) _ id hv with hin | hin
    · exact hc.content_known id old hold v hin
    · exact hc.held_known v (hallow.1 v hin)
  · intro v hv
    rw [hnext]
    exact hc.known_lt v ((hknown v).mp hv)
  · intro v hv w hw
    exact hc.known_eq v ((hknown v).mp hv) w ((hknown w).mp hw)
  · intro v hv content hafter
    obtain ⟨old, hold, rfl⟩ := hcontent v.id content hafter
    exact (hc.fits v ((hknown v).mp hv) old hold).after _ _ _
  · intro id hlive
    obtain ⟨cell, hcell⟩ := Heap.isLive_iff.mp hlive
    have hid : id < c.machine.heap.nextId := hnext ▸ Heap.lt_nextId_of_cell? hcell
    have hbefore := (hh.step hallow).2.live id hid hlive
    obtain ⟨v, hv, hvid⟩ := hc.has_handle id hbefore
    exact ⟨v, (hknown v).mpr hv, hvid⟩

/-- A call that makes a box gives its only handle, and changes nothing else. -/
theorem step_of_made {datum : Datum} {content : Content}
    (hmade : call.made c.machine = some (datum, content)) :
    c.step call =
      { machine := { c.machine with heap := (c.machine.heap.alloc datum content).2 }
        held := ⟨c.machine.heap.nextId, datum⟩ :: c.kept call
        lost := c.lost
        known := ⟨c.machine.heap.nextId, datum⟩ :: c.known } := by
  rw [Client.step, Call.perform_of_made hmade]
  rfl

/-- The new box has its content, and all others have theirs. -/
theorem content?_of_made {datum : Datum} {content : Content}
    (hmade : call.made c.machine = some (datum, content)) (id : Nat) :
    (c.step call).machine.heap.content? id =
      if id = c.machine.heap.nextId then some content else c.machine.heap.content? id := by
  rw [step_of_made hmade]
  show (c.machine.heap.alloc datum content).2.content? id = _
  rw [Heap.content?, Heap.cell?_alloc]
  split <;> rfl

/-- The number of a box that is made is one that no known handle has. -/
theorem Identified.step_of_some (hc : c.Identified) {datum : Datum} {content : Content}
    (hmade : call.made c.machine = some (datum, content)) : (c.step call).Identified := by
  obtain ⟨hfits, hempty⟩ := Call.fits_of_made hmade
  have hstep := step_of_made hmade
  let v : Handle := ⟨c.machine.heap.nextId, datum⟩
  -- The number of the new box is beyond all that are known.
  have hnew : ∀ w ∈ c.known, w.id ≠ v.id := fun w hw => Nat.ne_of_lt (hc.known_lt w hw)
  have hcontent : ∀ id, (c.step call).machine.heap.content? id =
      if id = v.id then some content else c.machine.heap.content? id := content?_of_made hmade
  have hknown : (c.step call).known = v :: c.known := by rw [hstep]
  have hold : ∀ id content', id ≠ v.id →
      (c.step call).machine.heap.content? id = some content' →
      c.machine.heap.content? id = some content' := by
    intro id content' hne h
    rwa [hcontent, if_neg hne] at h
  refine ⟨?_, ?_, ?_, ?_, ?_, ?_⟩
  · -- Every handle that is held is known.
    intro w hw
    rw [hstep] at hw ⊢
    rcases List.mem_cons.mp hw with rfl | hw
    · exact List.mem_cons_self
    · exact List.mem_cons_of_mem _ (hc.held_known w (mem_of_kept hw))
  · -- Every handle in a container is known; the new box holds none.
    intro id content' hafter w hw
    rw [hknown]
    by_cases hid : id = v.id
    · rw [hcontent, if_pos hid] at hafter
      obtain rfl := Option.some.inj hafter
      rw [hempty] at hw
      exact absurd hw List.not_mem_nil
    · exact List.mem_cons_of_mem _ (hc.content_known id content' (hold id content' hid hafter) w hw)
  · -- Known numbers were given out.
    intro w hw
    have hnext : (c.step call).machine.heap.nextId = c.machine.heap.nextId + 1 := by
      rw [hstep]
      exact Heap.nextId_alloc c.machine.heap datum content
    rw [hknown] at hw
    rw [hnext]
    rcases List.mem_cons.mp hw with rfl | hw
    · exact Nat.lt_succ_self _
    · exact Nat.lt_succ_of_lt (hc.known_lt w hw)
  · -- One number is one handle.
    intro w hw w' hw' hid
    rw [hknown] at hw hw'
    rcases List.mem_cons.mp hw with rfl | hw <;> rcases List.mem_cons.mp hw' with rfl | hw'
    · rfl
    · exact absurd hid.symm (hnew w' hw')
    · exact absurd hid (hnew w hw)
    · exact hc.known_eq w hw w' hw' hid
  · -- Contents fit.
    intro w hw content' hafter
    rw [hknown] at hw
    rcases List.mem_cons.mp hw with rfl | hw
    · rw [hcontent, if_pos rfl] at hafter
      obtain rfl := Option.some.inj hafter
      exact hfits
    · exact hc.fits w hw content' (hold w.id content' (hnew w hw) hafter)
  · -- Every live box has a handle.
    intro id hlive
    rw [hknown]
    by_cases hid : id = v.id
    · exact ⟨v, List.mem_cons_self, hid.symm⟩
    · have hbefore : c.isLive id = true := by
        obtain ⟨cell, hcell⟩ := Heap.isLive_iff.mp hlive
        have hafter := hold id cell.content hid (Heap.content?_eq_some.mpr ⟨cell, hcell, rfl⟩)
        obtain ⟨cell', hcell', -⟩ := Heap.content?_eq_some.mp hafter
        exact Heap.isLive_iff.mpr ⟨cell', hcell'⟩
      obtain ⟨w, hw, hwid⟩ := hc.has_handle id hbefore
      exact ⟨w, List.mem_cons_of_mem _ hw, hwid⟩

/-- **All handles of a box are the same, and the box is what they say**, in all states that a client
can reach. -/
theorem Reachable.identified (hr : Reachable c) : c.Identified := by
  induction hr with
  | start config logger slotLimit =>
    -- there are no boxes, and nobody knows one
    have hnone : ∀ id, ({} : Heap).cell? id = none := by
      intro id
      cases id <;> rfl
    refine ⟨List.forall_mem_nil _, ?_, List.forall_mem_nil _, List.forall_mem_nil _,
      List.forall_mem_nil _, ?_⟩
    · intro id content hcontent
      obtain ⟨cell, hcell, -⟩ := Heap.content?_eq_some.mp hcontent
      exact absurd hcell (by rw [hnone id]; exact nofun)
    · intro id hlive
      obtain ⟨cell, hcell⟩ := Heap.isLive_iff.mp hlive
      exact absurd hcell (by rw [hnone id]; exact nofun)
  | @step c call hr hallow ih =>
    cases hmade : call.made c.machine with
    | none => exact ih.step_of_none hr.healthy hallow hmade
    | some r => exact ih.step_of_some hmade

end Client

end BoxRuntime
