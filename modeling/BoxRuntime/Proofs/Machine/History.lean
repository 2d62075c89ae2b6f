/-
  What becomes of a container.

  Three operations change the content of a box that is there: one appends to a list, one adds to a
  set, one stores in a map.  They change the one container that they are called with and put the one
  element in; if they fail they change nothing.  All others leave every content alone, though they
  may free boxes.

  So the content of a box, for as long as the box is there, is what it was at first with the
  elements put in that later calls added to it (`Content.after`), whatever else was called in
  between and with whatever handles.  This is `turns_after`, by induction over the calls; the step
  is `turns_perform`, one case for each operation, and reads off its plan.
-/
import BoxRuntime.Proofs.Growth
import BoxRuntime.Proofs.Machine.Client

namespace BoxRuntime

/-! ## What calls add

  For a box with a given number, read off the calls alone. Calls for other boxes add nothing, and
  so do calls of the wrong kind. -/

namespace Call

/-- What a call appends to the list with a number. -/
def appended (id : Nat) : Call → List Handle
  | listAppend list v => if list.id = id then [v] else []
  | _ => []

/-- What a call adds to the set with a number. -/
def added (id : Nat) : Call → List (Entry Unit)
  | setAdd set v => if set.id = id then [{ key := v, item := () }] else []
  | _ => []

/-- What a call stores in the map with a number. -/
def stored (id : Nat) : Call → List (Entry Handle)
  | mapAdd map key value => if map.id = id then [{ key, item := value }] else []
  | _ => []

end Call

/-- The call adds nothing to the box with a number. -/
structure Call.Spares (call : Call) (id : Nat) : Prop where
  appended_eq : call.appended id = []
  added_eq : call.added id = []
  stored_eq : call.stored id = []

/-- The content of the box with a number after calls that may have added to it. -/
def Content.after (limit id : Nat) (calls : List Call) : Content → Content
  | fixed => fixed
  | list slots => list ((calls.flatMap (Call.appended id)).foldl (GrowList.keep limit) slots)
  | set tree => set (tree.insertAll (calls.flatMap (Call.added id)))
  | map tree => map (tree.insertAll (calls.flatMap (Call.stored id)))

theorem Content.after_nil (limit id : Nat) (content : Content) :
    content.after limit id [] = content := by
  cases content <;> rfl

/-- Calls act on a content one after another. -/
theorem Content.after_append (limit id : Nat) (calls later : List Call) (content : Content) :
    content.after limit id (calls ++ later) =
      (content.after limit id calls).after limit id later := by
  cases content with
  | fixed => rfl
  | list slots => rw [after, after, after, List.flatMap_append, List.foldl_append]
  | set tree =>
    rw [after, after, after, List.flatMap_append, SearchTree.insertAll, List.foldl_append]
    rfl
  | map tree =>
    rw [after, after, after, List.flatMap_append, SearchTree.insertAll, List.foldl_append]
    rfl

/-- A call that adds nothing to the box leaves its content. -/
theorem Call.Spares.after_eq {call : Call} {id : Nat} (h : call.Spares id) (limit : Nat)
    (content : Content) : content.after limit id [call] = content := by
  cases content with
  | fixed => rfl
  | list slots => rw [Content.after, List.flatMap_singleton, h.appended_eq, List.foldl_nil]
  | set tree =>
    rw [Content.after, List.flatMap_singleton, h.added_eq]
    rfl
  | map tree =>
    rw [Content.after, List.flatMap_singleton, h.stored_eq]
    rfl

/-! ## Patches and contents

  Only the revised content of a patch changes a content; handles that are made or given up do not.
  Most plans revise nothing (`Idle`). -/

/-- The content that a patch leaves a box with. -/
def Patch.contentOf (p : Patch) (id : Nat) (content : Content) : Content :=
  match p.revised with
  | some (v, new) => if id = v.id then new else content
  | none => content

/-- After a patch a box has the content it had, or the one that the patch puts there. -/
theorem Heap.content?_patch {h : Heap} {p : Patch} {id : Nat} {content : Content}
    (hc : (h.patch p).content? id = some content) :
    ∃ old, h.content? id = some old ∧ content = p.contentOf id old := by
  -- Handles that are given up may free the box and change nothing else, so it is enough to look
  -- before that.
  have hbefore := content?_dropAll hc
  unfold Patch.contentOf
  cases hr : p.revised with
  | none =>
    rw [hr, revise, content?_retainAll] at hbefore
    exact ⟨content, hbefore, rfl⟩
  | some r =>
    obtain ⟨v, new⟩ := r
    rw [hr, revise, content?_setContent, content?_retainAll] at hbefore
    -- The container whose content is new is this box or another.
    by_cases hsame : id = v.id
    · rw [if_pos hsame] at hbefore
      obtain ⟨old, hold, rfl⟩ := Option.map_eq_some_iff.mp hbefore
      exact ⟨old, hold, (if_pos hsame).symm⟩
    · rw [if_neg hsame] at hbefore
      exact ⟨content, hbefore, (if_neg hsame).symm⟩

/-- The content that a box has when an operation went by its plan. -/
def planned {α : Type} (id : Nat) (content : Content) : Except Fault (α × Patch) → Content
  | .ok (_, p) => p.contentOf id content
  | .error _ => content

/-- The plan has no new content for a container. -/
def Idle {α : Type} (plan : Except Fault (α × Patch)) : Prop :=
  ∀ a p, plan = .ok (a, p) → p.revised = none

/-- A plan that revises nothing leaves all contents. -/
theorem planned_of_idle {α : Type} {plan : Except Fault (α × Patch)} (h : Idle plan) (id : Nat)
    (content : Content) : planned id content plan = content := by
  cases plan with
  | error f => rfl
  | ok r =>
    obtain ⟨a, p⟩ := r
    rw [planned, Patch.contentOf, h a p rfl]

namespace Plan

variable {h : Heap}

/-- The operations that only look at boxes, or give handles up, revise nothing. -/
theorem release_idle (v : Handle) (deep : Bool) : Idle (release h v deep) := by
  intro n p hp
  unfold release at hp
  split at hp
  · cases hp
  · obtain ⟨-, rfl⟩ := Prod.mk.inj (Except.ok.inj hp)
    rfl

theorem upgrade_idle (v : Handle) : Idle (.ok (upgrade h v)) := by
  intro found p hp
  unfold upgrade at hp
  split at hp <;> cases hp <;> rfl

theorem pick_idle (slots : GrowList Handle) (i : Nat) : (pick slots i).2.revised = none := by
  unfold pick
  split <;> rfl

theorem listGet_idle (list : Handle) (i : Nat) : Idle (listGet h list i) := by
  intro found p hp
  obtain ⟨slots, -, hp⟩ := bind_eq_ok.mp hp
  have hpick := pick_idle slots i
  rw [Except.ok.inj hp] at hpick
  exact hpick

theorem setContains_idle (set v : Handle) : Idle (setContains h set v) := by
  intro found p hp
  obtain ⟨tree, -, hp⟩ := bind_eq_ok.mp hp
  obtain ⟨e, -, hp⟩ := bind_eq_ok.mp hp
  obtain ⟨-, rfl⟩ := Prod.mk.inj (Except.ok.inj hp)
  rfl

theorem setElements_idle (set : Handle) : Idle (setElements h set) := by
  intro values p hp
  obtain ⟨tree, -, hp⟩ := bind_eq_ok.mp hp
  obtain ⟨-, rfl⟩ := Prod.mk.inj (Except.ok.inj hp)
  rfl

theorem mapGet_idle (map key : Handle) : Idle (mapGet h map key) := by
  intro v p hp
  obtain ⟨tree, -, hp⟩ := bind_eq_ok.mp hp
  obtain ⟨w, -, hp⟩ := bind_eq_ok.mp hp
  obtain ⟨-, rfl⟩ := Prod.mk.inj (Except.ok.inj hp)
  rfl

theorem mapEntries_idle (map : Handle) : Idle (mapEntries h map) := by
  intro pairs p hp
  obtain ⟨tree, -, hp⟩ := bind_eq_ok.mp hp
  obtain ⟨-, rfl⟩ := Prod.mk.inj (Except.ok.inj hp)
  rfl

/-- Reading by an int box makes a handle of the element and touches no content. -/
theorem listIndex_idle (list index : Handle) : Idle (listIndex h list index) := by
  intro v p hp
  unfold listIndex at hp
  -- The index has to be an int, not negative, and in the range.
  split at hp
  · cases hp
  · rename_i n _
    by_cases hneg : n.toInt < 0
    · rw [if_pos hneg] at hp
      cases hp
    · rw [if_neg hneg] at hp
      obtain ⟨slots, -, hp⟩ := bind_eq_ok.mp hp
      have hpick := pick_idle slots n.toInt.toNat
      split at hp
      · rename_i hfound
        obtain ⟨-, rfl⟩ := Prod.mk.inj (Except.ok.inj hp)
        rw [hfound] at hpick
        exact hpick
      · cases hp

theorem indexOf_idle (collection key : Handle) : Idle (indexOf h collection key) := by
  unfold indexOf
  split
  · exact listIndex_idle collection key
  · exact mapGet_idle collection key
  · intro v p hp
    cases hp

theorem treeStats_idle (v : Handle) : Idle (treeStats h v) := by
  intro stats p hp
  unfold treeStats at hp
  split at hp <;> cases hp <;> rfl

/-! ### The three that add -/

variable {id : Nat} {content : Content}

/-- An operation on one container leaves the others as they are. -/
theorem planned_of_other {α : Type} {plan : Except Fault (α × Patch)} {v : Handle}
    (hplan : ∀ a p, plan = .ok (a, p) → ∃ new, p.revised = some (v, new)) (hother : v.id ≠ id) :
    planned id content plan = content := by
  cases plan with
  | error f => rfl
  | ok r =>
    obtain ⟨a, p⟩ := r
    obtain ⟨new, hnew⟩ := hplan a p rfl
    rw [planned, Patch.contentOf, hnew]
    exact if_neg (Ne.symm hother)

/-- The three operations that change a container revise the one they are called on. -/
theorem listAppend_revises {limit : Nat} {list v : Handle} {a : Unit} {p : Patch}
    (hp : listAppend limit h list v = .ok (a, p)) : ∃ new, p.revised = some (list, new) := by
  obtain ⟨slots, -, hp⟩ := bind_eq_ok.mp hp
  obtain ⟨capacity, -, hp⟩ := bind_eq_ok.mp hp
  obtain ⟨-, rfl⟩ := Prod.mk.inj (Except.ok.inj hp)
  exact ⟨_, rfl⟩

theorem setAdd_revises {set v : Handle} {a : Unit} {p : Patch}
    (hp : setAdd h set v = .ok (a, p)) : ∃ new, p.revised = some (set, new) := by
  obtain ⟨tree, -, hp⟩ := bind_eq_ok.mp hp
  obtain ⟨⟨outcome, grown⟩, -, hp⟩ := bind_eq_ok.mp hp
  cases outcome with
  | added depth index split =>
    obtain ⟨-, rfl⟩ := Prod.mk.inj (Except.ok.inj hp)
    exact ⟨_, rfl⟩
  | merged displaced =>
    obtain ⟨-, rfl⟩ := Prod.mk.inj (Except.ok.inj hp)
    exact ⟨_, rfl⟩

theorem mapAdd_revises {map key value : Handle} {a : Unit} {p : Patch}
    (hp : mapAdd h map key value = .ok (a, p)) : ∃ new, p.revised = some (map, new) := by
  obtain ⟨tree, -, hp⟩ := bind_eq_ok.mp hp
  obtain ⟨⟨outcome, grown⟩, -, hp⟩ := bind_eq_ok.mp hp
  cases outcome with
  | added depth index split =>
    obtain ⟨-, rfl⟩ := Prod.mk.inj (Except.ok.inj hp)
    exact ⟨_, rfl⟩
  | merged displaced =>
    obtain ⟨-, rfl⟩ := Prod.mk.inj (Except.ok.inj hp)
    exact ⟨_, rfl⟩

/-- Appending has on the content of a list just the effect that a history says. -/
theorem planned_listAppend (limit : Nat) (list v : Handle) (hc : h.content? id = some content) :
    planned id content (listAppend limit h list v) =
      content.after limit id [.listAppend list v] := by
  by_cases hsame : list.id = id
  · subst hsame
    have hadds : [Call.listAppend list v].flatMap (Call.appended list.id) = [v] := by
      rw [List.flatMap_singleton, Call.appended, if_pos rfl]
    unfold listAppend Heap.listOf
    rw [hc]
    cases content with
    | list slots =>
      rw [Content.after, hadds]
      show planned list.id (.list slots) (slots.reservation limit >>= fun capacity => _) =
        .list (slots.keep limit v)
      cases hr : slots.reservation limit with
      | error f =>
        rw [GrowList.keep_of_reservation_error hr]
        rfl
      | ok capacity =>
        rw [GrowList.keep_of_reservation hr]
        exact if_pos rfl
    -- nothing can be appended to anything else
    | _ => rfl
  · rw [planned_of_other (fun _ _ => listAppend_revises) hsame]
    have hspares : (Call.listAppend list v).Spares id := ⟨if_neg hsame, rfl, rfl⟩
    exact (hspares.after_eq limit content).symm

/-- What is planned for a set is what the call adds to it; an entry that the tree refuses is left
out on both sides. -/
theorem planned_setAdd (limit : Nat) (set v : Handle) (hc : h.content? id = some content) :
    planned id content (setAdd h set v) = content.after limit id [.setAdd set v] := by
  -- The set is this box, or the plan does not touch this box.
  by_cases hsame : set.id = id
  · subst hsame
    have hadds : [Call.setAdd set v].flatMap (Call.added set.id) = [{ key := v, item := () }] := by
      rw [List.flatMap_singleton, Call.added, if_pos rfl]
    unfold setAdd Heap.setOf
    rw [hc]
    cases content with
    | set tree =>
      rw [Content.after, hadds]
      show planned set.id (.set tree)
          -- What the tree does decides both: what is planned and what comes after the call.
          (completed (tree.insert { key := v, item := () }) >>= fun result => _) =
        .set (tree.keep { key := v, item := () })
      cases hinsert : tree.insert { key := v, item := () } with
      | error f left =>
        rw [SearchTree.keep_of_error hinsert]
        rfl
      | ok outcome grown =>
        rw [SearchTree.keep_of_ok hinsert]
        cases outcome <;> exact if_pos rfl
    | _ => rfl
  · rw [planned_of_other (fun _ _ => setAdd_revises) hsame]
    have hspares : (Call.setAdd set v).Spares id := ⟨rfl, if_neg hsame, rfl⟩
    exact (hspares.after_eq limit content).symm

/-- The same for a map, where the entry has an item that may replace another. -/
theorem planned_mapAdd (limit : Nat) (map key value : Handle) (hc : h.content? id = some content) :
    planned id content (mapAdd h map key value) =
      content.after limit id [.mapAdd map key value] := by
  -- As for a set, with an item beside the key.
  by_cases hsame : map.id = id
  · subst hsame
    have hadds : [Call.mapAdd map key value].flatMap (Call.stored map.id) =
        [{ key, item := value }] := by
      rw [List.flatMap_singleton, Call.stored, if_pos rfl]
    unfold mapAdd Heap.mapOf
    rw [hc]
    cases content with
    | map tree =>
      rw [Content.after, hadds]
      show planned map.id (.map tree)
          (completed (tree.insert { key, item := value }) >>= fun result => _) =
        .map (tree.keep { key, item := value })
      cases hinsert : tree.insert { key, item := value } with
      | error f left =>
        rw [SearchTree.keep_of_error hinsert]
        rfl
      | ok outcome grown =>
        rw [SearchTree.keep_of_ok hinsert]
        cases outcome <;> exact if_pos rfl
    | _ => rfl
  · rw [planned_of_other (fun _ _ => mapAdd_revises) hsame]
    have hspares : (Call.mapAdd map key value).Spares id := ⟨rfl, rfl, if_neg hsame⟩
    exact (hspares.after_eq limit content).symm

end Plan

/-! ## One call

  Its plan says what becomes of the content, for those that add, and that nothing does, for the
  others. -/

namespace Machine

variable {α : Type} {m : Machine}

/-- What calls do to a machine, as far as the content of one box is concerned. -/
structure Turns (m : Machine) (id : Nat) (calls : List Call) (m' : Machine) : Prop where
  slotLimit_eq : m'.slotLimit = m.slotLimit
  nextId_le : m.heap.nextId ≤ m'.heap.nextId
  content : ∀ content, m'.heap.content? id = some content →
    ∃ old, m.heap.content? id = some old ∧ content = old.after m.slotLimit id calls

/-- **One operation**: what it plans for a content is what a history of one call makes of it. -/
theorem turns_of_does {op : Op α} {plan : Except Fault (α × Patch)} {id : Nat} {call : Call}
    (given : α → List Handle) (hd : m.Does op plan)
    (hplanned : ∀ content, m.heap.content? id = some content →
      planned id content plan = content.after m.slotLimit id [call]) :
    m.Turns id [call] (leftBy ((given <$> op) m)) := by
  -- After a fault the content is what it was, which is also what the call would have added:
  -- nothing.
  cases plan with
  | error f =>
    rw [run_map_error hd given]
    exact ⟨rfl, Nat.le_refl _, fun content hc => ⟨content, hc, hplanned content hc⟩⟩
  | ok r =>
    obtain ⟨a, p⟩ := r
    obtain ⟨logger, hok⟩ := hd
    rw [run_map hok given]
    refine ⟨rfl, Nat.le_of_eq (m.heap.nextId_patch p).symm, fun content hc => ?_⟩
    obtain ⟨old, hold, rfl⟩ := Heap.content?_patch hc
    exact ⟨old, hold, hplanned old hold⟩

/-- An operation that gives no container a new content leaves all contents alone. -/
theorem turns_of_idle {op : Op α} {plan : Except Fault (α × Patch)} {id : Nat} {call : Call}
    (given : α → List Handle) (hd : m.Does op plan) (hidle : Idle plan) (hspares : call.Spares id) :
    m.Turns id [call] (leftBy ((given <$> op) m)) := by
  refine turns_of_does given hd fun content _ => ?_
  rw [planned_of_idle hidle, hspares.after_eq]

/-- A new box is none of the boxes that are there. -/
theorem turns_of_boxes {op : Op Handle} {plan : Except Fault (Datum × Content)} {id : Nat}
    {call : Call} (hd : m.Boxes op plan) (hid : id < m.heap.nextId) (hspares : call.Spares id) :
    m.Turns id [call] (leftBy (((fun v => [v]) <$> op) m)) := by
  -- What makes a box puts nothing into another.
  have hafter : ∀ content : Content, content = content.after m.slotLimit id [call] :=
    fun content => (hspares.after_eq m.slotLimit content).symm
  cases plan with
  | error f =>
    rw [run_map_error hd]
    exact ⟨rfl, Nat.le_refl _, fun content hc => ⟨content, hc, hafter content⟩⟩
  | ok r =>
    obtain ⟨datum, new⟩ := r
    rw [run_map hd]
    refine ⟨rfl, ?_, fun content hc => ⟨content, ?_, hafter content⟩⟩
    · show _ ≤ (m.heap.alloc datum new).2.nextId
      rw [Heap.nextId_alloc]
      exact Nat.le_succ _
    · rw [leftBy, Heap.content?, Heap.cell?_alloc, if_neg (Nat.ne_of_lt hid)] at hc
      exact hc

/-- One call puts in what it adds, and otherwise leaves the content of a box alone. -/
theorem turns_perform (call : Call) {id : Nat} (hid : id < m.heap.nextId) :
    m.Turns id [call] (leftBy (call.perform m)) := by
  -- Only three operations have a plan with a new content; the others are idle or make a box.
  cases call with
  | boxString text =>
    exact turns_of_boxes (boxes_newBox (.string text) .fixed) hid ⟨rfl, rfl, rfl⟩
  | boxInt n => exact turns_of_boxes (boxes_newBox (.int n) .fixed) hid ⟨rfl, rfl, rfl⟩
  | emptyBox tag => exact turns_of_boxes (boxes_emptyBox tag) hid ⟨rfl, rfl, rfl⟩
  | newList hint => exact turns_of_boxes (boxes_newList hint) hid ⟨rfl, rfl, rfl⟩
  | newSet elementType =>
    exact turns_of_boxes (boxes_newBox .set (.set (.new elementType))) hid ⟨rfl, rfl, rfl⟩
  | newMap keyType =>
    exact turns_of_boxes (boxes_newBox .map (.map (.new keyType))) hid ⟨rfl, rfl, rfl⟩
  | retain v =>
    exact turns_of_idle _ (does_retain v) (fun _ _ h => by cases h; rfl) ⟨rfl, rfl, rfl⟩
  | drop v => exact turns_of_idle _ (does_drop v) (fun _ _ h => by cases h; rfl) ⟨rfl, rfl, rfl⟩
  | release v deep =>
    exact turns_of_idle _ (does_release v deep) (Plan.release_idle v deep) ⟨rfl, rfl, rfl⟩
  | upgrade v => exact turns_of_idle _ (does_upgrade v) (Plan.upgrade_idle v) ⟨rfl, rfl, rfl⟩
  | listAppend list v =>
    exact turns_of_does _ (does_listAppend list v) fun content hc =>
      Plan.planned_listAppend m.slotLimit list v hc
  | listGet list i =>
    exact turns_of_idle _ (does_listGet list i) (Plan.listGet_idle list i) ⟨rfl, rfl, rfl⟩
  | setAdd set v =>
    exact turns_of_does _ (does_setAdd set v) fun content hc =>
      Plan.planned_setAdd m.slotLimit set v hc
  | setContains set v =>
    exact turns_of_idle _ (does_setContains set v) (Plan.setContains_idle set v) ⟨rfl, rfl, rfl⟩
  | setElements set =>
    exact turns_of_idle _ (does_setElements set) (Plan.setElements_idle set) ⟨rfl, rfl, rfl⟩
  | mapAdd map key value =>
    exact turns_of_does _ (does_mapAdd map key value) fun content hc =>
      Plan.planned_mapAdd m.slotLimit map key value hc
  | mapGet map key =>
    exact turns_of_idle _ (does_mapGet map key) (Plan.mapGet_idle map key) ⟨rfl, rfl, rfl⟩
  | mapEntries map =>
    exact turns_of_idle _ (does_mapEntries map) (Plan.mapEntries_idle map) ⟨rfl, rfl, rfl⟩
  | indexOf collection key =>
    exact turns_of_idle _ (does_indexOf collection key) (Plan.indexOf_idle collection key)
      ⟨rfl, rfl, rfl⟩
  | lengthOf v => exact turns_of_boxes (boxes_lengthOf v) hid ⟨rfl, rfl, rfl⟩
  | treeStats v => exact turns_of_idle _ (does_treeStats v) (Plan.treeStats_idle v) ⟨rfl, rfl, rfl⟩

/-! ## Runs

  The induction over the calls. A box that is there at the end was there all along, as numbers are
  not used again. -/

/-- The machine after calls, of which some may have failed. -/
def after (m : Machine) (calls : List Call) : Machine :=
  calls.foldl (fun m call => leftBy (call.perform m)) m

/-- **A container holds what was put in.**  As long as a box is there, its content is the one it had
with all added that calls added to it, in their order. -/
theorem turns_after (calls : List Call) {id : Nat} (hid : id < m.heap.nextId) :
    m.Turns id calls (m.after calls) := by
  induction calls generalizing m with
  -- On the calls: the content after the first is what the others begin with.
  | nil =>
    exact ⟨rfl, Nat.le_refl _, fun content hc => ⟨content, hc, (content.after_nil _ _).symm⟩⟩
  | cons call calls ih =>
    obtain ⟨hlimit, hnext, hfirst⟩ := turns_perform (m := m) call hid
    obtain ⟨hlimit', hnext', hrest⟩ := ih (Nat.lt_of_lt_of_le hid hnext)
    refine ⟨hlimit'.trans hlimit, Nat.le_trans hnext hnext', fun content hc => ?_⟩
    obtain ⟨middle, hmiddle, rfl⟩ := hrest content hc
    obtain ⟨old, hold, rfl⟩ := hfirst middle hmiddle
    refine ⟨old, hold, ?_⟩
    rw [hlimit]
    exact (Content.after_append m.slotLimit id [call] calls old).symm

/-- Of a box that is still there one knows the content from its making on. -/
theorem content?_after_alloc (datum : Datum) {new : Content} {calls : List Call}
    (hlive : ({ m with heap := (m.heap.alloc datum new).2 }.after calls).heap.isLive
      m.heap.nextId = true) :
    ({ m with heap := (m.heap.alloc datum new).2 }.after calls).heap.content? m.heap.nextId =
      some (new.after m.slotLimit m.heap.nextId calls) := by
  have hid : m.heap.nextId < (m.heap.alloc datum new).2.nextId := by
    rw [Heap.nextId_alloc]
    exact Nat.lt_succ_self _
  obtain ⟨-, -, hcontent⟩ :=
    turns_after (m := { m with heap := (m.heap.alloc datum new).2 }) calls hid
  obtain ⟨cell, hcell⟩ := Heap.isLive_iff.mp hlive
  have hsome := Heap.content?_eq_some.mpr ⟨cell, hcell, rfl⟩
  obtain ⟨old, hold, hafter⟩ := hcontent cell.content hsome
  rw [hsome, hafter]
  -- The box begins with the content that it was made with.
  rw [Heap.content?, Heap.cell?_alloc, if_pos rfl] at hold
  obtain rfl := Option.some.inj hold
  rfl

end Machine

end BoxRuntime
