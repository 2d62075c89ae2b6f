/-
  What operations do to the heap.

  What an operation on existing boxes comes to has two parts.  It reads, and that settles whether it
  fails and what it does.  If it does not fail, it makes handles, gives at most one container a new
  content, and gives up handles.  The second part is a `Patch`; the first is a `Plan`, a function of
  the heap and the allocator's limit to a result with a patch, or to a fault.

  The operations themselves are not so tidy.  One that adds to a container makes the handles first
  and then asks the container, which may refuse in the middle of its work.  What makes the two agree
  is that a refusal leaves a list or a tree as it was (`GrowList.push_eq`,
  `SearchTree.insert_error`) and that the handles made for it cancel against those given back
  (`refused_one`, `refused_two`).

  For each operation there is a plan and one lemma (`does_…`) that says: if the plan is a fault,
  the operation fails with it and leaves the machine as it was; otherwise it gives the planned
  result, and the heap is the patched one.  Logger and configuration have no say in either.  The
  operations that make a box (`boxes_…`) are the same with a new box in place of a patch.

  Later modules reason about plans and patches and never about operations.  The crux is that the
  reads of an operation pass on what they found (`Does.read`): that a list is a list is what makes
  storing an element a replacement of its content.
-/
import BoxRuntime.Machine.Collections
import BoxRuntime.Proofs.GrowList
import BoxRuntime.Proofs.Heap.Cells
import BoxRuntime.Proofs.Tree.Contents

namespace BoxRuntime

/-! ## Patches

  All that an operation on existing boxes can do to the heap, in the order in which it does it:
  make handles, store one content, give up handles. -/

/-- A change of the heap: handles are made, then a container gets a new content, then handles are
given up. -/
structure Patch where
  retained : List Handle := []
  revised : Option (Handle × Content) := none
  dropped : List Handle := []

namespace Heap

/-- Makes handles, one after another. -/
def retainAll (h : Heap) (vs : List Handle) : Heap :=
  vs.foldl (fun h v => h.retain v.id) h

/-- Gives a container a new content. -/
def revise (h : Heap) : Option (Handle × Content) → Heap
  | none => h
  | some (v, content) => h.setContent v.id content

def patch (h : Heap) (p : Patch) : Heap :=
  ((h.retainAll p.retained).revise p.revised).dropAll p.dropped

/-- Giving up nothing changes nothing. -/
@[simp] theorem dropAll_nil (h : Heap) : h.dropAll [] = h := by
  rw [dropAll]

/-- Handles are made one after another. -/
@[simp] theorem retainAll_cons (h : Heap) (v : Handle) (vs : List Handle) :
    h.retainAll (v :: vs) = (h.retain v.id).retainAll vs :=
  rfl

/-- Making handles changes counts and no content. -/
@[simp] theorem content?_retainAll (h : Heap) (vs : List Handle) (id : Nat) :
    (h.retainAll vs).content? id = h.content? id := by
  induction vs generalizing h with
  | nil => rfl
  | cons v vs ih => rw [retainAll_cons, ih, content?_retain]

@[simp] theorem nextId_retainAll (h : Heap) (vs : List Handle) :
    (h.retainAll vs).nextId = h.nextId := by
  induction vs generalizing h with
  | nil => rfl
  | cons v vs ih => rw [retainAll_cons, ih, retain, nextId_update]

@[simp] theorem nextId_revise (h : Heap) (r : Option (Handle × Content)) :
    (h.revise r).nextId = h.nextId := by
  cases r with
  | none => rfl
  | some r => exact nextId_update h _ _

@[simp] theorem nextId_patch (h : Heap) (p : Patch) : (h.patch p).nextId = h.nextId := by
  rw [patch, nextId_dropAll, nextId_revise, nextId_retainAll]

theorem patch_retained (h : Heap) (vs : List Handle) :
    h.patch { retained := vs } = h.retainAll vs := by
  rw [patch, revise, dropAll_nil]

/-- A patch that only gives up handles. -/
theorem patch_dropped (h : Heap) (vs : List Handle) :
    h.patch { dropped := vs } = h.dropAll vs :=
  rfl

/-! ## Reading

  The three ways to ask a box for its content, as functions of the heap. Each fails with the name
  of the operation that asked. -/

/-- The elements of a list, for an operation that wants one. -/
def listOf (h : Heap) (operation : String) (v : Handle) : Except Fault (GrowList Handle) :=
  match h.content? v.id with
  | some (.list slots) => .ok slots
  | _ => .error (.wrongType operation .list v.tag)

/-- The tree of a set, for an operation that wants one. -/
def setOf (h : Heap) (operation : String) (v : Handle) : Except Fault SetTree :=
  match h.content? v.id with
  | some (.set tree) => .ok tree
  | _ => .error (.wrongType operation .set v.tag)

/-- The tree of a map, for an operation that wants one. -/
def mapOf (h : Heap) (operation : String) (v : Handle) : Except Fault MapTree :=
  match h.content? v.id with
  | some (.map tree) => .ok tree
  | _ => .error (.wrongType operation .map v.tag)

/-- Where a list is read there is one; the same goes for sets and maps. -/
theorem content?_of_listOf {h : Heap} {operation : String} {v : Handle} {slots : GrowList Handle}
    (hl : h.listOf operation v = .ok slots) : h.content? v.id = some (.list slots) := by
  unfold listOf at hl
  split at hl
  · rename_i hc
    rw [hc, Except.ok.inj hl]
  · cases hl

theorem content?_of_setOf {h : Heap} {operation : String} {v : Handle} {tree : SetTree}
    (hl : h.setOf operation v = .ok tree) : h.content? v.id = some (.set tree) := by
  unfold setOf at hl
  split at hl
  · rename_i hc
    rw [hc, Except.ok.inj hl]
  · cases hl

theorem content?_of_mapOf {h : Heap} {operation : String} {v : Handle} {tree : MapTree}
    (hl : h.mapOf operation v = .ok tree) : h.content? v.id = some (.map tree) := by
  unfold mapOf at hl
  split at hl
  · rename_i hc
    rw [hc, Except.ok.inj hl]
  · cases hl

end Heap

/-! ## Plans

  One for each operation, and all are functions: they have no state and no log. -/

namespace Plan

open Heap

/-- Gives up a handle, and says how many are left. -/
def release (h : Heap) (v : Handle) (deep : Bool) : Except Fault (Nat × Patch) :=
  if h.count v.id - 1 = 0 ∧ deep ∧ v.tag.isContainer then .error (.unsupported "release" v.tag)
  else .ok (h.count v.id - 1, { dropped := [v] })

def upgrade (h : Heap) (v : Handle) : Option Handle × Patch :=
  if h.isLive v.id then (some v, { retained := [v] }) else (none, {})

def listAppend (limit : Nat) (h : Heap) (list v : Handle) : Except Fault (Unit × Patch) := do
  let slots ← h.listOf "list_append" list
  let capacity ← slots.reservation limit
  return ((), { retained := [v], revised := some (list, .list (slots.store capacity v)) })

/-- Picks an element of a list. -/
def pick (slots : GrowList Handle) (i : Nat) : Option Handle × Patch :=
  match slots.get? i with
  | some v => (some v, { retained := [v] })
  | none => (none, {})

def listGet (h : Heap) (list : Handle) (i : Nat) : Except Fault (Option Handle × Patch) := do
  let slots ← h.listOf "list_get" list
  return pick slots i

def setAdd (h : Heap) (set v : Handle) : Except Fault (Unit × Patch) := do
  let tree ← h.setOf "set_add" set
  match ← completed (tree.insert { key := v, item := () }) with
  | (.added .., grown) => return ((), { retained := [v], revised := some (set, .set grown) })
  | (.merged _, grown) => return ((), { revised := some (set, .set grown) })

def setContains (h : Heap) (set v : Handle) : Except Fault (Bool × Patch) := do
  let tree ← h.setOf "set_contains" set
  let found ← tree.find v
  return (found.isSome, {})

def setElements (h : Heap) (set : Handle) : Except Fault (List Handle × Patch) := do
  let tree ← h.setOf "set_elements" set
  let values := tree.entries.toList.map Entry.key
  return (values, { retained := values })

def mapAdd (h : Heap) (map key value : Handle) : Except Fault (Unit × Patch) := do
  let tree ← h.mapOf "map_add" map
  match ← completed (tree.insert { key, item := value }) with
  | (.added .., grown) =>
    return ((), { retained := [key, value], revised := some (map, .map grown) })
  | (.merged displaced, grown) =>
    return ((), {
      retained := [key, value], revised := some (map, .map grown), dropped := [displaced, key] })

/-- The value that a tree has under a key. -/
def valueOf (tree : MapTree) (key : Handle) : Except Fault Handle :=
  match tree.elementType with
  | none => .error .emptyMap
  | some expected =>
    if expected ≠ key.tag then .error (.elementMismatch expected key.tag)
    else if tree.isEmpty then .error .emptyMap
    else
      match tree.find key with
      | .error f => .error f
      | .ok (some e) => .ok e.item
      | .ok none => .error .keyNotFound

def mapGet (h : Heap) (map key : Handle) : Except Fault (Handle × Patch) := do
  let tree ← h.mapOf "map_get" map
  let v ← valueOf tree key
  return (v, { retained := [v] })

def mapEntries (h : Heap) (map : Handle) : Except Fault (List (Handle × Handle) × Patch) := do
  let tree ← h.mapOf "map_entries" map
  let pairs := tree.entries.toList.map fun e => (e.key, e.item)
  return (pairs, { retained := pairs.flatMap fun p => [p.1, p.2] })

/-- The number of elements of a container. -/
def length (h : Heap) (v : Handle) : Except Fault Nat :=
  match v.tag with
  | .list => do
    let slots ← h.listOf "length_of" v
    return slots.size
  | .set => do
    let tree ← h.setOf "length_of" v
    match tree.elementType with
    | none => return 0
    | some .any => .error (.unsupported "length_of" .any)
    | some _ => return tree.size
  | .map => do
    let tree ← h.mapOf "length_of" v
    return tree.size
  | other => .error (.unsupported "length_of" other)

def listIndex (h : Heap) (list index : Handle) : Except Fault (Handle × Patch) :=
  match index.int? with
  | none => .error (.indexType index.tag)
  | some n =>
    if n.toInt < 0 then .error (.indexUnderRange n.toInt)
    else do
      let slots ← h.listOf "length_of" list
      match pick slots n.toInt.toNat with
      | (some v, p) => return (v, p)
      | (none, _) => .error (.indexOverRange n.toInt slots.size)

def indexOf (h : Heap) (collection key : Handle) : Except Fault (Handle × Patch) :=
  match collection.tag with
  | .list => listIndex h collection key
  | .map => mapGet h collection key
  | other => .error (.notIndexable other)

/-- The sizes of the tree of a set or map. -/
def treeStats (h : Heap) (v : Handle) : Except Fault (TreeStats × Patch) :=
  match h.content? v.id with
  | some (.set tree) => .ok (tree.stats, {})
  | some (.map tree) => .ok (tree.stats, {})
  | _ => .error (.unsupported "tree_stats" v.tag)

end Plan

/-! ## Operations follow their plans

  An operation is a sequence of reads and then effects. Reads leave the machine, so they can be
  peeled off one at a time; what is left is compared with the patch. -/

namespace Machine

/-- The operation finds this out, and changes nothing. -/
def Reads {α : Type} (m : Machine) (op : Op α) (found : Except Fault α) : Prop :=
  op m = match found with
    | .ok a => .ok a m
    | .error f => .error f m

/-- The operation does what is planned.  It may write to the log if it succeeds. -/
def Does {α : Type} (m : Machine) (op : Op α) : Except Fault (α × Patch) → Prop
  | .ok (a, p) => ∃ logger, op m = .ok a { m with heap := m.heap.patch p, logger }
  | .error f => op m = .error f m

/-- The operation makes the planned box. -/
def Boxes (m : Machine) (op : Op Handle) : Except Fault (Datum × Content) → Prop
  | .ok (datum, content) =>
    op m = .ok (m.heap.alloc datum content).1
      { m with heap := (m.heap.alloc datum content).2 }
  | .error f => op m = .error f m

variable {α β : Type} {m : Machine}

/-- An operation may read first, and go on with what it found. -/
theorem Does.read {op : Op α} {k : α → Op β} {found : Except Fault α}
    {plan : α → Except Fault (β × Patch)} (hr : m.Reads op found)
    (hk : ∀ a, found = .ok a → m.Does (k a) (plan a)) : m.Does (op >>= k) (found >>= plan) := by
  cases found with
  | error f =>
    show (op >>= k) m = .error f m
    exact run_bind_error hr k
  | ok a =>
    have hgo := hk a rfl
    show m.Does (op >>= k) (plan a)
    unfold Does at hgo ⊢
    rw [run_bind hr]
    exact hgo

/-- A step that only looks is done before the plan. -/
theorem Does.known {op : Op α} {k : α → Op β} {a : α} {plan : Except Fault (β × Patch)}
    (hr : op m = .ok a m) (hk : m.Does (k a) plan) : m.Does (op >>= k) plan := by
  unfold Does at hk ⊢
  rw [run_bind hr]
  exact hk

/-- What is read can decide what is read next. -/
theorem Reads.read {op : Op α} {k : α → Op β} {found : Except Fault α}
    {then_ : α → Except Fault β} (hr : m.Reads op found)
    (hk : ∀ a, found = .ok a → m.Reads (k a) (then_ a)) : m.Reads (op >>= k) (found >>= then_) := by
  cases found with
  | error f => exact run_bind_error hr k
  | ok a => exact (run_bind hr k).trans (hk a rfl)

theorem get_eq (m : Machine) : (get : Op Machine) m = .ok m m :=
  rfl

/-- A fault that is found is raised. -/
theorem reads_require (found : Except Fault α) : m.Reads (require found) found := by
  cases found with
  | error f => rfl
  | ok a => rfl

/-- A list is looked up, or the fault names the operation that wanted one. -/
theorem reads_listOf (operation : String) (v : Handle) :
    m.Reads (listOf operation v) (m.heap.listOf operation v) := by
  show (match m.heap.content? v.id with
    | some (.list slots) => pure slots
    | _ => throw (.wrongType operation .list v.tag) : Op (GrowList Handle)) m = _
  unfold Heap.listOf
  rcases m.heap.content? v.id with _ | content
  · rfl
  · cases content <;> rfl

theorem reads_setOf (operation : String) (v : Handle) :
    m.Reads (setOf operation v) (m.heap.setOf operation v) := by
  show (match m.heap.content? v.id with
    | some (.set tree) => pure tree
    | _ => throw (.wrongType operation .set v.tag) : Op SetTree) m = _
  unfold Heap.setOf
  rcases m.heap.content? v.id with _ | content
  · rfl
  · cases content <;> rfl

theorem reads_mapOf (operation : String) (v : Handle) :
    m.Reads (mapOf operation v) (m.heap.mapOf operation v) := by
  show (match m.heap.content? v.id with
    | some (.map tree) => pure tree
    | _ => throw (.wrongType operation .map v.tag) : Op MapTree) m = _
  unfold Heap.mapOf
  rcases m.heap.content? v.id with _ | content
  · rfl
  · cases content <;> rfl

/-- The operation does no more than to write to the log. -/
def Quiet (op : Op Unit) : Prop :=
  ∀ m, ∃ logger, op m = .ok () { m with logger }

theorem quiet_pure : Quiet (pure ()) :=
  fun m => ⟨m.logger, rfl⟩

/-- Logging changes the logger alone. -/
theorem quiet_log (level : Level) (component : Component) (message : String) :
    Quiet (log level component message) :=
  fun _ => ⟨_, rfl⟩

/-- Quiet operations one after another are quiet. -/
theorem Quiet.then {op next : Op Unit} (h : Quiet op) (hnext : Quiet next) :
    Quiet (op >>= fun _ => next) := by
  intro m
  obtain ⟨logger, hop⟩ := h m
  obtain ⟨logger', hop'⟩ := hnext { m with logger }
  exact ⟨logger', (run_bind hop _).trans hop'⟩

/-- Looking at the machine is quiet if what is done about it is. -/
theorem quiet_get {k : Machine → Op Unit} (h : ∀ m, Quiet (k m)) : Quiet (get >>= k) := by
  intro m
  exact h m m

/-! ### Boxes -/

/-- A box is made of what it is given. -/
theorem boxes_newBox (datum : Datum) (content : Content) :
    m.Boxes (newBox datum content) (.ok (datum, content)) :=
  rfl

/-- An empty box is made unless its type needs a content. -/
theorem boxes_emptyBox (tag : Tag) :
    m.Boxes (emptyBox tag) ((Datum.ofTag tag).map fun datum => (datum, .fixed)) := by
  unfold emptyBox
  cases Datum.ofTag tag with
  | error f => rfl
  | ok datum => rfl

/-- A list is made if its slots are reserved. -/
theorem boxes_newList (hint : Nat) :
    m.Boxes (newList hint)
      ((GrowList.ofHint m.slotLimit hint).map fun slots => (.list, .list slots)) := by
  show m.Boxes (require (GrowList.ofHint m.slotLimit hint) >>= fun slots =>
    newBox .list (.list slots)) _
  cases (GrowList.ofHint m.slotLimit hint : Except Fault (GrowList Handle)) with
  | error f => rfl
  | ok slots => rfl

/-! ### Handles -/

/-- Each operation below does what is planned for it; where it has several parts, so do they. -/
theorem does_retain (v : Handle) : m.Does (retain v) (.ok ((), { retained := [v] })) := by
  refine ⟨m.logger, ?_⟩
  rw [Heap.patch_retained]
  rfl

theorem does_drop (v : Handle) : m.Does (drop v) (.ok ((), { dropped := [v] })) :=
  ⟨m.logger, rfl⟩

/-- Nothing is done but to give a result. -/
theorem does_pure (a : α) : m.Does (pure a) (.ok (a, {})) := by
  refine ⟨m.logger, ?_⟩
  rw [Heap.patch_retained]
  rfl

/-- A handle is made for the caller, and then a result is given. -/
theorem does_retained (v : Handle) (a : α) :
    m.Does (do
      retain v
      return a) (.ok (a, { retained := [v] })) := by
  refine ⟨m.logger, ?_⟩
  rw [Heap.patch_retained]
  rfl

/-- A release gives the handle up, unless it is a deep one of a container, and the count is what is
left. -/
theorem does_release (v : Handle) (deep : Bool) :
    m.Does (release v deep) (Plan.release m.heap v deep) := by
  have hcount : count v m = .ok (m.heap.count v.id) m := rfl
  refine Does.known hcount ?_
  unfold Plan.release
  dsimp only
  by_cases hlost : m.heap.count v.id - 1 = 0 ∧ deep ∧ v.tag.isContainer
  · rw [if_pos hlost, if_pos hlost]
    rfl
  · rw [if_neg hlost, if_neg hlost]
    refine Does.known (get_eq m) ?_
    -- with or without a message in the log
    split
    · exact ⟨_, rfl⟩
    · exact ⟨_, rfl⟩

/-- A handle is made of a live box only. -/
theorem does_upgrade (v : Handle) :
    m.Does (upgrade v) (.ok (Plan.upgrade m.heap v)) := by
  refine Does.known (get_eq m) ?_
  unfold Plan.upgrade
  by_cases hlive : m.heap.isLive v.id
  · rw [if_pos hlive, if_pos hlive]
    exact does_retained v (some v)
  · rw [if_neg hlive, if_neg hlive]
    exact does_pure none

/-- Retaining handles one by one retains them all. -/
theorem forM_retain (vs : List Handle) (m : Machine) :
    vs.forM retain m = .ok () { m with heap := m.heap.retainAll vs } := by
  induction vs generalizing m with
  | nil => rfl
  | cons v vs ih => exact ih { m with heap := m.heap.retain v.id }

/-- Handles of keys and values by turns, as they are listed. -/
theorem forM_retain_pairs (pairs : List (Handle × Handle)) (m : Machine) :
    (pairs.forM fun (key, value) => do
      retain key
      retain value) m =
      .ok () { m with heap := m.heap.retainAll (pairs.flatMap fun p => [p.1, p.2]) } := by
  induction pairs generalizing m with
  | nil => rfl
  | cons p pairs ih => exact ih { m with heap := (m.heap.retain p.1.id).retain p.2.id }

/-! ### Lists -/

/-- The element at a position is retained for the caller. -/
theorem does_pick (slots : GrowList Handle) (i : Nat) :
    m.Does (match slots.get? i with
      | some v => do
        retain v
        return some v
      | none => return none) (.ok (Plan.pick slots i)) := by
  unfold Plan.pick
  split
  · rename_i v _
    exact does_retained v (some v)
  · exact does_pure none

theorem does_listGet (list : Handle) (i : Nat) :
    m.Does (listGet list i) (Plan.listGet m.heap list i) :=
  Does.read (reads_listOf "list_get" list) fun slots _ => does_pick slots i

/-- A container that refused an element stays as it was, and the handle that was made for it is
given back, so nothing has happened. -/
theorem refused_one {container v : Handle} {content : Content}
    (hc : m.heap.content? container.id = some content) :
    ((m.heap.retain v.id).setContent container.id content).drop v = m.heap := by
  have hcontent : (m.heap.retain v.id).content? container.id = some content := by
    rw [Heap.content?_retain]
    exact hc
  rw [Heap.setContent_same hcontent, Heap.drop_retain]

/-- The same with two handles, which are given back in the order in which they were made. -/
theorem refused_two {container key value : Handle} {content : Content}
    (hc : m.heap.content? container.id = some content) :
    ((((m.heap.retain key.id).retain value.id).setContent container.id content).drop key).drop value =
      m.heap := by
  have hcontent : ((m.heap.retain value.id).retain key.id).content? container.id = some content := by
    rw [Heap.content?_retain, Heap.content?_retain]
    exact hc
  rw [Heap.retain_comm, Heap.setContent_same hcontent, Heap.drop_retain, Heap.drop_retain]

/-- **Appending** retains the element first.  If the list is refused its slot, the element is given
back, and the heap is the one before. -/
theorem does_listAppend (list v : Handle) :
    m.Does (listAppend list v) (Plan.listAppend m.slotLimit m.heap list v) := by
  refine Does.read (reads_listOf "list_append" list) fun slots hslots => ?_
  have hcontent := Heap.content?_of_listOf hslots
  -- The handle is made before the list is asked.
  have hretain : retain v m = .ok () { m with heap := m.heap.retain v.id } := rfl
  have hget := get_eq { m with heap := m.heap.retain v.id }
  cases hr : slots.reservation m.slotLimit with
  -- Refused: the list is as it was, and the handle is given back.
  | error f =>
    have hpush := GrowList.push_of_reservation_error hr v
    refine (run_bind hretain _).trans ((run_bind hget _).trans ?_)
    dsimp only
    rw [hpush]
    exact congrArg (fun heap => EStateM.Result.error f { m with heap }) (refused_one hcontent)
  | ok capacity =>
    have hpush := GrowList.push_of_reservation hr v
    -- Only a list that was full says that it grew.
    have hquiet : Quiet (do
        if slots.isFull then
          log .trace .list s!"list {list.idText} grew to {capacity} slots") := by
      split
      · exact quiet_log _ _ _
      · exact quiet_pure
    obtain ⟨logger, hnote⟩ := hquiet
      { m with heap := (m.heap.retain v.id).setContent list.id (.list (slots.store capacity v)) }
    refine ⟨logger, (run_bind hretain _).trans ((run_bind hget _).trans ?_)⟩
    dsimp only
    rw [hpush, Heap.patch, Heap.dropAll_nil]
    exact hnote

/-- What is logged only if splits are traced. -/
theorem quiet_traced (level : Level) (component : Component) (message : String) :
    Quiet (do
      if (← get).config.debug.traceSplits then
        log level component message) := by
  refine quiet_get fun m => ?_
  split
  · exact quiet_log _ _ _
  · exact quiet_pure

/-- Logging what an insertion did has no other effect. -/
theorem quiet_noteInsert {γ : Type} (collection : Handle) (before after : Option Tag)
    (outcome : InsertOutcome γ) : Quiet (noteInsert collection before after outcome) := by
  unfold noteInsert
  dsimp only
  split
  · refine (quiet_log _ _ _).then ?_
    split
    · exact quiet_traced _ _ _
    · exact quiet_pure
  · split
    · exact quiet_traced _ _ _
    · exact quiet_pure

/-- **Adding to a set** retains the value first.  It is given back if the set refuses it or has it
already. -/
theorem does_setAdd (set v : Handle) :
    m.Does (setAdd set v) (Plan.setAdd m.heap set v) := by
  refine Does.read (reads_setOf "set_add" set) fun tree htree => ?_
  have hcontent := Heap.content?_of_setOf htree
  have hretain : retain v m = .ok () { m with heap := m.heap.retain v.id } := rfl
  cases hinsert : tree.insert { key := v, item := () } with
  | error f left =>
    obtain rfl := SearchTree.insert_error hinsert
    refine (run_bind hretain _).trans ?_
    exact congrArg (fun heap => EStateM.Result.error f { m with heap }) (refused_one hcontent)
  | ok outcome grown =>
    have hquiet := quiet_noteInsert set tree.elementType grown.elementType outcome
    cases outcome with
    | added depth index split =>
      obtain ⟨logger, hnote⟩ := hquiet
        { m with heap := (m.heap.retain v.id).setContent set.id (.set grown) }
      refine ⟨logger, (run_bind hretain _).trans ?_⟩
      rw [Heap.patch, Heap.dropAll_nil]
      exact hnote
    | merged displaced =>
      -- the handle that was made for the set is given back at once
      have hback : ((m.heap.retain v.id).setContent set.id (.set grown)).drop v =
          m.heap.setContent set.id (.set grown) := by
        rw [Heap.setContent_retain, Heap.drop_retain]
      obtain ⟨logger, hnote⟩ := hquiet
        { m with heap := ((m.heap.retain v.id).setContent set.id (.set grown)).drop v }
      refine ⟨logger, (run_bind hretain _).trans ?_⟩
      rw [Heap.patch, Heap.dropAll_nil]
      exact hnote.trans (congrArg (fun heap => EStateM.Result.ok () { m with heap, logger }) hback)

/-- Asking for a value changes nothing. -/
theorem does_setContains (set v : Handle) :
    m.Does (setContains set v) (Plan.setContains m.heap set v) := by
  refine Does.read (reads_setOf "set_contains" set) fun tree _ => ?_
  refine Does.read (reads_require _) fun found _ => ?_
  exact does_pure found.isSome

/-- All elements are retained for the caller. -/
theorem does_setElements (set : Handle) :
    m.Does (setElements set) (Plan.setElements m.heap set) := by
  refine Does.read (reads_setOf "set_elements" set) fun tree _ => ?_
  refine ⟨m.logger, ?_⟩
  rw [Heap.patch_retained]
  exact run_bind (forM_retain (tree.entries.toList.map Entry.key) m) _

/-- **Adding to a map** retains the key and the value first.  Both are given back if the map refuses
the key; if it has the key, the new key and the old value are. -/
theorem does_mapAdd (map key value : Handle) :
    m.Does (mapAdd map key value) (Plan.mapAdd m.heap map key value) := by
  refine Does.read (reads_mapOf "map_add" map) fun tree htree => ?_
  have hcontent := Heap.content?_of_mapOf htree
  -- Both handles are made before the map is asked.
  have hretain : retain key m = .ok () { m with heap := m.heap.retain key.id } := rfl
  have hretain' : retain value { m with heap := m.heap.retain key.id } =
      .ok () { m with heap := (m.heap.retain key.id).retain value.id } := rfl
  cases hinsert : tree.insert { key, item := value } with
  -- Refused: the tree is as it was, and both are given back.
  | error f left =>
    obtain rfl := SearchTree.insert_error hinsert
    refine (run_bind hretain _).trans ((run_bind hretain' _).trans ?_)
    exact congrArg (fun heap => EStateM.Result.error f { m with heap }) (refused_two hcontent)
  | ok outcome grown =>
    have hquiet := quiet_noteInsert map tree.elementType grown.elementType outcome
    cases outcome with
    -- A new key: both handles stay in the map.
    | added depth index split =>
      obtain ⟨logger, hnote⟩ := hquiet
        { m with
          heap := ((m.heap.retain key.id).retain value.id).setContent map.id (.map grown) }
      refine ⟨logger, (run_bind hretain _).trans ((run_bind hretain' _).trans ?_)⟩
      rw [Heap.patch, Heap.dropAll_nil]
      exact hnote
    -- A key that is there: its own handle stays, so the item that is displaced and the new key go.
    | merged displaced =>
      have hdrops : ∀ h : Heap, h.dropAll [displaced, key] = (h.drop displaced).drop key :=
        fun h => h.dropAll_append [displaced] [key]
      obtain ⟨logger, hnote⟩ := hquiet
        { m with
          heap := ((((m.heap.retain key.id).retain value.id).setContent map.id
            (.map grown)).drop displaced).drop key }
      refine ⟨logger, (run_bind hretain _).trans ((run_bind hretain' _).trans ?_)⟩
      rw [Heap.patch, hdrops]
      exact hnote

/-- The value that is found is retained for the caller. -/
theorem does_mapGet (map key : Handle) :
    m.Does (mapGet map key) (Plan.mapGet m.heap map key) := by
  refine Does.read (reads_mapOf "map_get" map) fun tree _ => ?_
  -- operation and plan ask the same questions of the tree in the same order
  unfold Plan.valueOf
  rcases tree.elementType with _ | expected
  · rfl
  · dsimp only
    by_cases htype : expected ≠ key.tag
    · rw [if_pos htype, if_pos htype]
      rfl
    · rw [if_neg htype, if_neg htype]
      by_cases hempty : tree.isEmpty
      · rw [if_pos hempty, if_pos hempty]
        rfl
      · rw [if_neg hempty, if_neg hempty]
        rcases tree.find key with f | found
        · rfl
        · cases found with
          | none => rfl
          | some e => exact does_retained e.item e.item

/-- All keys and values are retained for the caller. -/
theorem does_mapEntries (map : Handle) :
    m.Does (mapEntries map) (Plan.mapEntries m.heap map) := by
  refine Does.read (reads_mapOf "map_entries" map) fun tree _ => ?_
  refine ⟨m.logger, ?_⟩
  rw [Heap.patch_retained]
  exact run_bind (forM_retain_pairs (tree.entries.toList.map fun e => (e.key, e.item)) m) _

/-! ### Access whatever the container -/

/-- A length is read and nothing else done. -/
theorem reads_length (v : Handle) : m.Reads (length v) (Plan.length m.heap v) := by
  unfold length Plan.length
  cases v.tag with
  | list => exact Reads.read (reads_listOf "length_of" v) fun slots _ => rfl
  | set =>
    refine Reads.read (reads_setOf "length_of" v) fun tree _ => ?_
    rcases tree.elementType with _ | type
    · rfl
    · cases type <;> rfl
  | map => exact Reads.read (reads_mapOf "length_of" v) fun tree _ => rfl
  | _ => rfl

/-- A length that is boxed makes one box. -/
theorem boxes_lengthOf (v : Handle) :
    m.Boxes (lengthOf v)
      ((Plan.length m.heap v).map fun n => (.int (Int64.ofNat n), .fixed)) := by
  have hlength := reads_length (m := m) v
  unfold lengthOf
  cases hn : Plan.length m.heap v with
  | error f =>
    rw [hn] at hlength
    exact run_bind_error hlength _
  | ok n =>
    rw [hn] at hlength
    exact run_bind hlength _

/-- The element that an int box picks is retained for the caller. -/
theorem does_listIndex (list index : Handle) :
    m.Does (listIndex list index) (Plan.listIndex m.heap list index) := by
  unfold listIndex Plan.listIndex
  cases index.int? with
  | none => rfl
  | some n =>
    dsimp only
    by_cases hneg : n.toInt < 0
    · rw [if_pos hneg, if_pos hneg]
      rfl
    · rw [if_neg hneg, if_neg hneg]
      refine Does.read (reads_listOf "length_of" list) fun slots hslots => ?_
      -- the list is read a second time, for its element, and is still the same list
      have hcontent := Heap.content?_of_listOf hslots
      have hagain : m.heap.listOf "list_get" list = .ok slots := by
        rw [Heap.listOf, hcontent]
      have hread := reads_listOf (m := m) "list_get" list
      rw [hagain] at hread
      unfold Plan.pick
      cases hfound : slots.get? n.toInt.toNat with
      | some v =>
        have hget : listGet list n.toInt.toNat m =
            .ok (some v) { m with heap := m.heap.retain v.id } := by
          refine (run_bind hread _).trans ?_
          rw [hfound]
          rfl
        refine ⟨m.logger, ?_⟩
        rw [Heap.patch_retained]
        exact run_bind hget _
      | none =>
        have hget : listGet list n.toInt.toNat m = .ok none m := by
          refine (run_bind hread _).trans ?_
          rw [hfound]
          rfl
        exact run_bind hget _

/-- What is found depends on the type of the collection. -/
theorem does_indexOf (collection key : Handle) :
    m.Does (indexOf collection key) (Plan.indexOf m.heap collection key) := by
  unfold indexOf Plan.indexOf
  cases collection.tag with
  | list => exact does_listIndex collection key
  | map => exact does_mapGet collection key
  | _ => rfl

theorem does_treeStats (v : Handle) :
    m.Does (treeStats v) (Plan.treeStats m.heap v) := by
  refine Does.known (a := m.heap.content? v.id) rfl ?_
  unfold Plan.treeStats
  rcases m.heap.content? v.id with _ | content
  · rfl
  · cases content with
    | set tree => exact does_pure tree.stats
    | map tree => exact does_pure tree.stats
    | _ => rfl

end Machine

end BoxRuntime
