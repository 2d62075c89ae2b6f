/-
  The log of a machine does not depend on its logger.

  Let two machines differ in nothing but their loggers.  Then every operation gives the same result
  on both, or the same fault, and does the same things to their loggers: what a machine has to say,
  it says whatever becomes of it (`Likeness.sameEvents`).  The events depend on boxes and
  configuration, and no operation asks its logger for anything.
-/
import BoxRuntime.Proofs.Machine.Plan
import BoxRuntime.Proofs.Setup.Likeness

namespace BoxRuntime

namespace Machine

/-- The machines are the same but for their loggers, and since these were `l` and `l'` the same
things have happened to both. -/
structure SameEvents (l l' : Logger) (m m' : Machine) : Prop where
  heap : m'.heap = m.heap
  config : m'.config = m.config
  slotLimit : m'.slotLimit = m.slotLimit
  events : ∃ es, (∀ e ∈ es, LogEvent.Steady e) ∧ m.logger = l.after es ∧ m'.logger = l'.after es

variable {l l' : Logger} {α : Type}

theorem SameEvents.act {m m' : Machine} (hm : SameEvents l l' m m') {e : LogEvent}
    (he : e.Steady) : SameEvents l l' (m.act e) (m'.act e) := by
  -- The events so far and this one.
  obtain ⟨es, hsteady, hlogger, hlogger'⟩ := hm.events
  refine ⟨hm.heap, hm.config, hm.slotLimit, es ++ [e], ?_, ?_, ?_⟩
  · intro e' he'
    rcases List.mem_append.mp he' with hold | hnew
    · exact hsteady e' hold
    · rw [List.mem_singleton.mp hnew]
      exact he
  · show m.logger.act e = _
    rw [Logger.after_append, ← hlogger]
    rfl
  · show m'.logger.act e = _
    rw [Logger.after_append, ← hlogger']
    rfl

/-- A change of the heap does not look at the logger, so it is the same change on both. -/
theorem SameEvents.change {m m' : Machine} (hm : SameEvents l l' m m') (f : Heap → Heap) :
    SameEvents l l' { m with heap := f m.heap } { m' with heap := f m'.heap } :=
  ⟨congrArg f hm.heap, hm.config, hm.slotLimit, hm.events⟩

/-! ## What operations are made of

  An operation reads the heap and the configuration, changes the heap and logs. Each of these is
  the same on both machines. -/

/-- A message is one event, whatever the level. -/
theorem says_log (level : Level) (component : Component) (message : String) :
    Keeps (SameEvents l l') (log level component message) (log level component message) :=
  Keeps.modify fun _ _ hm => hm.act (e := .record level component.target message) trivial

/-- What only changes the heap logs nothing. -/
theorem says_change (f : Heap → Heap) :
    Keeps (SameEvents l l') (modify fun m => { m with heap := f m.heap } : Op Unit)
      (modify fun m => { m with heap := f m.heap }) :=
  Keeps.modify fun _ _ hm => hm.change f

/-- Machines can look at themselves, as long as they do not look at their loggers. -/
theorem says_get {k : Machine → Op α} (hblind : ∀ m logger, k { m with logger } = k m)
    (hk : ∀ m, Keeps (SameEvents l l') (k m) (k m)) :
    Keeps (SameEvents l l') (get >>= k) (get >>= k) := by
  refine Keeps.get fun m m' hm => ?_
  have hsame : m' = { m with logger := m'.logger } := by
    obtain ⟨config, logger, heap, slotLimit⟩ := m
    obtain ⟨config', logger', heap', slotLimit'⟩ := m'
    obtain rfl : heap' = heap := hm.heap
    obtain rfl : config' = config := hm.config
    obtain rfl : slotLimit' = slotLimit := hm.slotLimit
    rfl
  rw [hsame, hblind m m'.logger]
  exact hk m

/-- A fault that is found is raised on both. -/
theorem says_require (found : Except Fault α) :
    Keeps (SameEvents l l') (require found) (require found) := by
  cases found with
  | error f => exact Keeps.throw f
  | ok a => exact Keeps.pure a

/-- What is found out from the boxes is the same. -/
theorem says_reads {op : Op α} (found : Heap → Except Fault α)
    (hr : ∀ m : Machine, m.Reads op (found m.heap)) : Keeps (SameEvents l l') op op := by
  intro m m' hm
  rw [hr m, hr m', hm.heap]
  cases found m.heap with
  | error f => exact ⟨rfl, hm⟩
  | ok a => exact ⟨rfl, hm⟩

/-- The heaps are the same, so what is found in them is. -/
theorem says_listOf (operation : String) (v : Handle) :
    Keeps (SameEvents l l') (listOf operation v) (listOf operation v) :=
  says_reads (fun h => h.listOf operation v) fun _ => reads_listOf operation v

theorem says_setOf (operation : String) (v : Handle) :
    Keeps (SameEvents l l') (setOf operation v) (setOf operation v) :=
  says_reads (fun h => h.setOf operation v) fun _ => reads_setOf operation v

theorem says_mapOf (operation : String) (v : Handle) :
    Keeps (SameEvents l l') (mapOf operation v) (mapOf operation v) :=
  says_reads (fun h => h.mapOf operation v) fun _ => reads_mapOf operation v

theorem says_retain (v : Handle) : Keeps (SameEvents l l') (retain v) (retain v) :=
  says_change fun h => h.retain v.id

theorem says_drop (v : Handle) : Keeps (SameEvents l l') (drop v) (drop v) :=
  says_change fun h => h.drop v

theorem says_setContent (v : Handle) (content : Content) :
    Keeps (SameEvents l l') (setContent v content) (setContent v content) :=
  says_change fun h => h.setContent v.id content

/-! ## Operations

  Put together from their parts, as they are written. -/

/-- The number of a new box is the next one of the heap. -/
theorem says_newBox (datum : Datum) (content : Content) :
    Keeps (SameEvents l l') (newBox datum content) (newBox datum content) := by
  intro m m' hm
  have hbox : (m'.heap.alloc datum content).1 = (m.heap.alloc datum content).1 := by
    rw [hm.heap]
  exact ⟨hbox, hm.change fun h => (h.alloc datum content).2⟩

/-- The limits of the allocators are the same as well, so both get their slots or neither does. -/
theorem says_newList (hint : Nat) :
    Keeps (SameEvents l l') (newList hint) (newList hint) := by
  refine says_get (fun _ _ => rfl) fun m => ?_
  exact (says_require _).bind fun slots => says_newBox _ _

/-- Whether a release is told is for the configuration to say, and that is the same. -/
theorem says_release (v : Handle) (deep : Bool) :
    Keeps (SameEvents l l') (release v deep) (release v deep) := by
  have hcount : Keeps (SameEvents l l') (count v) (count v) :=
    says_get (fun _ _ => rfl) fun m => Keeps.pure _
  -- The count is read from the heap, which is the same on both.
  refine hcount.bind fun n => ?_
  dsimp only
  -- The same condition on both, so both are refused or both go on.
  split
  · exact Keeps.throw _
  · refine says_get (fun _ _ => rfl) fun m => ?_
    -- Giving up the handle, after a message or without one.
    have hdone : Keeps (SameEvents l l') (do
        drop v
        return n - 1) (do
        drop v
        return n - 1) := (says_drop v).bind fun _ => Keeps.pure _
    split
    · exact (says_log _ _ _).bind fun _ => hdone
    · exact hdone

/-- Giving back a handle after a refusal, and failing with the fault. -/
theorem says_giveBack (v : Handle) (f : Fault) :
    Keeps (SameEvents l l') (do
      drop v
      throw f : Op Unit) (do
      drop v
      throw f) :=
  (says_drop v).bind fun _ => Keeps.throw f

/-- What is told of a list is decided by the list. -/
theorem says_listAppend (list v : Handle) :
    Keeps (SameEvents l l') (listAppend list v) (listAppend list v) := by
  refine (says_listOf _ _).bind fun slots => ?_
  refine (says_retain v).bind fun _ => ?_
  refine says_get (fun _ _ => rfl) fun m => ?_
  cases slots.push m.slotLimit v with
  | ok grew grown =>
    refine (says_setContent list (.list grown)).bind fun _ => ?_
    exact Keeps.ite (says_log _ _ _) (Keeps.pure ())
  | error f left => exact (says_setContent list (.list left)).bind fun _ => says_giveBack v f

theorem says_listGet (list : Handle) (i : Nat) :
    Keeps (SameEvents l l') (listGet list i) (listGet list i) := by
  refine (says_listOf _ _).bind fun slots => ?_
  cases slots.get? i with
  | none => exact Keeps.pure none
  | some v => exact (says_retain v).bind fun _ => Keeps.pure (some v)

/-- What is told of an insertion is decided by its outcome. -/
theorem says_noteInsert {β : Type} (collection : Handle) (before after : Option Tag)
    (outcome : InsertOutcome β) :
    Keeps (SameEvents l l') (noteInsert collection before after outcome)
      (noteInsert collection before after outcome) := by
  -- a split is told only if the configuration says so
  have htraced : ∀ message : String, Keeps (SameEvents l l')
      (do if (← get).config.debug.traceSplits then log .debug .tree message)
      (do if (← get).config.debug.traceSplits then log .debug .tree message) := fun message =>
    says_get (fun _ _ => rfl) fun m => Keeps.ite (says_log _ _ _) (Keeps.pure ())
  unfold noteInsert
  dsimp only
  split
  · refine (says_log _ _ _).bind fun _ => ?_
    split
    · exact htraced _
    · exact Keeps.pure ()
  · split
    · exact htraced _
    · exact Keeps.pure ()

theorem says_setAdd (set v : Handle) :
    Keeps (SameEvents l l') (setAdd set v) (setAdd set v) := by
  refine (says_setOf _ _).bind fun tree => ?_
  refine (says_retain v).bind fun _ => ?_
  -- The heaps are the same, so the tree is the same and answers the same.
  cases tree.insert { key := v, item := () } with
  | error f left => exact (says_setContent set (.set left)).bind fun _ => says_giveBack v f
  | ok outcome grown =>
    have hnote : Keeps (SameEvents l l')
        (noteInsert set tree.elementType grown.elementType outcome)
        (noteInsert set tree.elementType grown.elementType outcome) := says_noteInsert _ _ _ _
    refine (says_setContent set (.set grown)).bind fun _ => ?_
    cases outcome with
    | added depth index split => exact hnote
    | merged displaced => exact (says_drop v).bind fun _ => hnote

theorem says_mapAdd (map key value : Handle) :
    Keeps (SameEvents l l') (mapAdd map key value) (mapAdd map key value) := by
  refine (says_mapOf _ _).bind fun tree => ?_
  refine (says_retain key).bind fun _ => (says_retain value).bind fun _ => ?_
  -- As for a set, with two handles to give back or to keep.
  cases tree.insert { key, item := value } with
  | error f left =>
    refine (says_setContent map (.map left)).bind fun _ => ?_
    exact (says_drop key).bind fun _ => says_giveBack value f
  | ok outcome grown =>
    have hnote : Keeps (SameEvents l l')
        (noteInsert map tree.elementType grown.elementType outcome)
        (noteInsert map tree.elementType grown.elementType outcome) := says_noteInsert _ _ _ _
    refine (says_setContent map (.map grown)).bind fun _ => ?_
    cases outcome with
    | added depth index split => exact hnote
    | merged displaced =>
      exact (says_drop displaced).bind fun _ => (says_drop key).bind fun _ => hnote

/-- Each fault is found by reading, and the handle of the item is made in silence. -/
theorem says_mapGet (map key : Handle) :
    Keeps (SameEvents l l') (mapGet map key) (mapGet map key) := by
  refine (says_mapOf _ _).bind fun tree => ?_
  -- The same faults in the same order on both.
  cases tree.elementType with
  | none => exact Keeps.throw _
  | some expected =>
    dsimp only
    split
    · exact Keeps.throw _
    · split
      · exact Keeps.throw _
      · refine (says_require _).bind fun found => ?_
        cases found with
        | none => exact Keeps.throw _
        | some e => exact (says_retain e.item).bind fun _ => Keeps.pure e.item

theorem says_listIndex (list index : Handle) :
    Keeps (SameEvents l l') (listIndex list index) (listIndex list index) := by
  unfold listIndex
  cases index.int? with
  | none => exact Keeps.throw _
  | some n =>
    dsimp only
    split
    · exact Keeps.throw _
    · refine (says_listOf _ _).bind fun slots => ?_
      refine (says_listGet list _).bind fun found => ?_
      cases found with
      | none => exact Keeps.throw _
      | some v => exact Keeps.pure v

theorem says_indexOf (collection key : Handle) :
    Keeps (SameEvents l l') (indexOf collection key) (indexOf collection key) := by
  unfold indexOf
  cases collection.tag with
  | list => exact says_listIndex collection key
  | map => exact says_mapGet collection key
  | _ => exact Keeps.throw _

theorem says_lengthOf (v : Handle) :
    Keeps (SameEvents l l') (lengthOf v) (lengthOf v) :=
  (says_reads (fun h => Plan.length h v) fun _ => reads_length v).bind fun _ =>
    says_newBox _ _

end Machine

open Machine in
/-- Machines that differ in their loggers alone. -/
def Likeness.sameEvents (l l' : Logger) : Likeness where
  Rel := SameEvents l l'
  Hints := Eq
  same_hint _ := rfl
  act _ he _ _ hm := hm.act he
  newBox := says_newBox
  newList hint _ heq := heq ▸ says_newList hint
  retain := says_retain
  drop := says_drop
  release := says_release
  listAppend := says_listAppend
  listGet := says_listGet
  setAdd := says_setAdd
  mapAdd := says_mapAdd
  indexOf := says_indexOf
  lengthOf := says_lengthOf

end BoxRuntime
