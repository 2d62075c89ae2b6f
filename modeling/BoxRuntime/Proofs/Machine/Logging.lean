/-
  What calls write to the log.

  What a call says is a function of the machine that it finds (`Call.notes`), and nothing else
  happens to the logger (`Call.tells_perform`).  So the log of a run is the list of the notes of its
  calls, and at the level that lets everything through all sinks get the records of these notes
  (`Client.got_after`).

  Releasing says when the last handle goes, and three operations say what they did to a container.
  That is stated for any number of elements at once (`treeNotes`, `listNotes`), as what is to be
  said of a container does not depend on what else is called in between.
-/
import BoxRuntime.Proofs.Log.Rings
import BoxRuntime.Proofs.Machine.Notes
import BoxRuntime.Proofs.Machine.Runs

namespace BoxRuntime

/-! ## What operations say

  The notes of a call, as a function of the machine before it. Notes are data; the text of one is
  another matter. -/

/-- What is said of an element type that was open before, and is known after. -/
def settledNotes (collection : Handle) : Option Tag → Option Tag → List Note
  | none, some tag => [.settled collection tag]
  | _, _ => []

/-- What is said of a split, if splits are traced. -/
def splitNotes {β : Type} (collection : Handle) (traced : Bool) : InsertOutcome β → List Note
  | .added depth index (some kind) =>
    if traced then [.split collection depth index kind] else []
  | _ => []

/-- What is said of an entry that a tree took. -/
def entryNotes {β : Type} (collection : Handle) (traced : Bool) (before after : Option Tag)
    (outcome : InsertOutcome β) : List Note :=
  settledNotes collection before after ++ splitNotes collection traced outcome

/-- What is said when an entry is added to a tree: nothing, if the tree does not take it. -/
def insertNotes {shape : Shape} {β : Type} (collection : Handle) (traced : Bool)
    (t : SearchTree shape β) (e : Entry β) : List Note :=
  match t.insert e with
  | .ok outcome t' => entryNotes collection traced t.elementType t'.elementType outcome
  | .error .. => []

/-- What is said when entries are added one after another. -/
def treeNotes {shape : Shape} {β : Type} (collection : Handle) (traced : Bool) :
    SearchTree shape β → List (Entry β) → List Note
  | _, [] => []
  | t, e :: es =>
    insertNotes collection traced t e ++ treeNotes collection traced (t.keep e) es

/-- What is said when an element is appended to a list: nothing, unless the list grows. -/
def appendNotes (list : Handle) (limit : Nat) (slots : GrowList Handle) : List Note :=
  match slots.reservation limit with
  | .ok capacity => if slots.isFull then [.grew list capacity] else []
  | .error _ => []

/-- What is said when elements are appended one after another. -/
def listNotes (list : Handle) (limit : Nat) : GrowList Handle → List Handle → List Note
  | _, [] => []
  | slots, v :: vs => appendNotes list limit slots ++ listNotes list limit (slots.keep limit v) vs

/-- What is said of the box of a handle when calls add to its content. -/
def Content.notes (v : Handle) (limit : Nat) (traced : Bool) (calls : List Call) :
    Content → List Note
  | fixed => []
  | list slots => listNotes v limit slots (calls.flatMap (Call.appended v.id))
  | set tree => treeNotes v traced tree (calls.flatMap (Call.added v.id))
  | map tree => treeNotes v traced tree (calls.flatMap (Call.stored v.id))

/-- The notes on a topic, for the box with a number. -/
def notesOn (topic : Topic) (id : Nat) (ns : List Note) : List Note :=
  ns.filter fun n => n.topic = topic ∧ n.subject.id = id

theorem notesOn_append (topic : Topic) (id : Nat) (ns later : List Note) :
    notesOn topic id (ns ++ later) = notesOn topic id ns ++ notesOn topic id later :=
  List.filter_append ns later

/-- A topic has no note on a box exactly if no note of the topic is on it. -/
theorem notesOn_eq_nil {topic : Topic} {id : Nat} {ns : List Note} :
    notesOn topic id ns = [] ↔ ∀ n ∈ ns, n.topic = topic → n.subject.id ≠ id := by
  rw [notesOn, List.filter_eq_nil_iff]
  refine forall₂_congr fun n _ => ?_
  rw [decide_eq_true_eq, not_and]

namespace Machine

/-- What is said of the box of a handle when a call adds to it. -/
def saidOf (m : Machine) (v : Handle) (call : Call) : List Note :=
  match m.heap.content? v.id with
  | some content => content.notes v m.slotLimit m.config.debug.traceSplits [call]
  | none => []

end Machine

/-- What a call says, on the machine that it finds. -/
def Call.notes (m : Machine) : Call → List Note
  | release v deep =>
    if m.heap.count v.id - 1 = 0 ∧ m.config.debug.traceBoxes ∧ ¬(deep ∧ v.tag.isContainer) then
      [.freed v deep]
    else []
  | listAppend list v => m.saidOf list (listAppend list v)
  | setAdd set v => m.saidOf set (setAdd set v)
  | mapAdd map key value => m.saidOf map (mapAdd map key value)
  | _ => []

/-! ### What it is about -/

/-- The note is about a container to which something is added. -/
structure Note.OfAdding (v : Handle) (n : Note) : Prop where
  subject_eq : n.subject = v
  topic_ne : n.topic ≠ .freed

variable {v : Handle} {n : Note}

/-- The notes of one insertion are on the collection, and of the kinds that only additions have. -/
theorem ofAdding_entryNotes {β : Type} {traced : Bool} {before after : Option Tag}
    {outcome : InsertOutcome β} (h : n ∈ entryNotes v traced before after outcome) :
    n.OfAdding v := by
  -- A note on the type or a note on the split, each of which may be missing.
  rcases List.mem_append.mp h with h | h
  · unfold settledNotes at h
    split at h
    · rw [List.mem_singleton.mp h]
      exact ⟨rfl, nofun⟩
    · exact absurd h List.not_mem_nil
  · unfold splitNotes at h
    split at h
    · split at h
      · rw [List.mem_singleton.mp h]
        exact ⟨rfl, nofun⟩
      · exact absurd h List.not_mem_nil
    · exact absurd h List.not_mem_nil

/-- Whatever is said while entries are added is about that tree, and of no freed box. -/
theorem ofAdding_treeNotes {shape : Shape} {β : Type} {traced : Bool} {t : SearchTree shape β}
    {es : List (Entry β)} (h : n ∈ treeNotes v traced t es) : n.OfAdding v := by
  induction es generalizing t with
  | nil => exact absurd h List.not_mem_nil
  | cons e es ih =>
    rcases List.mem_append.mp h with h | h
    · unfold insertNotes at h
      split at h
      · exact ofAdding_entryNotes h
      · exact absurd h List.not_mem_nil
    · exact ih h

/-- The same of a list that grows. -/
theorem ofAdding_listNotes {limit : Nat} {slots : GrowList Handle} {vs : List Handle}
    (h : n ∈ listNotes v limit slots vs) : n.OfAdding v := by
  -- On the elements: what is noted is noted by the first or by the others.
  induction vs generalizing slots with
  | nil => exact absurd h List.not_mem_nil
  | cons w vs ih =>
    rcases List.mem_append.mp h with h | h
    · unfold appendNotes at h
      split at h
      · split at h
        · rw [List.mem_singleton.mp h]
          exact ⟨rfl, nofun⟩
        · exact absurd h List.not_mem_nil
      · exact absurd h List.not_mem_nil
    · exact ih h

/-- Whatever the container, its notes come from additions. -/
theorem Content.ofAdding_notes {limit : Nat} {traced : Bool} {calls : List Call} {content : Content}
    (h : n ∈ content.notes v limit traced calls) : n.OfAdding v := by
  cases content with
  | fixed => exact absurd h List.not_mem_nil
  | list slots => exact ofAdding_listNotes h
  | set tree => exact ofAdding_treeNotes h
  | map tree => exact ofAdding_treeNotes h

/-- What a call says of a container comes from additions. -/
theorem Machine.ofAdding_saidOf {m : Machine} {call : Call} (h : n ∈ m.saidOf v call) :
    n.OfAdding v := by
  unfold saidOf at h
  split at h
  · exact Content.ofAdding_notes h
  · exact absurd h List.not_mem_nil

namespace Machine

/-- The operation says this, and leaves the configuration as it is. -/
structure Tells {α : Type} (m : Machine) (op : Op α) (ns : List Note) : Prop where
  logger : (leftBy (op m)).logger = m.logger.after (ns.map Note.event)
  config : (leftBy (op m)).config = m.config

/-- The operation says nothing. -/
def Silent {α : Type} (op : Op α) : Prop :=
  ∀ m : Machine, m.Tells op []

variable {α β : Type} {m : Machine} {ns : List Note}

/-- Silent operations one after another are silent. -/
theorem Silent.bind {op : Op α} {k : α → Op β} (h : Silent op) (hk : ∀ a, Silent (k a)) :
    Silent (op >>= k) := by
  have hboth : ∀ m, (leftBy ((op >>= k) m)).logger = m.logger ∧
      (leftBy ((op >>= k) m)).config = m.config :=
    leftBy_bind (fun m m' : Machine => m'.logger = m.logger ∧ m'.config = m.config)
      (fun h h' => ⟨h'.1.trans h.1, h'.2.trans h.2⟩)
      (fun m => ⟨(h m).logger, (h m).config⟩) (fun a m => ⟨(hk a m).logger, (hk a m).config⟩)
  exact fun m => ⟨(hboth m).1, (hboth m).2⟩

theorem silent_pure (a : α) : Silent (pure a) :=
  fun _ => ⟨rfl, rfl⟩

/-- Failing says nothing by itself. -/
theorem silent_throw (f : Fault) : Silent (throw f : Op α) :=
  fun _ => ⟨rfl, rfl⟩

/-- After a fault nothing is said, whatever would have come. -/
theorem silent_throw_bind (f : Fault) (k : α → Op β) : Silent ((throw f : Op α) >>= k) :=
  fun _ => ⟨rfl, rfl⟩

/-- A choice between silent operations is silent. -/
theorem silent_ite {c : Prop} [Decidable c] {op op' : Op α} (h : Silent op) (h' : Silent op') :
    Silent (if c then op else op') := by
  split
  · exact h
  · exact h'

theorem silent_get : Silent (get : Op Machine) :=
  fun _ => ⟨rfl, rfl⟩

/-- The result does not matter to the log. -/
theorem Tells.map {op : Op α} (h : m.Tells op ns) (f : α → β) : m.Tells (f <$> op) ns := by
  have hsame : leftBy ((f <$> op) m) = leftBy (op m) := by
    cases hop : op m with
    | ok a m' => rw [run_map hop]; rfl
    | error e m' => rw [run_map_error hop]; rfl
  exact ⟨hsame ▸ h.logger, hsame ▸ h.config⟩

/-- What reads first says what comes after that, or nothing if that does not come. -/
theorem Tells.read {op : Op α} {k : α → Op β} {found : Except Fault α} (hr : m.Reads op found)
    (herror : ∀ f, found = .error f → ns = []) (hk : ∀ a, found = .ok a → m.Tells (k a) ns) :
    m.Tells (op >>= k) ns := by
  cases found with
  | error f =>
    have hrun : (op >>= k) m = .error f m := run_bind_error hr k
    rw [herror f rfl]
    exact ⟨by rw [hrun]; rfl, by rw [hrun]; rfl⟩
  | ok a =>
    have hrun : (op >>= k) m = k a m := run_bind hr k
    have hsays := hk a rfl
    exact ⟨by rw [hrun]; exact hsays.logger, by rw [hrun]; exact hsays.config⟩

/-- What changes the heap first says what comes after that. -/
theorem Tells.then {op : Op α} {k : α → Op β} (heap : Heap) (a : α)
    (hop : op m = .ok a { m with heap }) (hk : ({ m with heap } : Machine).Tells (k a) ns) :
    m.Tells (op >>= k) ns := by
  have hrun : (op >>= k) m = k a { m with heap } := run_bind hop k
  exact ⟨by rw [hrun]; exact hk.logger, by rw [hrun]; exact hk.config⟩

/-- A note is a record of its level, its component and its message. -/
theorem tells_log (n : Note) : m.Tells (log n.level n.component n.message) [n] :=
  ⟨rfl, rfl⟩

/-- Of a split something is said if splits are traced. -/
theorem tells_split (collection : Handle) (outcome : InsertOutcome β) :
    m.Tells
      (match outcome with
        | .added depth index (some kind) => do
          if (← get).config.debug.traceSplits then
            log .debug .tree (Note.split collection depth index kind).message
        | _ => pure ())
      (splitNotes collection m.config.debug.traceSplits outcome) := by
  -- A merged entry splits nothing, and a split is told only if it is traced.
  cases outcome with
  | merged displaced => exact silent_pure () m
  | added depth index split =>
    rcases split with _ | kind
    · exact silent_pure () m
    · refine Tells.then m.heap m rfl ?_
      rw [splitNotes]
      split
      · exact tells_log (.split collection depth index kind)
      · exact silent_pure () m

/-- After an insertion its split and the type it fixed are told, if splits are traced. -/
theorem tells_noteInsert (collection : Handle) (before after : Option Tag)
    (outcome : InsertOutcome β) :
    m.Tells (noteInsert collection before after outcome)
      (entryNotes collection m.config.debug.traceSplits before after outcome) := by
  unfold noteInsert entryNotes
  rcases before with _ | old
  · rcases after with _ | tag
    · exact tells_split collection outcome
    · -- the logger has one record more, and the configuration is the same
      have hsettled := tells_log (m := m) (.settled collection tag)
      have hsplit := tells_split (m := leftBy (log .debug .tree
        (Note.settled collection tag).message m)) collection outcome
      refine ⟨?_, ?_⟩
      · rw [List.map_append, Logger.after_append]
        exact hsplit.logger
      · exact hsplit.config
  · exact tells_split collection outcome

/-! ### The ones that speak -/

/-- **A release tells of the box that it frees by itself**, if boxes are traced.  What is freed with
the box is not told. -/
theorem tells_release (v : Handle) (deep : Bool) :
    m.Tells (release v deep)
      (if m.heap.count v.id - 1 = 0 ∧ m.config.debug.traceBoxes ∧ ¬(deep ∧ v.tag.isContainer) then
        [.freed v deep]
      else []) := by
  have hcount : count v m = .ok (m.heap.count v.id) { m with heap := m.heap } := rfl
  refine Tells.then _ _ hcount ?_
  dsimp only
  -- The last handle of a container with `deep` is refused before anything is said.
  by_cases hlost : m.heap.count v.id - 1 = 0 ∧ deep ∧ v.tag.isContainer
  · rw [if_pos hlost, if_neg fun h => h.2.2 hlost.2]
    exact silent_throw _ m
  · rw [if_neg hlost]
    refine Tells.then m.heap m rfl ?_
    -- Otherwise something is said if the box goes and boxes are traced.
    by_cases htold : m.heap.count v.id - 1 = 0 ∧ m.config.debug.traceBoxes
    · rw [if_pos htold, if_pos ⟨htold.1, htold.2, fun hdeep => hlost ⟨htold.1, hdeep⟩⟩]
      exact ⟨rfl, rfl⟩
    · rw [if_neg htold, if_neg fun h => htold ⟨h.1, h.2.1⟩]
      exact ⟨rfl, rfl⟩

/-- Nothing is said of a box that has not the content that a call adds to. -/
theorem saidOf_eq_nil {v : Handle} {call : Call}
    (h : ∀ content, m.heap.content? v.id = some content →
      content.notes v m.slotLimit m.config.debug.traceSplits [call] = []) : m.saidOf v call = [] := by
  unfold saidOf
  rcases hc : m.heap.content? v.id with _ | content
  · rfl
  · exact h content hc

/-- What a call says of a live container depends on its content. -/
theorem saidOf_eq {v : Handle} {call : Call} {content : Content}
    (hc : m.heap.content? v.id = some content) :
    m.saidOf v call = content.notes v m.slotLimit m.config.debug.traceSplits [call] := by
  rw [saidOf, hc]

/-- Appending tells of the growth of the list. -/
theorem tells_listAppend (list v : Handle) :
    m.Tells (listAppend list v) (m.saidOf list (.listAppend list v)) := by
  refine Tells.read (reads_listOf "list_append" list) ?_ fun slots hslots => ?_
  · intro f hf
    refine saidOf_eq_nil fun content hc => ?_
    cases content with
    | list slots =>
      rw [Heap.listOf, hc] at hf
      cases hf
    | _ => rfl
  have hcontent := Heap.content?_of_listOf hslots
  have hsaid : m.saidOf list (.listAppend list v) = appendNotes list m.slotLimit slots := by
    rw [saidOf_eq hcontent, Content.notes, List.flatMap_singleton, Call.appended, if_pos rfl,
      listNotes, listNotes, List.append_nil]
  rw [hsaid, appendNotes]
  refine Tells.then (m.heap.retain v.id) () rfl ?_
  refine Tells.then (m.heap.retain v.id) _ rfl ?_
  dsimp only
  cases hr : slots.reservation m.slotLimit with
  | error f =>
    -- a push that is refused is not spoken of
    rw [GrowList.push_of_reservation_error hr]
    refine Tells.then _ () rfl ?_
    refine Tells.then _ () rfl ?_
    exact silent_throw f _
  | ok capacity =>
    rw [GrowList.push_of_reservation hr]
    refine Tells.then _ () rfl ?_
    dsimp only
    split
    · exact tells_log (.grew list capacity)
    · exact silent_pure () _

/-- Adding to a set tells of its split and of its type. -/
theorem tells_setAdd (set v : Handle) : m.Tells (setAdd set v) (m.saidOf set (.setAdd set v)) := by
  refine Tells.read (reads_setOf "set_add" set) ?_ fun tree htree => ?_
  · intro f hf
    refine saidOf_eq_nil fun content hc => ?_
    cases content with
    | set tree =>
      rw [Heap.setOf, hc] at hf
      cases hf
    | _ => rfl
  have hsaid : m.saidOf set (.setAdd set v) =
      insertNotes set m.config.debug.traceSplits tree { key := v, item := () } := by
    rw [saidOf_eq (Heap.content?_of_setOf htree), Content.notes, List.flatMap_singleton, Call.added,
      if_pos rfl, treeNotes, treeNotes, List.append_nil]
  rw [hsaid, insertNotes]
  refine Tells.then (m.heap.retain v.id) () rfl ?_
  cases tree.insert { key := v, item := () } with
  | error f left =>
    refine Tells.then _ () rfl ?_
    refine Tells.then _ () rfl ?_
    exact silent_throw f _
  | ok outcome grown =>
    -- the handles and the content are changed before anything is said
    refine Tells.then _ () rfl ?_
    cases outcome with
    | added depth index split => exact tells_noteInsert set tree.elementType grown.elementType _
    | merged displaced =>
      refine Tells.then _ () rfl ?_
      exact tells_noteInsert set tree.elementType grown.elementType _

/-- Adding to a map tells of its splits; a key that is there splits nothing. -/
theorem tells_mapAdd (map key value : Handle) :
    m.Tells (mapAdd map key value) (m.saidOf map (.mapAdd map key value)) := by
  refine Tells.read (reads_mapOf "map_add" map) ?_ fun tree htree => ?_
  · -- Without a map there is nothing to add to and nothing to say.
    intro f hf
    refine saidOf_eq_nil fun content hc => ?_
    cases content with
    | map tree =>
      rw [Heap.mapOf, hc] at hf
      cases hf
    | _ => rfl
  have hsaid : m.saidOf map (.mapAdd map key value) =
      insertNotes map m.config.debug.traceSplits tree { key, item := value } := by
    rw [saidOf_eq (Heap.content?_of_mapOf htree), Content.notes, List.flatMap_singleton,
      Call.stored, if_pos rfl, treeNotes, treeNotes, List.append_nil]
  rw [hsaid, insertNotes]
  -- Making handles is silent.
  refine Tells.then (m.heap.retain key.id) () rfl ?_
  refine Tells.then _ () rfl ?_
  cases tree.insert { key, item := value } with
  -- A refusal puts the map back and gives back the handles, all in silence.
  | error f left =>
    refine Tells.then _ () rfl ?_
    refine Tells.then _ () rfl ?_
    refine Tells.then _ () rfl ?_
    exact silent_throw f _
  | ok outcome grown =>
    refine Tells.then _ () rfl ?_
    cases outcome with
    | added depth index split => exact tells_noteInsert map tree.elementType grown.elementType _
    | merged displaced =>
      refine Tells.then _ () rfl ?_
      refine Tells.then _ () rfl ?_
      exact tells_noteInsert map tree.elementType grown.elementType _

/-! ### The silent ones -/

/-- What only reads does not touch the machine, so it cannot touch the log. -/
theorem silent_of_reads {op : Op α} {found : Machine → Except Fault α}
    (h : ∀ m : Machine, m.Reads op (found m)) : Silent op := by
  intro m
  have hread := h m
  unfold Reads at hread
  cases hfound : found m with
  | ok a =>
    rw [hfound] at hread
    exact ⟨by rw [hread]; rfl, by rw [hread]; rfl⟩
  | error f =>
    rw [hfound] at hread
    exact ⟨by rw [hread]; rfl, by rw [hread]; rfl⟩

/-- Making a box is not told, whether it succeeds or fails. -/
theorem silent_of_boxes {op : Op Handle} {plan : Machine → Except Fault (Datum × Content)}
    (h : ∀ m : Machine, m.Boxes op (plan m)) : Silent op := by
  intro m
  have hboxes := h m
  unfold Boxes at hboxes
  rcases hplan : plan m with f | ⟨datum, content⟩
  · rw [hplan] at hboxes
    exact ⟨by rw [hboxes]; rfl, by rw [hboxes]; rfl⟩
  · rw [hplan] at hboxes
    exact ⟨by rw [hboxes]; rfl, by rw [hboxes]; rfl⟩

/-- The other operations are silent, each because its parts are. -/
theorem silent_retain (v : Handle) : Silent (retain v) :=
  fun _ => ⟨rfl, rfl⟩

theorem silent_drop (v : Handle) : Silent (drop v) :=
  fun _ => ⟨rfl, rfl⟩

theorem silent_retained (v : Handle) (a : α) :
    Silent (do
      retain v
      return a) :=
  (silent_retain v).bind fun _ => silent_pure a

theorem silent_forM {γ : Type} {f : γ → Op Unit} (hf : ∀ c, Silent (f c)) (cs : List γ) :
    Silent (cs.forM f) := by
  induction cs with
  | nil => exact silent_pure ()
  | cons c cs ih => exact (hf c).bind fun _ => ih

theorem silent_upgrade (v : Handle) : Silent (upgrade v) := by
  refine silent_get.bind fun m => ?_
  split
  · exact silent_retained v (some v)
  · exact silent_pure none

theorem silent_listOf (operation : String) (v : Handle) : Silent (listOf operation v) :=
  silent_of_reads fun _ => reads_listOf operation v

theorem silent_setOf (operation : String) (v : Handle) : Silent (setOf operation v) :=
  silent_of_reads fun _ => reads_setOf operation v

theorem silent_mapOf (operation : String) (v : Handle) : Silent (mapOf operation v) :=
  silent_of_reads fun _ => reads_mapOf operation v

theorem silent_require (found : Except Fault α) : Silent (require found) :=
  silent_of_reads fun _ => reads_require found

theorem silent_listGet (list : Handle) (i : Nat) : Silent (listGet list i) := by
  refine (silent_listOf _ list).bind fun slots => ?_
  split
  · exact silent_retained _ _
  · exact silent_pure none

theorem silent_setContains (set v : Handle) : Silent (setContains set v) :=
  (silent_setOf _ set).bind fun tree => (silent_require (tree.find v)).bind fun _ => silent_pure _

theorem silent_setElements (set : Handle) : Silent (setElements set) :=
  (silent_setOf _ set).bind fun _ => (silent_forM silent_retain _).bind fun _ => silent_pure _

theorem silent_mapGet (map key : Handle) : Silent (mapGet map key) := by
  refine (silent_mapOf _ map).bind fun tree => ?_
  split
  · exact silent_throw _
  · refine silent_ite (silent_throw_bind _ _) (silent_ite (silent_throw_bind _ _) ?_)
    refine (silent_require _).bind fun found => ?_
    split
    · exact silent_retained _ _
    · exact silent_throw _

theorem silent_mapEntries (map : Handle) : Silent (mapEntries map) := by
  refine (silent_mapOf _ map).bind fun _ => Silent.bind (silent_forM ?_ _) fun _ => silent_pure _
  exact fun (key, value) => (silent_retain key).bind fun _ => silent_retain value

theorem silent_listIndex (list index : Handle) : Silent (listIndex list index) := by
  unfold listIndex
  split
  · exact silent_throw _
  · refine silent_ite (silent_throw_bind _ _) ?_
    refine (silent_listOf _ list).bind fun slots => (silent_listGet list _).bind fun found => ?_
    split
    · exact silent_pure _
    · exact silent_throw _

theorem silent_indexOf (collection key : Handle) : Silent (indexOf collection key) := by
  unfold indexOf
  split
  · exact silent_listIndex collection key
  · exact silent_mapGet collection key
  · exact silent_throw _

theorem silent_treeStats (v : Handle) : Silent (treeStats v) := by
  refine Silent.bind (fun m => ⟨rfl, rfl⟩) fun content => ?_
  split
  · exact silent_pure _
  · exact silent_pure _
  · exact silent_throw _

end Machine

open Machine in
/-- **What a call says**: its notes and nothing else. -/
theorem Call.tells_perform (call : Call) (m : Machine) : m.Tells call.perform (call.notes m) := by
  -- Four operations say something; all others only read, or make a box.
  cases call with
  | boxString text => exact ((silent_of_boxes fun _ => boxes_newBox _ _) m).map _
  | boxInt n => exact ((silent_of_boxes fun _ => boxes_newBox _ _) m).map _
  | emptyBox tag => exact ((silent_of_boxes fun _ => boxes_emptyBox tag) m).map _
  | newList hint => exact ((silent_of_boxes fun _ => boxes_newList hint) m).map _
  | newSet elementType => exact ((silent_of_boxes fun _ => boxes_newBox _ _) m).map _
  | newMap keyType => exact ((silent_of_boxes fun _ => boxes_newBox _ _) m).map _
  | retain v => exact (silent_retain v m).map _
  | drop v => exact (silent_drop v m).map _
  | release v deep => exact (tells_release v deep).map _
  | upgrade v => exact (silent_upgrade v m).map _
  | listAppend list v => exact (tells_listAppend list v).map _
  | listGet list i => exact (silent_listGet list i m).map _
  | setAdd set v => exact (tells_setAdd set v).map _
  | setContains set v => exact (silent_setContains set v m).map _
  | setElements set => exact (silent_setElements set m).map _
  | mapAdd map key value => exact (tells_mapAdd map key value).map _
  | mapGet map key => exact (silent_mapGet map key m).map _
  | mapEntries map => exact (silent_mapEntries map m).map _
  | indexOf collection key => exact (silent_indexOf collection key m).map _
  | lengthOf v => exact ((silent_of_boxes fun _ => boxes_lengthOf v) m).map _
  | treeStats v => exact (silent_treeStats v m).map _

/-! ## Runs

  What a run says is what its calls say, one after another, and it speaks only of boxes that are
  held. -/

namespace Client

/-- What is said when a client makes these calls. -/
def notes (c : Client) : List Call → List Note
  | [] => []
  | call :: calls => call.notes c.machine ++ (c.step call).notes calls

/-- The notes of a run come call by call. -/
theorem notes_append (c : Client) (calls later : List Call) :
    c.notes (calls ++ later) = c.notes calls ++ (c.after calls).notes later := by
  induction calls generalizing c with
  | nil => rfl
  | cons call calls ih => rw [List.cons_append, notes, notes, after_cons, ih, List.append_assoc]

variable {c : Client} {call : Call} {calls : List Call} {n : Note} {id : Nat}

/-- A call says something of a box that the client holds. -/
theorem subject_held (hallow : c.Allows call) (hn : n ∈ call.notes c.machine) :
    n.subject ∈ c.held := by
  -- What is said while adding is about the container, which is an operand.
  have hadding : ∀ {v : Handle}, v ∈ call.operands → n ∈ c.machine.saidOf v call →
      n.subject ∈ c.held := by
    intro v hv hsaid
    rw [(Machine.ofAdding_saidOf hsaid).subject_eq]
    exact hallow.1 v hv
  cases call with
  | release v deep =>
    rw [Call.notes] at hn
    split at hn
    · rw [List.mem_singleton.mp hn]
      exact hallow.1 v List.mem_cons_self
    · exact absurd hn List.not_mem_nil
  | listAppend list v => exact hadding List.mem_cons_self hn
  | setAdd set v => exact hadding List.mem_cons_self hn
  | mapAdd map key value => exact hadding List.mem_cons_self hn
  | _ => exact absurd hn List.not_mem_nil

/-- Nothing is said of a box while it is not there. -/
theorem Reachable.notesOn_of_absent (hr : Reachable c) (hallow : c.AllowsAll calls)
    (habsent : ∀ early late, calls = early ++ late → (c.after early).isLive id = false)
    (topic : Topic) : notesOn topic id (c.notes calls) = [] := by
  induction calls generalizing c with
  | nil => rfl
  | cons call calls ih =>
    -- The box is absent after the first call as well, at all times.
    have hrest : notesOn topic id ((c.step call).notes calls) = [] := by
      refine ih (hr.step hallow.1) hallow.2 fun early late hcalls => ?_
      exact habsent (call :: early) late (congrArg _ hcalls)
    rw [notes, notesOn_append, hrest, List.append_nil]
    -- Whatever a call speaks of is held, and what is held is live.
    refine notesOn_eq_nil.mpr fun n hn _ hid => ?_
    have hlive := hr.accounted.held_live _ (subject_held hallow.1 hn)
    rw [hid] at hlive
    exact Bool.false_ne_true ((habsent [] _ rfl).symm.trans hlive)

/-- Nothing more is said of a box that is freed. -/
theorem Reachable.notesOn_of_freed (hr : Reachable c) (hallow : c.AllowsAll calls)
    (hid : id < c.machine.heap.nextId) (hfreed : c.isLive id = false) (topic : Topic) :
    notesOn topic id (c.notes calls) = [] := by
  refine hr.notesOn_of_absent hallow (fun early late hcalls => ?_) topic
  rw [hcalls, allowsAll_append] at hallow
  exact hr.stays_freed hallow.1 hid hfreed

/-- No call changes the configuration. -/
theorem config_step (c : Client) (call : Call) :
    (c.step call).machine.config = c.machine.config := by
  rw [machine_step]
  exact (call.tells_perform c.machine).config

/-- What is traced at the beginning is traced all along. -/
theorem config_after (c : Client) (calls : List Call) :
    (c.after calls).machine.config = c.machine.config := by
  induction calls generalizing c with
  | nil => rfl
  | cons call calls ih => rw [after_cons, ih, config_step]

/-- The log of a run is what its calls say. -/
theorem logger_after (c : Client) (calls : List Call) :
    (c.after calls).machine.logger = c.machine.logger.after ((c.notes calls).map Note.event) := by
  induction calls generalizing c with
  | nil => rfl
  | cons call calls ih =>
    have hfirst := (call.tells_perform c.machine).logger
    rw [← machine_step] at hfirst
    rw [after_cons, ih, hfirst, notes, List.map_append, Logger.after_append]

end Client

/-! ## Records

  At the lowest level each note becomes one record, and every sink gets it. -/

/-- At the level that lets everything through, every note makes its record. -/
theorem written_notes {l : Logger} (hlevel : l.level = .trace) (ns : List Note) :
    l.written (ns.map Note.event) = ns.map (Note.record l) := by
  induction ns generalizing l with
  | nil => rfl
  | cons n ns ih =>
    have henabled : l.isEnabled n.level = true := by
      unfold Logger.isEnabled
      rw [hlevel]
      cases n.level <;> rfl
    have hlater : (l.act n.event).level = .trace :=
      (Logger.level_act (e := n.event) trivial l).trans hlevel
    -- a record changes neither the time nor the spans
    have hsame := Logger.sameSpans_log l n.level n.component.target n.message
    have hrecord : Note.record (l.act n.event) = Note.record l := by
      funext n'
      show Logger.recordOf (l.log n.level n.component.target n.message) _ _ _ = _
      rw [Note.record, Logger.recordOf, Logger.recordOf, hsame.now, hsame.spans]
    rw [List.map_cons, List.map_cons, Logger.written, ih hlater, hrecord, Note.event,
      Logger.made_record, if_pos henabled]
    rfl

/-- The records on a topic, for the box with a number. -/
def onTopic (topic : Topic) (id : Nat) (rs : List Record) : List Record :=
  rs.filter fun r => r.message.startsWith (topic.head id)

/-- They are those of the notes on this topic and box. -/
theorem onTopic_records (topic : Topic) (id : Nat) (l : Logger) (ns : List Note) :
    onTopic topic id (ns.map (Note.record l)) = (notesOn topic id ns).map (Note.record l) := by
  rw [onTopic, notesOn, List.filter_map]
  refine congrArg _ (List.filter_congr fun n _ => ?_)
  rw [Function.comp_apply, Bool.eq_iff_iff, decide_eq_true_eq]
  exact n.startsWith_head topic id

namespace Client

variable {c : Client} {calls : List Call}

/-- **All sinks get what the calls of a run say**, and nothing else. -/
theorem got_after (hlevel : c.machine.logger.level = .trace) (calls : List Call) :
    c.machine.logger.Got ((c.notes calls).map (Note.record c.machine.logger))
      (c.after calls).machine.logger := by
  have hsteady : ∀ e ∈ (c.notes calls).map Note.event, e.Steady := by
    intro e he
    obtain ⟨n, -, rfl⟩ := List.mem_map.mp he
    trivial
  have hgot := Logger.got_after hsteady c.machine.logger
  rw [written_notes hlevel, ← logger_after] at hgot
  exact hgot

end Client

end BoxRuntime
