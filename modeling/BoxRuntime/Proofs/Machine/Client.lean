/-
  Clients, and who owns a box.

  A client is whoever works on a machine: it calls operations (`Call`) with handles that it holds,
  in any order and as often as it likes, and holds the handles that it is given.  A handle that it
  drops or releases is gone.  It can ask, through a weak handle, for any box that it has ever held
  whether it is still there.

  A deep release that fails takes the handle from the client without giving it up; such a handle is
  `lost`, and still counts.  So the owners of a box are: the handles the client holds, the handles
  that live containers hold, and the lost ones (`Client.owners`).

  The main statement is `Reachable.accounted`.  In whatever state a client can reach, every live
  box counts exactly its owners; a call frees exactly those boxes that it leaves without an owner,
  be it directly or because a container was freed that held them; and neither the client nor a
  live container holds a handle of a freed box.

  The invariant is that the heap is healthy with the held and lost handles outside, and one call
  keeps it (`Client.perform_settles`).
-/
import BoxRuntime.Proofs.Machine.Balance

namespace BoxRuntime

/-! ## Calls

  All operations that a client can call, as data, with the handles that a call uses, spends and
  loses. -/

/-- A call of an operation. -/
inductive Call where
  | boxString (text : String)
  | boxInt (n : Int64)
  | emptyBox (tag : Tag)
  | newList (hint : Nat)
  | newSet (elementType : Tag)
  | newMap (keyType : Tag)
  | retain (v : Handle)
  | drop (v : Handle)
  | release (v : Handle) (deep : Bool)
  | upgrade (v : Handle)
  | listAppend (list v : Handle)
  | listGet (list : Handle) (i : Nat)
  | setAdd (set v : Handle)
  | setContains (set v : Handle)
  | setElements (set : Handle)
  | mapAdd (map key value : Handle)
  | mapGet (map key : Handle)
  | mapEntries (map : Handle)
  | indexOf (collection key : Handle)
  | lengthOf (v : Handle)
  | treeStats (v : Handle)
deriving DecidableEq

namespace Call

/-- Carries out the call.  The result is the handles that the caller is given. -/
def perform : Call → Op (List Handle)
  | boxString text => (fun v => [v]) <$> Machine.boxString text
  | boxInt n => (fun v => [v]) <$> Machine.boxInt n
  | emptyBox tag => (fun v => [v]) <$> Machine.emptyBox tag
  | newList hint => (fun v => [v]) <$> Machine.newList hint
  | newSet elementType => (fun v => [v]) <$> Machine.newSet elementType
  | newMap keyType => (fun v => [v]) <$> Machine.newMap keyType
  | retain v => (fun _ => [v]) <$> Machine.retain v
  | drop v => (fun _ => []) <$> Machine.drop v
  | release v deep => (fun _ => []) <$> Machine.release v deep
  | upgrade v => Option.toList <$> Machine.upgrade v
  | listAppend list v => (fun _ => []) <$> Machine.listAppend list v
  | listGet list i => Option.toList <$> Machine.listGet list i
  | setAdd set v => (fun _ => []) <$> Machine.setAdd set v
  | setContains set v => (fun _ => []) <$> Machine.setContains set v
  | setElements set => id <$> Machine.setElements set
  | mapAdd map key value => (fun _ => []) <$> Machine.mapAdd map key value
  | mapGet map key => (fun v => [v]) <$> Machine.mapGet map key
  | mapEntries map =>
    (fun pairs => pairs.flatMap fun p => [p.1, p.2]) <$> Machine.mapEntries map
  | indexOf collection key => (fun v => [v]) <$> Machine.indexOf collection key
  | lengthOf v => (fun n => [n]) <$> Machine.lengthOf v
  | treeStats v => (fun _ => []) <$> Machine.treeStats v

/-- The handles that the caller must hold. -/
def operands : Call → List Handle
  | retain v | drop v | release v _ | listGet v _ | setElements v | mapEntries v | lengthOf v
  | treeStats v => [v]
  | listAppend list v => [list, v]
  | setAdd set v | setContains set v => [set, v]
  | mapAdd map key value => [map, key, value]
  | mapGet map key => [map, key]
  | indexOf collection key => [collection, key]
  | _ => []

/-- The weak handles that the call looks through. -/
def watched : Call → List Handle
  | upgrade v => [v]
  | _ => []

/-- The handles that the call takes from the caller. -/
def spent : Call → List Handle
  | drop v | release v _ => [v]
  | _ => []

/-- The handles that the call, if it fails so, took from the caller without giving them up. -/
def lost : Call → Fault → List Handle
  | release v true, .unsupported .. => [v]
  | _, _ => []

end Call

/-! ## Clients

  A client may call an operation with handles that it holds, and upgrade any box that it has held.
  Nothing else restricts it. -/

/-- A machine, and the handles of whoever works on it. -/
structure Client where
  machine : Machine
  /-- The handles that the client holds. -/
  held : List Handle := []
  /-- Handles that failed deep releases left counted. -/
  lost : List Handle := []
  /-- Every handle that the client was ever given. -/
  known : List Handle := []

namespace Client

/-- The client holds what the call needs. -/
def Allows (c : Client) (call : Call) : Prop :=
  (∀ v ∈ call.operands, v ∈ c.held) ∧ ∀ v ∈ call.watched, v ∈ c.known

/-- What the client still holds when a call took its share. -/
def kept (c : Client) (call : Call) : List Handle :=
  call.spent.foldl List.erase c.held

/-- The client after a call. -/
def step (c : Client) (call : Call) : Client :=
  match call.perform c.machine with
  | .ok gained machine =>
    { machine
      held := gained ++ c.kept call
      lost := c.lost
      known := gained ++ c.known }
  | .error f machine =>
    { machine
      held := c.kept call
      lost := call.lost f ++ c.lost
      known := c.known }

/-- Whether a box has not been freed. -/
def isLive (c : Client) (id : Nat) : Bool :=
  c.machine.heap.isLive id

/-- The number of handles that own a box: those that are held, those in live containers (one for
each slot of a list, entry of a set, key and value of a map), and the lost ones. -/
def owners (c : Client) (id : Nat) : Nat :=
  tally id c.held + tally id c.machine.heap.owned + tally id c.lost

/-- The states of clients that start with an empty machine. -/
inductive Reachable : Client → Prop where
  | start (config : RuntimeConfig) (logger : Logger) (slotLimit : Nat) :
      Reachable { machine := { config, logger, slotLimit } }
  | step {c : Client} {call : Call} : Reachable c → c.Allows call → Reachable (c.step call)

/-! ## One call

  Each operation follows a balanced plan, so it leaves a healthy heap, with the handles that it
  gave in the hands of the client; if it fails, it leaves the heap as it was. -/

/-- The boxes of the second heap that are not new were there before. -/
structure Succeeds (h h' : Heap) : Prop where
  nextId_le : h.nextId ≤ h'.nextId
  live : ∀ id, id < h.nextId → h'.isLive id = true → h.isLive id = true

/-- How a call ends: the heap is healthy with what the caller then has, or nothing happened, but
for handles that were lost. -/
def Settles (m : Machine) (op : Op (List Handle)) (spent outside : List Handle)
    (lost : Fault → List Handle) : Prop :=
  match op m with
  | .ok gained m' => m'.heap.Healthy (gained ++ outside) ∧ Succeeds m.heap m'.heap
  | .error f m' => m' = m ∧ lost f = spent

variable {α : Type} {m : Machine} {outside : List Handle}

/-- A patch gives out no number: boxes that are gone stay gone. -/
theorem succeeds_patch (h : Heap) (p : Patch) : Succeeds h (h.patch p) := by
  refine ⟨Nat.le_of_eq (h.nextId_patch p).symm, ?_⟩
  intro id _ hlive
  obtain ⟨cell, hcell⟩ := Heap.isLive_iff.mp hlive
  -- back through the patch: what outlives the cascade was live before it, and before that
  have hcontent := Heap.content?_dropAll (Heap.content?_eq_some.mpr ⟨cell, hcell, rfl⟩)
  have hrevised : (h.retainAll p.retained).isLive id = true := by
    cases hr : p.revised with
    | none =>
      rw [hr] at hcontent
      obtain ⟨c, hc, -⟩ := Heap.content?_eq_some.mp hcontent
      exact Heap.isLive_iff.mpr ⟨c, hc⟩
    | some r =>
      rw [hr] at hcontent
      obtain ⟨c, hc, -⟩ := Heap.content?_eq_some.mp hcontent
      rw [← Heap.isLive_setContent _ r.1.id r.2]
      exact Heap.isLive_iff.mpr ⟨c, hc⟩
  obtain ⟨c, hc⟩ := Heap.isLive_iff.mp hrevised
  have hbefore := Heap.content?_eq_some.mpr ⟨c, hc, rfl⟩
  rw [Heap.content?_retainAll] at hbefore
  obtain ⟨c', hc', -⟩ := Heap.content?_eq_some.mp hbefore
  exact Heap.isLive_iff.mpr ⟨c', hc'⟩

/-- A new box gets the next number, so it is none of those that are gone. -/
theorem succeeds_alloc (h : Heap) (datum : Datum) (content : Content) :
    Succeeds h (h.alloc datum content).2 := by
  constructor
  · rw [Heap.nextId_alloc]
    exact Nat.le_succ _
  · intro id hid hlive
    rw [Heap.isLive, Heap.cell?_alloc, if_neg (Nat.ne_of_lt hid)] at hlive
    exact hlive

/-- A call settles if its plan balances. -/
theorem settles_of_does {op : Op α} {plan : Except Fault (α × Patch)} {spent : List Handle}
    {lost : Fault → List Handle} (given : α → List Handle) (hd : m.Does op plan)
    (hh : m.heap.Healthy (spent ++ outside))
    (hb : ∀ a p, plan = .ok (a, p) → p.Balanced m.heap spent (given a))
    (hlost : ∀ f, plan = .error f → lost f = spent) :
    Settles m (given <$> op) spent outside lost := by
  unfold Settles
  -- A plan that is a fault leaves the heap; one that succeeds patches it, and the patch is
  -- balanced.
  cases plan with
  | error f =>
    rw [run_map_error hd given]
    exact ⟨rfl, hlost f rfl⟩
  | ok r =>
    obtain ⟨a, p⟩ := r
    obtain ⟨logger, hok⟩ := hd
    rw [run_map hok given]
    exact ⟨hh.patch (hb a p rfl), succeeds_patch m.heap p⟩

/-- A call that cannot fail settles if its patch balances. -/
theorem settles_of_patch {op : Op α} {a : α} {p : Patch} {spent : List Handle}
    {lost : Fault → List Handle} (given : α → List Handle) (hd : m.Does op (.ok (a, p)))
    (hh : m.heap.Healthy (spent ++ outside)) (hb : p.Balanced m.heap spent (given a)) :
    Settles m (given <$> op) spent outside lost := by
  refine settles_of_does given hd hh ?_ ?_
  · intro a' p' hp
    obtain ⟨rfl, rfl⟩ := Prod.mk.inj (Except.ok.inj hp)
    exact hb
  · intro f hf
    cases hf

/-- A call that makes a box settles if the box owns nothing. -/
theorem settles_of_boxes {op : Op Handle} {plan : Except Fault (Datum × Content)}
    (hd : m.Boxes op plan) (hh : m.heap.Healthy outside)
    (hb : ∀ datum content, plan = .ok (datum, content) → content.Blank)
    {lost : Fault → List Handle} (hlost : ∀ f, lost f = []) :
    Settles m ((fun v => [v]) <$> op) [] outside lost := by
  unfold Settles
  -- The same with a new box, whose content holds nothing yet.
  cases plan with
  | error f =>
    rw [run_map_error hd]
    exact ⟨rfl, hlost f⟩
  | ok r =>
    obtain ⟨datum, content⟩ := r
    rw [run_map hd]
    exact ⟨hh.alloc datum (hb datum content rfl), succeeds_alloc m.heap datum content⟩

open Machine in
/-- Every call settles: what the caller spends and what he is given are accounted for. -/
theorem perform_settles (call : Call) (hh : m.heap.Healthy (call.spent ++ outside))
    (hheld : ∀ v ∈ call.operands, v ∈ call.spent ++ outside) :
    Settles m call.perform call.spent outside call.lost := by
  -- Contents that a box is made with hold no handles.
  have hnew : ∀ {datum datum' : Datum} {content content' : Content}, content.Blank →
      (.ok (datum, content) : Except Fault (Datum × Content)) = .ok (datum', content') →
        content'.Blank := by
    intro datum datum' content content' hblank h
    obtain ⟨-, rfl⟩ := Prod.mk.inj (Except.ok.inj h)
    exact hblank
  -- Each operation has its plan, and what it is asked here is that the plan be balanced.
  cases call with
  | boxString text =>
    exact settles_of_boxes (boxes_newBox (.string text) .fixed) hh (fun _ _ => hnew blank_fixed)
      fun _ => rfl
  | boxInt n =>
    exact settles_of_boxes (boxes_newBox (.int n) .fixed) hh (fun _ _ => hnew blank_fixed)
      fun _ => rfl
  | emptyBox tag =>
    refine settles_of_boxes (boxes_emptyBox tag) hh ?_ fun _ => rfl
    intro datum content h
    obtain ⟨d, -, hd⟩ := Plan.map_eq_ok.mp h
    obtain ⟨-, rfl⟩ := Prod.mk.inj hd
    exact blank_fixed
  | newList hint =>
    refine settles_of_boxes (boxes_newList hint) hh ?_ fun _ => rfl
    intro datum content h
    obtain ⟨slots, hslots, hd⟩ := Plan.map_eq_ok.mp h
    obtain ⟨-, rfl⟩ := Prod.mk.inj hd
    exact blank_list hslots
  | newSet elementType =>
    exact settles_of_boxes (boxes_newBox .set (.set (.new elementType))) hh
      (fun _ _ => hnew (blank_set elementType)) fun _ => rfl
  | newMap keyType =>
    exact settles_of_boxes (boxes_newBox .map (.map (.new keyType))) hh
      (fun _ _ => hnew (blank_map keyType)) fun _ => rfl
  | retain v =>
    refine settles_of_patch (fun _ => [v]) (does_retain v) hh ?_
    refine Plan.balanced_retained fun w hw => ?_
    rw [List.mem_singleton.mp hw]
    exact hh.ledger.live_of_mem (hheld v List.mem_cons_self)
  | drop v =>
    exact settles_of_patch (fun _ => []) (does_drop v) hh (Plan.balanced_dropped [v])
  | release v deep =>
    refine settles_of_does (fun _ => []) (does_release v deep) hh
      (fun _ _ => Plan.release_balanced) ?_
    intro f hf
    obtain ⟨rfl, rfl⟩ := Plan.release_eq_error hf
    rfl
  | upgrade v =>
    exact settles_of_patch Option.toList (does_upgrade v) hh (Plan.upgrade_balanced v)
  | listAppend list v =>
    refine settles_of_does (fun _ => []) (does_listAppend list v) hh ?_ fun _ _ => rfl
    intro a p hp
    exact Plan.listAppend_balanced hh (hheld v (by simp [Call.operands])) hp
  | listGet list i =>
    exact settles_of_does Option.toList (does_listGet list i) hh
      (fun _ _ => Plan.listGet_balanced hh) fun _ _ => rfl
  | setAdd set v =>
    refine settles_of_does (fun _ => []) (does_setAdd set v) hh ?_ fun _ _ => rfl
    intro a p hp
    exact Plan.setAdd_balanced hh (hheld v (by simp [Call.operands])) hp
  | setContains set v =>
    exact settles_of_does (fun _ => []) (does_setContains set v) hh
      (fun _ _ => Plan.setContains_balanced) fun _ _ => rfl
  | setElements set =>
    exact settles_of_does id (does_setElements set) hh
      (fun _ _ => Plan.setElements_balanced hh) fun _ _ => rfl
  | mapAdd map key value =>
    refine settles_of_does (fun _ => []) (does_mapAdd map key value) hh ?_ fun _ _ => rfl
    intro a p hp
    exact Plan.mapAdd_balanced hh (hheld key (by simp [Call.operands]))
      (hheld value (by simp [Call.operands])) hp
  | mapGet map key =>
    exact settles_of_does (fun v => [v]) (does_mapGet map key) hh
      (fun _ _ => Plan.mapGet_balanced hh) fun _ _ => rfl
  | mapEntries map =>
    exact settles_of_does _ (does_mapEntries map) hh
      (fun _ _ => Plan.mapEntries_balanced hh) fun _ _ => rfl
  | indexOf collection key =>
    exact settles_of_does (fun v => [v]) (does_indexOf collection key) hh
      (fun _ _ => Plan.indexOf_balanced hh) fun _ _ => rfl
  | lengthOf v =>
    refine settles_of_boxes (boxes_lengthOf v) hh ?_ fun _ => rfl
    intro datum content h
    obtain ⟨n, -, hd⟩ := Plan.map_eq_ok.mp h
    obtain ⟨-, rfl⟩ := Prod.mk.inj hd
    exact blank_fixed
  | treeStats v =>
    exact settles_of_does (fun _ => []) (does_treeStats v) hh
      (fun _ _ => Plan.treeStats_balanced) fun _ _ => rfl

/-! ## Runs

  The invariant of all reachable states, and what it says about owners. -/

/-- The invariant: the heap is healthy with the client's handles and the lost ones outside. -/
def Healthy (c : Client) : Prop :=
  c.machine.heap.Healthy (c.held ++ c.lost)

/-- The handles of a client are those that a call spends and those that it leaves. -/
theorem held_perm {c : Client} {call : Call} (hallow : c.Allows call) :
    c.held.Perm (call.spent ++ c.kept call) := by
  cases call with
  | drop v => exact List.perm_cons_erase (hallow.1 v List.mem_cons_self)
  | release v deep => exact List.perm_cons_erase (hallow.1 v List.mem_cons_self)
  | _ => exact List.Perm.refl _

/-- One call keeps the heap healthy, and makes no freed box live. -/
theorem Healthy.step {c : Client} (hc : c.Healthy) {call : Call} (hallow : c.Allows call) :
    (c.step call).Healthy ∧ Succeeds c.machine.heap (c.step call).machine.heap := by
  -- first sort the handles outside into those that the call spends and the others
  have hperm : (c.held ++ c.lost).Perm (call.spent ++ (c.kept call ++ c.lost)) := by
    rw [← List.append_assoc]
    exact (held_perm hallow).append_right c.lost
  have hh : c.machine.heap.Healthy (call.spent ++ (c.kept call ++ c.lost)) :=
    hc.of_perm hperm.symm
  have hheld : ∀ v ∈ call.operands, v ∈ call.spent ++ (c.kept call ++ c.lost) :=
    fun v hv => hperm.mem_iff.mp (List.mem_append_left _ (hallow.1 v hv))
  have hsettles := perform_settles call hh hheld
  unfold Settles at hsettles
  unfold Client.step Healthy
  cases hresult : call.perform c.machine with
  | ok gained m' =>
    rw [hresult] at hsettles
    obtain ⟨hhealthy, hsucceeds⟩ := hsettles
    refine ⟨?_, hsucceeds⟩
    show m'.heap.Healthy (gained ++ c.kept call ++ c.lost)
    rw [List.append_assoc]
    exact hhealthy
  | error f m' =>
    rw [hresult] at hsettles
    obtain ⟨rfl, hlost⟩ := hsettles
    -- nothing happened, and what was spent is lost or was nothing
    refine ⟨?_, Nat.le_refl _, fun _ _ h => h⟩
    show c.machine.heap.Healthy (c.kept call ++ (call.lost f ++ c.lost))
    refine hc.of_perm (List.Perm.trans ?_ hperm.symm)
    rw [hlost, ← List.append_assoc, ← List.append_assoc]
    exact List.perm_append_comm.append_right _

/-- **What calls make is healthy.** This is the invariant from which all counts follow. -/
theorem Reachable.healthy {c : Client} (hr : Reachable c) : c.Healthy := by
  induction hr with
  | start config logger slotLimit => exact Heap.Healthy.empty
  | step hr hallow ih => exact (ih.step hallow).1

/-- The handles of the client and of live containers are all accounted for. -/
structure Accounted (c : Client) : Prop where
  /-- A live box counts its owners. -/
  count_eq : ∀ id, c.isLive id = true → c.machine.heap.count id = c.owners id
  /-- A box is live exactly as long as it has an owner. -/
  live_iff : ∀ id, c.isLive id = true ↔ 0 < c.owners id
  /-- The client holds handles of live boxes only. -/
  held_live : ∀ v ∈ c.held, c.isLive v.id = true
  /-- Live containers hold handles of live boxes only. -/
  content_live : ∀ id content, c.machine.heap.content? id = some content →
    ∀ v ∈ content.handles, c.isLive v.id = true
  /-- Through a weak handle one gets the box if it is live, and nothing if it was freed. -/
  upgrade_eq : ∀ v ∈ c.known, ∃ m, Machine.upgrade v c.machine =
    .ok (if c.isLive v.id then some v else none) m
  /-- A call frees the boxes that it leaves without an owner, and no others. -/
  freed_iff : ∀ call, c.Allows call → ∀ id, c.isLive id = true →
    ((c.step call).isLive id = false ↔ (c.step call).owners id = 0)
  /-- A freed box stays freed, and so does its number. -/
  stays_freed : ∀ call, c.Allows call → ∀ id, id < c.machine.heap.nextId → c.isLive id = false →
    (c.step call).isLive id = false

/-- The owners of a box are the handles of it, with the client, lost, or in other boxes. -/
theorem owners_eq (c : Client) (id : Nat) :
    c.owners id = tally id (c.held ++ c.lost ++ c.machine.heap.owned) := by
  rw [owners, tally_append, tally_append]
  omega

/-- A box is live exactly as long as it has an owner. -/
theorem Healthy.live_iff {c : Client} (hc : c.Healthy) (id : Nat) :
    c.isLive id = true ↔ 0 < c.owners id := by
  rw [isLive, owners_eq]
  exact hc.ledger.isLive_iff

/-- It is freed with the last one. -/
theorem Healthy.not_live_iff {c : Client} (hc : c.Healthy) (id : Nat) :
    c.isLive id = false ↔ c.owners id = 0 := by
  rw [← Bool.not_eq_true, hc.live_iff]
  omega

/-- **Every live box counts its owners, and is freed by the call that leaves it without one.**
This holds in all states that a client can reach, whatever it called and whether or not that
failed. -/
theorem Reachable.accounted {c : Client} (hr : Reachable c) : c.Accounted := by
  have hc := hr.healthy
  refine ⟨?_, hc.live_iff, ?_, ?_, ?_, ?_, ?_⟩
  · -- The fields in order: the counts, the handles that are held, and what containers hold.
    intro id _
    rw [owners_eq]
    exact hc.ledger.count_eq id
  · intro v hv
    exact hc.ledger.live_of_mem (List.mem_append_left _ hv)
  · intro id content hcontent v hv
    exact hc.ledger.live_of_held hcontent hv
  · -- An upgrade hands out the box exactly if it is live.
    intro v _
    obtain ⟨logger, hok⟩ := Machine.does_upgrade (m := c.machine) v
    refine ⟨_, hok.trans (congrArg (fun found => EStateM.Result.ok found _) ?_)⟩
    show (Plan.upgrade c.machine.heap v).1 = _
    unfold Plan.upgrade isLive
    split <;> rfl
  · -- The rest is about one more call.
    intro call hallow id _
    exact (hc.step hallow).1.not_live_iff id
  · intro call hallow id hid hfreed
    obtain ⟨-, hsucceeds⟩ := hc.step hallow
    rw [← Bool.not_eq_true] at hfreed ⊢
    exact fun hlive => hfreed (hsucceeds.live id hid hlive)

/-- A value that a client shares with a set, of which the client then loses its last handle. -/
theorem accounted_lost_set : ∃ c : Client, Reachable c ∧ c.lost = [⟨1, .set⟩] ∧
    c.held = [⟨2, .int 7⟩] ∧ c.owners 1 = 1 ∧ c.owners 2 = 2 ∧ c.Accounted := by
  let made := (({ machine := {} } : Client).step (.newSet .none)).step (.boxInt 7)
  let added := made.step (.setAdd ⟨1, .set⟩ ⟨2, .int 7⟩)
  have hstart : Reachable { machine := {} } := Reachable.start {} .silent (1 <<< 50)
  have hmade : Reachable made :=
    (hstart.step ⟨by decide, by decide⟩).step ⟨by decide, by decide⟩
  have hheld : made.held = [⟨2, .int 7⟩, ⟨1, .set⟩] := rfl
  have hadded : Reachable added := by
    refine hmade.step ⟨?_, List.forall_mem_nil _⟩
    rw [hheld]
    decide
  have hstill : added.held = [⟨2, .int 7⟩, ⟨1, .set⟩] := rfl
  have hlost : Reachable (added.step (.release ⟨1, .set⟩ true)) := by
    refine hadded.step ⟨?_, List.forall_mem_nil _⟩
    rw [hstill]
    decide
  have haccounted := Reachable.accounted hlost
  -- the numbers of owners are read off the counts
  have hset : (added.step (.release ⟨1, .set⟩ true)).owners 1 = 1 :=
    (haccounted.count_eq 1 rfl).symm
  have hvalue : (added.step (.release ⟨1, .set⟩ true)).owners 2 = 2 :=
    (haccounted.count_eq 2 rfl).symm
  exact ⟨_, hlost, rfl, rfl, hset, hvalue, haccounted⟩

end Client

end BoxRuntime
