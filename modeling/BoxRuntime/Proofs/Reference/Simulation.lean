/-
  Scripts cannot tell boxes from objects.

  A host tracks a world (`Tracks`) if its heap represents the store of objects, and if names,
  output, number of steps and failure are the same.  Each part of the interpreter simulates the same
  part of the one that works on objects (`Simulates`): from a healthy host that tracks a world both
  end in the same way, again in a host that tracks the world.

  Healthiness is what makes the simulation go through.  Every handle that a step works with is of a
  live box, so no step ever asks for the object of a box that was freed.

  Two bounds are carried along, as the objects have no sizes: no list has more elements than steps
  were begun, and the allocator has room for twice that many.
-/
import BoxRuntime.Proofs.Reference.Interpreter
import BoxRuntime.Proofs.Reference.Represents
import BoxRuntime.Proofs.Script.Ledger

namespace BoxRuntime

namespace Reference

open Interpreter (Healthy Left giveUp on holding consuming)

/-! ## Hosts that track worlds

  What corresponds, and the two bounds that make the allocator harmless. -/

/-- The allocator grants the slots that so many steps can ask for, and a list can have them. -/
def Roomy (limit steps : Nat) : Prop :=
  2 ^ 22 + 2 * steps ≤ min limit (2 ^ 60)

/-- The host has in boxes what the world has in objects.  There is room for what `N` steps can ask
for, and no list has more than `n` elements. -/
structure Tracks (N n : Nat) (h : Host Interpreter) (w : World) : Prop where
  room : Roomy h.machine.slotLimit N
  hint : h.own.defaultSizeHint < 2 ^ 20
  store : Represents n h.machine.heap w.store
  names : w.names = h.own.names
  out : w.out = h.own.out
  executed : w.executed = h.own.executed
  failure : w.failure = h.own.failure

/-- A bound on the lengths of lists can be raised. -/
theorem Tracks.mono {N n m : Nat} {h : Host Interpreter} {w : World} (ht : Tracks N n h w)
    (hnm : n ≤ m) : Tracks N m h w :=
  ⟨ht.room, ht.hint, ht.store.mono hnm, ht.names, ht.out, ht.executed, ht.failure⟩

/-- A host that tracks a world, and is healthy with some handles held for a moment. -/
abbrev Sim (N n : Nat) (temps : List Handle) (h : Host Interpreter) (w : World) : Prop :=
  Healthy temps h ∧ Tracks N n h w

/-- Both actions end in the same way, with the same result, if they start with `P`; afterwards there
is `Q`, or the world is still tracked. -/
def Simulates {α : Type} (N n : Nat) (temps : List Handle)
    (P : Host Interpreter → World → Prop) (x : StepAct α) (y : WorldAct α)
    (Q : α → Host Interpreter → World → Prop) : Prop :=
  Match P x y (fun a b h w => b = a ∧ Q a h w)
    fun e d h w => d = e ∧ Left temps e h ∧ Tracks N n h w

variable {α β : Type} {N n : Nat} {temps : List Handle}

/-- Two actions one after another are simulated if each is. -/
theorem Simulates.bind {P : Host Interpreter → World → Prop} {x : StepAct α} {y : WorldAct α}
    {Q : α → Host Interpreter → World → Prop} {k : α → StepAct β} {l : α → WorldAct β}
    {R : β → Host Interpreter → World → Prop} (hx : Simulates N n temps P x y Q)
    (hk : ∀ a, Simulates N n temps (Q a) (k a) (l a) R) :
    Simulates N n temps P (x >>= k) (y >>= l) R := by
  refine Match.bind hx fun a b => ?_
  rintro h w ⟨rfl, hq⟩
  exact hk b h w hq

/-- What the machine's action does to the ledger and what both do to boxes and objects can be shown
apart. -/
theorem simulates_of {p : Host Interpreter → Prop} {q : α → Host Interpreter → Prop}
    {x : StepAct α} {y : WorldAct α} {m m' : Nat} (htriple : Triple p x q (Left temps))
    (hmatch : Match (fun h w => p h ∧ Tracks N m h w) x y
      (fun a b h w => b = a ∧ Tracks N m' h w) fun e d h w => d = e ∧ Tracks N n h w) :
    Simulates N n temps (fun h w => p h ∧ Tracks N m h w) x y
      fun a h w => q a h ∧ Tracks N m' h w := by
  -- What the triple says of the host, before and after, is put beside what the match says of both.
  refine ((hmatch.and htriple).before fun h w hp => ⟨hp.1, hp⟩).after ?_ ?_
  · rintro a b h w ⟨hq, hb, ht⟩
    exact ⟨hb, hq, ht⟩
  · rintro e d h w ⟨hleft, hd, ht⟩
    exact ⟨hd, hleft, ht⟩

/-! ## Operations

  From plans that agree to actions that match. -/

/-- An operation on boxes whose plan comes to what the operation on objects does. -/
theorem match_on {P : Host Interpreter → World → Prop} {op : Op α}
    {f : Store → Except Fault (α × Store)} {m m' : Nat} (hmn : m ≤ n)
    (hop : ∀ h w, P h w → Tracks N m h w ∧ ∃ plan, h.machine.Does op plan ∧
      Agree m' h.machine.heap plan (f w.store)) :
    Match P (on op) (act f) (fun a b h w => b = a ∧ Tracks N m' h w)
      fun e d h w => d = e ∧ Tracks N n h w := by
  intro h w hp
  obtain ⟨ht, plan, hdoes, hagree⟩ := hop h w hp
  -- The plan and the operation on objects agree, so both fail or both succeed.
  cases plan with
  | error fault =>
    rw [Interpreter.run_on_error hdoes]
    cases hf : f w.store with
    | error fault' =>
      rw [hf] at hagree
      rw [run_act_error hf]
      exact ⟨congrArg StepFailure.fault hagree, ht.mono hmn⟩
    | ok r =>
      rw [hf] at hagree
      exact hagree.elim
  | ok r =>
    obtain ⟨a, p⟩ := r
    obtain ⟨logger, hok⟩ := hdoes
    rw [Interpreter.run_on hok]
    cases hf : f w.store with
    | error fault =>
      rw [hf] at hagree
      exact hagree.elim
    | ok d =>
      obtain ⟨b, store⟩ := d
      rw [hf] at hagree
      rw [run_act hf]
      obtain ⟨hb, hstore⟩ := hagree
      exact ⟨hb, ht.room, ht.hint, hstore, ht.names, ht.out, ht.executed, ht.failure⟩

theorem match_make {m : Nat} {op : Op Handle} {datum : Datum} {object : Object}
    (hop : ∀ h w, Tracks N m h w → ∃ content, h.machine.Boxes op (.ok (datum, content)) ∧
      Shows content object ∧ ∀ slots, content = .list slots → slots.size = 0) :
    Match (Tracks N m) (on op) (make datum object) (fun a b h w => b = a ∧ Tracks N m h w)
      fun e d h w => d = e ∧ Tracks N n h w := by
  intro h w ht
  obtain ⟨content, hboxes, hshows, hempty⟩ := hop h w ht
  rw [Interpreter.run_on hboxes]
  -- The box is new, so a list has no elements yet.
  have hshort : ∀ slots, content = .list slots → slots.size ≤ m := by
    intro slots heq
    rw [hempty slots heq]
    exact Nat.zero_le m
  exact ⟨ht.store.handle_alloc datum content object, ht.room, ht.hint,
    ht.store.alloc datum hshows hshort, ht.names, ht.out, ht.executed, ht.failure⟩

/-- A new box with nothing in it is a new object with nothing in it. -/
theorem match_newBox {m : Nat} (datum : Datum) {content : Content} {object : Object}
    (hshows : Shows content object) (hempty : ∀ slots, content = .list slots → slots.size = 0) :
    Match (Tracks N m) (on (Machine.newBox datum content)) (make datum object)
      (fun a b h w => b = a ∧ Tracks N m h w) fun e d h w => d = e ∧ Tracks N n h w :=
  match_make fun _ _ _ => ⟨content, Machine.boxes_newBox datum content, hshows, hempty⟩

/-- A content that is no list has no slots. -/
theorem nolist_fixed (slots : GrowList Handle) (h : Content.fixed = .list slots) :
    slots.size = 0 := by
  cases h

/-! ## Parts of steps

  One lemma for each part of the interpreter. Handles held for a moment are known to the host
  alone, so parts that only hold and give up simulate doing nothing. -/

section

variable {m : Nat}

/-- A number or a text is boxed on both sides, and held for the time being. -/
theorem simulates_newBox (datum : Datum) :
    Simulates N n temps (Sim N m temps) (on (Machine.newBox datum .fixed)) (make datum .fixed)
      fun v => Sim N m (v :: temps) :=
  simulates_of (Interpreter.triple_on_newBox datum blank_fixed)
    ((match_newBox datum .fixed nolist_fixed).before fun _ _ hp => hp.2)

/-- The machine writes an open type as the tag `none`. -/
theorem openType_eq (tag : Option Tag) :
    openType tag = if tag.getD .none = .none then none else some (tag.getD .none) := by
  cases tag with
  | none => rfl
  | some t => cases t <;> rfl

/-- A set is made empty, of the same type. -/
theorem simulates_newSet (tag : Option Tag) :
    Simulates N n temps (Sim N m temps) (on (Machine.newSet (tag.getD .none)))
      (make .set (.set (openType tag) ∅)) fun v => Sim N m (v :: temps) := by
  have hshows := shows_newSet (tag.getD .none)
  rw [← openType_eq] at hshows
  have hmake := match_newBox (N := N) (n := n) (m := m) .set hshows fun slots heq => by cases heq
  exact simulates_of (Interpreter.triple_on_newBox .set (blank_set _))
    (hmake.before fun _ _ hp => hp.2)

theorem simulates_newMap (tag : Option Tag) :
    Simulates N n temps (Sim N m temps) (on (Machine.newMap (tag.getD .none)))
      (make .map (.map (openType tag) ∅)) fun v => Sim N m (v :: temps) := by
  have hshows := shows_newMap (tag.getD .none)
  rw [← openType_eq] at hshows
  have hmake := match_newBox (N := N) (n := n) (m := m) .map hshows fun slots heq => by cases heq
  exact simulates_of (Interpreter.triple_on_newBox .map (blank_map _))
    (hmake.before fun _ _ hp => hp.2)

/-- An empty list, whatever its hint: the reference knows none. -/
theorem simulates_newList {hint : Nat} (hhint : hint < 2 ^ 20) :
    Simulates N n temps (Sim N m temps) (on (Machine.newList hint)) (make .list (.list []))
      fun v => Sim N m (v :: temps) := by
  have hmake : Match (Tracks N m) (on (Machine.newList hint)) (make .list (.list []))
      (fun a b h w => b = a ∧ Tracks N m h w) fun e d h w => d = e ∧ Tracks N n h w := by
    -- A modest hint is granted whatever it is, as there is room for it.
    refine match_make fun h w ht => ?_
    have hroom : 2 ^ 22 ≤ h.machine.slotLimit := by
      have := Nat.le_min.mp ht.room
      omega
    obtain ⟨capacity, hok⟩ := ofHint_granted hhint hroom
    have hboxes := Machine.boxes_newList (m := h.machine) hint
    rw [hok] at hboxes
    refine ⟨_, hboxes, shows_newList capacity, ?_⟩
    intro slots heq
    obtain rfl := Content.list.inj heq
    rfl
  exact simulates_of (Interpreter.triple_on_newList hint) (hmake.before fun _ _ hp => hp.2)

/-- A handle under a name. -/
abbrev Named (N m : Nat) (temps : List Handle) (v : Handle) (h : Host Interpreter) (w : World) :
    Prop :=
  (Healthy temps h ∧ v ∈ h.own.names.handles) ∧ Tracks N m h w

theorem Named.live {v : Handle} {h : Host Interpreter} {w : World} (hn : Named N m temps v h w) :
    h.machine.heap.isLive v.id = true :=
  hn.1.1.heap.ledger.live_of_mem (List.mem_append_right _ hn.1.2)

/-- A name denotes the same box on both sides, or none. -/
theorem simulates_lookup (hmn : m ≤ n) (name : String) :
    Simulates N n temps (Sim N m temps) (Interpreter.lookup name) (lookup name)
      fun v => Named N m temps v := by
  refine simulates_of (Interpreter.triple_lookup name) ?_
  rintro h w ⟨-, ht⟩
  have hget : w.names.get? name = h.own.names.get? name := by rw [ht.names]
  cases hv : h.own.names.get? name with
  | some v =>
    rw [Interpreter.run_lookup hv, run_lookup (hget.trans hv)]
    exact ⟨rfl, ht⟩
  | none =>
    -- An unbound name is reported with the number of the step, which is the same.
    rw [Interpreter.run_lookup_none hv, run_lookup_none (hget.trans hv), ht.executed]
    exact ⟨rfl, ht.mono hmn⟩

/-- The handle that is made for the step has no counterpart. -/
theorem simulates_retain (v : Handle) :
    Simulates N n temps (Named N m temps v)
      (do
        on (Machine.retain v)
        return v)
      (pure v) fun u => Sim N m (u :: temps) := by
  refine simulates_of (Interpreter.triple_retain v) ?_
  rintro h w ⟨-, ht⟩
  -- The reference has no counts, so making a handle is doing nothing there.
  obtain ⟨logger, hretain⟩ := Machine.does_retain (m := h.machine) v
  rw [run_bind (Interpreter.run_on hretain)]
  exact ⟨rfl, ht.room, ht.hint, ht.store.patch rfl, ht.names, ht.out, ht.executed,
    ht.failure⟩

/-- An operand is boxed, or the box of a name is held once more. -/
theorem simulates_handleOf (hmn : m ≤ n) (operand : Operand) :
    Simulates N n temps (Sim N m temps) (Interpreter.handleOf operand) (objectOf operand)
      fun v => Sim N m (v :: temps) := by
  cases operand with
  | int i => exact simulates_newBox (.int i)
  | text s => exact simulates_newBox (.string s)
  | var name =>
    have hpure : objectOf (.var name) = lookup name >>= pure := (bind_pure _).symm
    rw [hpure]
    exact (simulates_lookup hmn name).bind fun v => simulates_retain v

/-- A name that gets a box gives up the one it had. -/
theorem simulates_bindName (name : String) (v : Handle) :
    Simulates N n temps (Sim N m (v :: temps)) (Interpreter.bind name v) (bind name v)
      fun _ => Sim N m temps := by
  refine simulates_of (Interpreter.triple_bindName name v) ?_
  rintro h w ⟨-, ht⟩
  rw [Interpreter.run_bindName]
  refine ⟨rfl, ht.room, ht.hint, ?_, ?_, ht.out, ht.executed, ht.failure⟩
  · -- The handle that the name had before is given up, which no object notices.
    have hpatched := ht.store.patch (p := { dropped := (h.own.names.get? name).toList }) rfl
    rw [Heap.patch_dropped] at hpatched
    exact hpatched
  · exact congrArg (fun names => names.put name v) ht.names

/-- Giving a handle up changes nothing in the world, which does not count. -/
theorem Tracks.giveUp {v : Handle} {h : Host Interpreter} {w : World} (ht : Tracks N m h w) :
    Tracks N m (giveUp v h) w := by
  have hpatched := ht.store.patch (p := { dropped := [v] }) rfl
  rw [Heap.patch_dropped] at hpatched
  exact ⟨ht.room, ht.hint, hpatched, ht.names, ht.out, ht.executed, ht.failure⟩

/-- Giving up what was held has no counterpart. -/
theorem simulates_consuming {v : Handle} {m' : Nat} {work : StepAct α} {y : WorldAct α}
    {P : Host Interpreter → World → Prop}
    (hwork : Simulates N n (v :: temps) P work y fun _ => Sim N m' (v :: temps)) :
    Simulates N n temps P (consuming v work) y fun _ => Sim N m' temps := by
  intro h w hp
  -- In either case the handle is given up, and the reference knows no handles.
  rcases both_end_iff.mp (hwork h w hp) with
    ⟨a, h', b, w', hrun, hrun', hb, hhealthy, ht⟩ | ⟨e, h', d, w', hrun, hrun', hd, hleft, ht⟩
  · rw [Interpreter.run_consuming hrun, hrun']
    exact ⟨hb, hhealthy.giveUp, ht.giveUp⟩
  · rw [Interpreter.run_consuming_error hrun, hrun']
    refine ⟨hd, ?_, ht.giveUp⟩
    cases e with
    | fault f => trivial
    | script e => exact Healthy.giveUp hleft

/-- An operand that is held while a step works is given up at the end, and also if the step fails.
-/
theorem simulates_holding (hmn : m ≤ n) {m' : Nat} {operand : Operand}
    {work : Handle → StepAct α} {y : Handle → WorldAct α}
    (hwork : ∀ v, Simulates N n (v :: temps) (Sim N m (v :: temps)) (work v) (y v)
      fun _ => Sim N m' (v :: temps)) :
    Simulates N n temps (Sim N m temps) (holding operand work) (objectOf operand >>= y)
      fun _ => Sim N m' temps :=
  (simulates_handleOf hmn operand).bind fun v => simulates_consuming (hwork v)

theorem simulates_write (hmn : m ≤ n) (s : String) :
    Simulates N n temps (Sim N m temps) (Interpreter.write s) (write s)
      fun _ => Sim N m temps := by
  refine simulates_of (Interpreter.triple_write s) ?_
  rintro h w ⟨-, ht⟩
  unfold write
  -- The outputs are the same, so a piece is taken by both or refused to both.
  rw [ht.out]
  cases hs : h.own.out.write s with
  | mk refused out =>
    cases refused with
    | none =>
      have hnone : (h.own.out.write s).1 = none := by rw [hs]
      rw [Interpreter.run_write hnone, hs]
      exact ⟨rfl, ht.room, ht.hint, ht.store, ht.names, rfl, ht.executed, ht.failure⟩
    | some reason =>
      have hsome : (h.own.out.write s).1 = some reason := by rw [hs]
      rw [Interpreter.run_write_refused hsome, hs]
      exact ⟨rfl, ht.room, ht.hint, ht.store.mono hmn, ht.names, rfl, ht.executed,
        ht.failure⟩

theorem simulates_print (hmn : m ≤ n) (v : Handle) :
    Simulates N n temps (Sim N m temps) (Interpreter.printBox v) (print v)
      fun _ => Sim N m temps :=
  (simulates_write hmn v.text).bind fun _ => simulates_write hmn "\n"

/-- A result gets its name or is printed. -/
theorem simulates_bindOrPrint (hmn : m ≤ n) (target : Option String) (v : Handle) :
    Simulates N n temps (Sim N m (v :: temps)) (Interpreter.bindOrPrint target v)
      (bindOrPrint target v) fun _ => Sim N m temps := by
  cases target with
  | some name => exact simulates_bindName name v
  | none => exact simulates_consuming (simulates_print hmn v)

/-- Remarks are not part of the world. -/
theorem simulates_remark (level : Level) (message : String) :
    Simulates N n temps (Sim N m temps) (Interpreter.remark level message) (pure ())
      fun _ => Sim N m temps := by
  rintro h w ⟨hhealthy, ht⟩
  refine ⟨rfl, ⟨hhealthy.heap, hhealthy.names⟩, ?_⟩
  exact ⟨ht.room, ht.hint, ht.store, ht.names, ht.out, ht.executed, ht.failure⟩

theorem simulates_lengthOf (hmn : m ≤ n) (v : Handle) :
    Simulates N n temps (Named N m temps v) (on (Machine.lengthOf v))
      (lengthOf v) fun u => Sim N m (u :: temps) := by
  have hhealthy : Triple (Healthy temps) (on (Machine.lengthOf v)) (fun u => Healthy (u :: temps))
      (Left temps) :=
    Interpreter.triple_on_lengthOf v
  have htriple := hhealthy.before
    fun h (hh : Healthy temps h ∧ v ∈ h.own.names.handles) => hh.1
  refine simulates_of htriple ?_
  intro h w hp
  have ht := hp.2
  -- both count first, and make the box or object for the number afterwards
  have hlength := same_length ht.store hp.1.1.heap (Named.live hp)
  have hboxes := Machine.boxes_lengthOf (m := h.machine) v
  unfold lengthOf
  cases hn : Plan.length h.machine.heap v with
  | error f =>
    rw [hn] at hlength hboxes
    rw [Interpreter.run_on_error hboxes]
    cases hn' : w.store.length v with
    | error g =>
      rw [hn'] at hlength
      have hact : act (fun store => (store.length v).map fun size => (size, store)) w =
          .error (.fault g) w := by
        refine run_act_error ?_
        rw [hn']
        rfl
      rw [run_bind_error hact]
      exact ⟨congrArg StepFailure.fault hlength, ht.mono hmn⟩
    | ok size =>
      rw [hn'] at hlength
      exact hlength.elim
  | ok size =>
    rw [hn] at hlength hboxes
    rw [Interpreter.run_on hboxes]
    cases hn' : w.store.length v with
    | error g =>
      rw [hn'] at hlength
      exact hlength.elim
    | ok size' =>
      rw [hn'] at hlength
      obtain rfl : size' = size := hlength
      have hact : act (fun store => (store.length v).map fun size => (size, store)) w =
          .ok size' w := by
        refine run_act ?_
        rw [hn']
        rfl
      have hstore := ht.store.alloc (.int (Int64.ofNat size')) .fixed fun slots heq =>
        (nolist_fixed slots heq).le.trans (Nat.zero_le m)
      rw [run_bind hact]
      exact ⟨ht.store.handle_alloc _ _ .fixed, ht.room, ht.hint, hstore, ht.names, ht.out,
        ht.executed, ht.failure⟩

theorem simulates_take (hmn : m ≤ n) (name : String) :
    Simulates N n temps (Sim N m temps) (Interpreter.take name) (take name)
      fun v => Sim N m (v :: temps) := by
  refine simulates_of (Interpreter.triple_take name) ?_
  rintro h w ⟨-, ht⟩
  have hget : w.names.get? name = h.own.names.get? name := by rw [ht.names]
  unfold take
  -- The names are the same. Taking one gives its handle to whoever asked.
  cases hv : h.own.names.get? name with
  | some v =>
    rw [Interpreter.run_take hv, run_bind (run_lookup (hget.trans hv))]
    refine ⟨rfl, ht.room, ht.hint, ht.store, ?_, ht.out, ht.executed, ht.failure⟩
    exact congrArg (fun names => names.erase name) ht.names
  | none =>
    rw [Interpreter.run_take_none hv, run_bind_error (run_lookup_none (hget.trans hv)), ht.executed]
    exact ⟨rfl, ht.mono hmn⟩

/-- A shallow release always succeeds, and what it gives up is only a handle. -/
theorem simulates_release (v : Handle) (k : Nat → StepAct Unit)
    (hk : ∀ remaining, Simulates N n temps (Sim N m temps) (k remaining) (pure ())
      fun _ => Sim N m temps) :
    Simulates N n temps (Sim N m (v :: temps)) (on (Machine.release v false) >>= k) (pure ())
      fun _ => Sim N m temps := by
  intro h w hp
  -- A shallow release has nothing to object to.
  have hplan : Plan.release h.machine.heap v false =
      .ok (h.machine.heap.count v.id - 1, { dropped := [v] }) :=
    if_neg fun hlost => Bool.false_ne_true hlost.2.1
  have hdoes := Machine.does_release (m := h.machine) v false
  rw [hplan] at hdoes
  obtain ⟨logger, hok⟩ := hdoes
  rw [run_bind (Interpreter.run_on hok)]
  have ht := hp.2
  exact hk _ _ w ⟨⟨hp.1.giveUp.heap, hp.1.names⟩, ht.room, ht.hint, ht.store.patch rfl,
    ht.names, ht.out, ht.executed, ht.failure⟩

/-- An operation on a box under a name that leaves the caller what he has. -/
theorem simulates_on {op : Op α} {f : Store → Except Fault (α × Store)} {v : Handle} {m' : Nat}
    (hmn : m ≤ n) (plan : Host Interpreter → Except Fault (α × Patch)) (given : α → List Handle)
    (hdoes : ∀ h : Host Interpreter, h.machine.Does op (plan h))
    (hbalanced : ∀ h, Healthy temps h → ∀ a p, plan h = .ok (a, p) →
      p.Balanced h.machine.heap [] (given a))
    (hagree : ∀ h w, Named N m temps v h w → Agree m' h.machine.heap (plan h) (f w.store)) :
    Simulates N n temps (Named N m temps v) (on op) (act f)
      fun a => Sim N m' (given a ++ temps) := by
  -- The ledger from the plan being balanced, the objects from its agreeing.
  refine simulates_of (Interpreter.triple_on_kept given fun h hh => ?_) ?_
  · exact ⟨hh.1, plan h, hdoes h, hbalanced h hh.1⟩
  · refine match_on hmn ?_
    intro h w hp
    exact ⟨hp.2, plan h, hdoes h, hagree h w hp⟩

end

/-! ## Steps

  One case for each kind of step, put together from its parts. -/

/-- The bound may grow on the way. -/
theorem Simulates.grow {P : Host Interpreter → World → Prop} {x : StepAct α} {y : WorldAct α}
    {m m' : Nat} (hx : Simulates N n temps P x y fun _ => Sim N m temps) (hm : m ≤ m') :
    Simulates N n temps P x y fun _ => Sim N m' temps := by
  refine Match.after hx ?_ fun _ _ _ _ he => he
  rintro a b h w ⟨hb, hhealthy, ht⟩
  exact ⟨hb, hhealthy, ht.mono hm⟩

/-- The step stays within what objects can follow: lists are not made too large, and releases are
shallow. -/
def isModest : Step → Bool
  | .listNew _ (some hint) => hint < 2 ^ 20
  | .release _ deep => !deep
  | _ => true

/-- A step does to boxes what it does to objects. -/
theorem simulates_step (hroom : n < N) (s : Step) (hs : isModest s = true) :
    Simulates N (n + 1) [] (Sim N n []) (Interpreter.step s) (step s)
      fun _ => Sim N (n + 1) [] := by
  have hle : n ≤ n + 1 := Nat.le_succ n
  cases s with
  | setNew name tag =>
    refine Simulates.grow ?_ hle
    exact (simulates_newSet tag).bind fun v => simulates_bindName name v
  | mapNew name tag =>
    refine Simulates.grow ?_ hle
    exact (simulates_newMap tag).bind fun v => simulates_bindName name v
  | listNew name hint =>
    refine Simulates.grow ?_ hle
    -- the hint of the step or, without one, the default of the host
    have hlist : ∀ d < 2 ^ 20, hint.getD d < 2 ^ 20 := by
      intro d hd
      cases hint with
      | none => exact hd
      | some hint => exact of_decide_eq_true hs
    intro h w hp
    have hmake : Simulates N (n + 1) [] (Sim N n [])
        (on (Machine.newList (hint.getD h.own.defaultSizeHint))) (make .list (.list []))
        fun v => Sim N n [v] := simulates_newList (hlist _ hp.2.hint)
    exact (hmake.bind fun v => simulates_bindName name v) h w hp
  | box name value =>
    refine Simulates.grow ?_ hle
    exact (simulates_handleOf hle value).bind fun v => simulates_bindName name v
  | setAdd name value =>
    refine Simulates.grow ?_ hle
    refine simulates_holding hle fun v => (simulates_lookup hle name).bind fun set => ?_
    refine simulates_on hle (fun h => Plan.setAdd h.machine.heap set v) (fun _ => [])
      (fun _ => Machine.does_setAdd set v) ?_ ?_
    · intro h hh a p hp
      have hv : v ∈ [v] ++ h.own.names.handles := List.mem_cons_self
      exact Plan.setAdd_balanced hh.heap hv hp
    · intro h w hp
      exact same_setAdd hp.2.store hp.1.1.heap (Named.live hp) v
  | mapAdd name key value =>
    refine Simulates.grow ?_ hle
    refine simulates_holding hle fun k => simulates_holding hle fun v => ?_
    refine (simulates_lookup hle name).bind fun map => ?_
    refine simulates_on hle (fun h => Plan.mapAdd h.machine.heap map k v) (fun _ => [])
      (fun _ => Machine.does_mapAdd map k v) ?_ ?_
    · intro h hh a p hp
      have hk : k ∈ [v, k] ++ h.own.names.handles := List.mem_cons_of_mem v List.mem_cons_self
      have hv : v ∈ [v, k] ++ h.own.names.handles := List.mem_cons_self
      exact Plan.mapAdd_balanced hh.heap hk hv hp
    · intro h w hp
      exact same_mapAdd hp.2.store hp.1.1.heap (Named.live hp) k v
  | listAppend name value =>
    -- the one step that makes a list longer, by one element
    refine simulates_holding hle fun v => (simulates_lookup hle name).bind fun list => ?_
    refine simulates_on hle (fun h => Plan.listAppend h.machine.slotLimit h.machine.heap list v)
      (fun _ => []) (fun _ => Machine.does_listAppend list v) ?_ ?_
    · intro h hh a p hp
      have hv : v ∈ [v] ++ h.own.names.handles := List.mem_cons_self
      exact Plan.listAppend_balanced hh.heap hv hp
    · intro h w hp
      have hroomy := Nat.le_min.mp hp.2.room
      have hgranted : Granted h.machine.slotLimit (2 * n) := ⟨by omega, by omega⟩
      exact same_listAppend hp.2.store hgranted (Named.live hp) v
  | listGet target name index =>
    refine Simulates.grow ?_ hle
    refine (simulates_lookup hle name).bind fun list => ?_
    have hget : Simulates N (n + 1) [] (Named N n [] list) (on (Machine.listGet list index))
        (act fun store => store.listGet list index)
        fun found => Sim N n (found.toList ++ []) := by
      refine simulates_on hle (fun h => Plan.listGet h.machine.heap list index) Option.toList
        (fun _ => Machine.does_listGet list index) ?_ ?_
      · intro h hh found p hp
        exact Plan.listGet_balanced hh.heap hp
      · intro h w hp
        exact same_listGet hp.2.store (Named.live hp) index
    refine hget.bind fun found => ?_
    cases found with
    | some v => cases target <;> exact simulates_bindOrPrint hle _ v
    | none =>
      cases target with
      | some target => exact simulates_remark _ _
      | none => exact simulates_write hle _
  | indexOf target name key =>
    refine Simulates.grow ?_ hle
    refine simulates_holding hle fun k => (simulates_lookup hle name).bind fun collection => ?_
    have hindex : Simulates N (n + 1) [k] (Named N n [k] collection)
        (on (Machine.indexOf collection k)) (act fun store => store.indexOf collection k)
        fun v => Sim N n ([v] ++ [k]) := by
      refine simulates_on hle (fun h => Plan.indexOf h.machine.heap collection k) (fun v => [v])
        (fun _ => Machine.does_indexOf collection k) ?_ ?_
      · intro h hh v p hp
        exact Plan.indexOf_balanced hh.heap hp
      · intro h w hp
        exact same_indexOf hp.2.store hp.1.1.heap (Named.live hp) k
    exact hindex.bind fun v => simulates_bindOrPrint hle target v
  | lengthOf target name =>
    refine Simulates.grow ?_ hle
    refine (simulates_lookup hle name).bind fun v => ?_
    exact (simulates_lengthOf hle v).bind fun u => simulates_bindOrPrint hle target u
  | print value =>
    refine Simulates.grow ?_ hle
    exact simulates_holding hle fun v => simulates_print hle v
  | release name deep =>
    refine Simulates.grow ?_ hle
    have hshallow : deep = false := by simpa [isModest] using hs
    subst hshallow
    refine (simulates_take hle name).bind fun v => simulates_release v _ fun _ => ?_
    exact simulates_remark _ _

end Reference

end BoxRuntime
