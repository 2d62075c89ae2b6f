/-
  Scripts do not depend on box numbers.

  Two hosts are `Alike` under `ρ` if the heap and the names of the second are those of the first,
  renumbered, and all else that a script can see is equal: the output, the number of steps, the
  failure, the allocator's limit.  Logger and configuration may differ.

  One action `Follows` another if from hosts that are alike it ends in the same way, with the
  corresponding result or the same error, and again in hosts that are alike.  There is one lemma for
  each part of the interpreter.  So every step follows itself (`follows_step`), and so does a run of
  steps (`follows_runSteps`): a script cannot tell two hosts apart that are alike.
-/
import BoxRuntime.Proofs.Renumber.Heap
import BoxRuntime.Proofs.Script.Runs

namespace BoxRuntime

/-! ## Names -/

namespace Names

/-- The names, with the new numbers in the handles. -/
def renumber (ρ : Nat → Nat) (names : Names) : Names :=
  { pairs := names.pairs.map fun p => (p.1, p.2.renumber ρ) }

/-- A name denotes the same box under its new number. -/
theorem get?_renumber (ρ : Nat → Nat) (names : Names) (name : String) :
    (names.renumber ρ).get? name = (names.get? name).map (Handle.renumber ρ) := by
  obtain ⟨pairs⟩ := names
  rw [get?, get?, renumber]
  dsimp only
  induction pairs with
  | nil => rfl
  | cons p pairs ih =>
    rw [List.map_cons, List.lookup_cons, List.lookup_cons]
    split
    · rfl
    · exact ih

/-- Erasing a name and renumbering can be done in either order. -/
theorem erase_renumber (ρ : Nat → Nat) (names : Names) (name : String) :
    (names.renumber ρ).erase name = (names.erase name).renumber ρ := by
  refine congrArg Names.mk ?_
  rw [renumber, List.filter_map]
  rfl

theorem put_renumber (ρ : Nat → Nat) (names : Names) (name : String) (v : Handle) :
    (names.renumber ρ).put name (v.renumber ρ) = (names.put name v).renumber ρ := by
  have herase := congrArg Names.pairs (erase_renumber ρ names name)
  exact congrArg (fun pairs => Names.mk ((name, v.renumber ρ) :: pairs)) herase

end Names

namespace Interpreter

/-! ## Hosts that are alike

  Up to the renumbering, all that a script can see is the same; logger and configuration it cannot
  see. -/

/-- The second host is the first with new box numbers. -/
structure Alike (ρ : Nat → Nat) (h h' : Host Interpreter) : Prop where
  heap : h.machine.heap.Renumbered ρ h'.machine.heap
  slotLimit : h'.machine.slotLimit = h.machine.slotLimit
  own : h'.own = { h.own with names := h.own.names.renumber ρ }

/-- From hosts that are alike, both actions end in the same way. -/
def Follows {ε α : Type} (ρ : Nat → Nat) (r : α → α)
    (x y : EStateM ε (Host Interpreter) α) : Prop :=
  Match (Alike ρ) x y (fun a a' h h' => a' = r a ∧ Alike ρ h h')
    fun e d h h' => d = e ∧ Alike ρ h h'

variable {ε α β : Type} {ρ : Nat → Nat}

/-- Two actions one after another follow if each does. -/
theorem Follows.bind {x y : EStateM ε (Host Interpreter) α} {r : α → α} {r' : β → β}
    {k l : α → EStateM ε (Host Interpreter) β} (hx : Follows ρ r x y)
    (hk : ∀ a, Follows ρ r' (k a) (l (r a))) : Follows ρ r' (x >>= k) (y >>= l) := by
  refine Match.bind hx fun a a' => ?_
  rintro h h' ⟨rfl, ha⟩
  exact hk a h h' ha

/-- Two actions may look at their hosts first. -/
theorem follows_get {r : α → α} {k l : Host Interpreter → EStateM ε (Host Interpreter) α}
    (hk : ∀ h h', Alike ρ h h' → Follows ρ r (k h) (l h')) :
    Follows ρ r (get >>= k) (get >>= l) :=
  fun h h' ha => hk h h' ha h h' ha

/-- A result that mentions no box follows itself. -/
theorem follows_pure (a : α) :
    Follows ρ id (pure a : EStateM ε (Host Interpreter) α) (pure a) :=
  fun _ _ ha => ⟨rfl, ha⟩

/-! ## Operations

  From renumbered plans to actions that follow each other. -/

/-- An operation follows if its plan is the renumbered one. -/
theorem follows_on {op op' : Op α} {r : α → α}
    (hop : ∀ m m' : Machine, m.heap.Renumbered ρ m'.heap → m'.slotLimit = m.slotLimit →
      ∃ plan, m.Does op plan ∧ m'.Does op' (plan.map (Plan.renumber ρ r)))
    (hρ : StrictMono ρ) : Follows ρ r (on op) (on op') := by
  intro h h' ha
  obtain ⟨plan, hdoes, hdoes'⟩ := hop h.machine h'.machine ha.heap ha.slotLimit
  -- Plan and renumbered plan fail with the same fault, or the patches are renumbered.
  cases plan with
  | error f =>
    rw [run_on_error hdoes, run_on_error hdoes']
    exact ⟨rfl, ha.heap, ha.slotLimit, ha.own⟩
  | ok x =>
    obtain ⟨a, p⟩ := x
    obtain ⟨logger, hok⟩ := hdoes
    obtain ⟨logger', hok'⟩ := hdoes'
    rw [run_on hok, run_on hok']
    exact ⟨rfl, ha.heap.patch hρ p, ha.slotLimit, ha.own⟩

theorem follows_on_box {op op' : Op Handle}
    (hop : ∀ m m' : Machine, m.heap.Renumbered ρ m'.heap → m'.slotLimit = m.slotLimit →
      ∃ plan, m.Boxes op plan ∧ m'.Boxes op' (plan.map fun x => (x.1, x.2.renumber ρ)))
    (hρ : StrictMono ρ) : Follows ρ (Handle.renumber ρ) (on op) (on op') := by
  intro h h' ha
  obtain ⟨plan, hboxes, hboxes'⟩ := hop h.machine h'.machine ha.heap ha.slotLimit
  cases plan with
  | error f =>
    rw [run_on_error hboxes, run_on_error hboxes']
    exact ⟨rfl, ha.heap, ha.slotLimit, ha.own⟩
  | ok x =>
    obtain ⟨datum, content⟩ := x
    rw [run_on hboxes, run_on hboxes']
    exact ⟨ha.heap.handle_alloc datum _ _, ha.heap.alloc hρ datum content, ha.slotLimit, ha.own⟩

/-- A box that owns nothing is made under its new number. -/
theorem follows_on_newBox (hρ : StrictMono ρ) (datum : Datum) {content : Content}
    (hc : content.renumber ρ = content) :
    Follows ρ (Handle.renumber ρ) (on (Machine.newBox datum content))
      (on (Machine.newBox datum content)) := by
  refine follows_on_box (fun m m' _ _ => ?_) hρ
  refine ⟨_, Machine.boxes_newBox datum content, ?_⟩
  show m'.Boxes _ (.ok (datum, content.renumber ρ))
  rw [hc]
  exact Machine.boxes_newBox datum content

theorem follows_on_newSet (hρ : StrictMono ρ) (tag : Tag) :
    Follows ρ (Handle.renumber ρ) (on (Machine.newSet tag)) (on (Machine.newSet tag)) := by
  have hc : (Content.set (.new tag)).renumber ρ = .set (.new tag) := rfl
  exact follows_on_newBox hρ .set hc

theorem follows_on_newMap (hρ : StrictMono ρ) (tag : Tag) :
    Follows ρ (Handle.renumber ρ) (on (Machine.newMap tag)) (on (Machine.newMap tag)) := by
  have hc : (Content.map (.new tag)).renumber ρ = .map (.new tag) := rfl
  exact follows_on_newBox hρ .map hc

/-- An empty list on both, or both are refused the same slots. -/
theorem follows_on_newList (hρ : StrictMono ρ) (hint : Nat) :
    Follows ρ (Handle.renumber ρ) (on (Machine.newList hint)) (on (Machine.newList hint)) := by
  refine follows_on_box (fun m m' _ hlimit => ?_) hρ
  refine ⟨_, Machine.boxes_newList hint, ?_⟩
  have hboxes := Machine.boxes_newList (m := m') hint
  rw [hlimit] at hboxes
  -- The allocator is asked the same, and an empty list holds no numbers.
  have hsame : ((GrowList.ofHint m.slotLimit hint).map fun slots =>
      ((.list, .list slots) : Datum × Content)).map (fun x => (x.1, x.2.renumber ρ)) =
      (GrowList.ofHint m.slotLimit hint).map fun slots => (.list, .list slots) := by
    unfold GrowList.ofHint
    cases initialCapacity m.slotLimit hint with
    | error f => rfl
    | ok capacity =>
      refine congrArg (fun slots => Except.ok (Datum.list, Content.list { slots, capacity })) ?_
      exact Array.map_empty
  rw [hsame]
  exact hboxes

/-- A length is boxed under a new number. -/
theorem follows_on_lengthOf (hρ : StrictMono ρ) (v : Handle) :
    Follows ρ (Handle.renumber ρ) (on (Machine.lengthOf v))
      (on (Machine.lengthOf (v.renumber ρ))) := by
  refine follows_on_box (fun m m' hr _ => ?_) hρ
  refine ⟨_, Machine.boxes_lengthOf v, ?_⟩
  have hboxes := Machine.boxes_lengthOf (m := m') (v.renumber ρ)
  rw [Plan.length_renumber hr] at hboxes
  have hsame : ((Plan.length m.heap v).map fun n =>
      ((.int (Int64.ofNat n), .fixed) : Datum × Content)).map (fun x => (x.1, x.2.renumber ρ)) =
      (Plan.length m.heap v).map fun n => (.int (Int64.ofNat n), .fixed) := by
    cases Plan.length m.heap v <;> rfl
  rw [hsame]
  exact hboxes

/-! ## Names -/

theorem Alike.get? {h h' : Host Interpreter} (ha : Alike ρ h h') (name : String) :
    h'.own.names.get? name = (h.own.names.get? name).map (Handle.renumber ρ) := by
  rw [ha.own]
  exact Names.get?_renumber ρ h.own.names name

/-- Both have begun the same number of steps. -/
theorem Alike.executed {h h' : Host Interpreter} (ha : Alike ρ h h') :
    h'.own.executed = h.own.executed := by
  rw [ha.own]

/-- A name that is missing is missing on both sides. -/
theorem follows_lookup (name : String) :
    Follows ρ (Handle.renumber ρ) (lookup name) (lookup name) := by
  intro h h' ha
  have hget := ha.get? name
  cases hv : h.own.names.get? name with
  | none =>
    rw [hv] at hget
    rw [run_lookup_none hv, run_lookup_none hget, ha.executed]
    exact ⟨rfl, ha⟩
  | some v =>
    rw [hv] at hget
    rw [run_lookup hv, run_lookup hget]
    exact ⟨rfl, ha⟩

/-- A name that is taken is gone on both sides. -/
theorem follows_take (name : String) :
    Follows ρ (Handle.renumber ρ) (take name) (take name) := by
  intro h h' ha
  have hget := ha.get? name
  -- The names are the same, and what they denote is renumbered.
  cases hv : h.own.names.get? name with
  | none =>
    rw [hv] at hget
    rw [run_take_none hv, run_take_none hget, ha.executed]
    exact ⟨rfl, ha⟩
  | some v =>
    rw [hv] at hget
    rw [run_take hv, run_take hget]
    refine ⟨rfl, ha.heap, ha.slotLimit, ?_⟩
    rw [ha.own]
    exact congrArg (fun names => { h.own with names }) (Names.erase_renumber ρ h.own.names name)

/-- A name gives up the box that it had. -/
theorem follows_bindName (hρ : StrictMono ρ) (name : String) (v : Handle) :
    Follows ρ id (bind name v) (bind name (v.renumber ρ)) := by
  intro h h' ha
  rw [run_bindName, run_bindName]
  -- the handle that is replaced is the same one on both sides
  have hold : (h'.own.names.get? name).toList =
      (h.own.names.get? name).toList.map (Handle.renumber ρ) := by
    rw [ha.get? name]
    cases h.own.names.get? name <;> rfl
  refine ⟨rfl, ?_, ha.slotLimit, ?_⟩
  · have hdropped := ha.heap.dropAll hρ (h.own.names.get? name).toList
    rw [← hold] at hdropped
    exact hdropped
  · show ({ h'.own with names := h'.own.names.put name (v.renumber ρ) } : Interpreter) = _
    rw [ha.own]
    exact congrArg (fun names => { h.own with names }) (Names.put_renumber ρ h.own.names name v)

/-! ## Holding handles

  What is given up on one side is given up on the other, under its new number. -/

/-- An operand is boxed, or is a name. -/
theorem follows_handleOf (hρ : StrictMono ρ) (operand : Operand) :
    Follows ρ (Handle.renumber ρ) (handleOf operand) (handleOf operand) := by
  cases operand with
  | int n => exact follows_on_newBox hρ (.int n) rfl
  | text s => exact follows_on_newBox hρ (.string s) rfl
  | var name =>
    refine (follows_lookup name).bind fun v => ?_
    have hretain : Follows ρ id (on (Machine.retain v)) (on (Machine.retain (v.renumber ρ))) := by
      refine follows_on (fun m m' _ _ => ?_) hρ
      exact ⟨_, Machine.does_retain v, Machine.does_retain (v.renumber ρ)⟩
    refine hretain.bind fun _ => ?_
    exact fun _ _ ha => ⟨rfl, ha⟩

/-- Giving up a handle frees the same boxes. -/
theorem Alike.giveUp (hρ : StrictMono ρ) {h h' : Host Interpreter} (ha : Alike ρ h h')
    (v : Handle) : Alike ρ (giveUp v h) (giveUp (v.renumber ρ) h') :=
  ⟨ha.heap.dropAll hρ [v], ha.slotLimit, ha.own⟩

/-- A handle that is used up is given up on both sides, also after a failure. -/
theorem follows_consuming (hρ : StrictMono ρ) (v : Handle) {work work' : StepAct α} {r : α → α}
    (hwork : Follows ρ r work work') :
    Follows ρ r (consuming v work) (consuming (v.renumber ρ) work') := by
  intro h h' ha
  rcases both_end_iff.mp (hwork h h' ha) with
    ⟨a, s, a', s', hrun, hrun', ⟨rfl, hs⟩⟩ | ⟨e, s, e', s', hrun, hrun', ⟨rfl, hs⟩⟩
  · rw [run_consuming hrun, run_consuming hrun']
    exact ⟨rfl, hs.giveUp hρ v⟩
  · rw [run_consuming_error hrun, run_consuming_error hrun']
    exact ⟨rfl, hs.giveUp hρ v⟩

/-- An operand is held while the step works. -/
theorem follows_holding (hρ : StrictMono ρ) {operand : Operand} {work work' : Handle → StepAct α}
    {r : α → α} (hwork : ∀ v, Follows ρ r (work v) (work' (v.renumber ρ))) :
    Follows ρ r (holding operand work) (holding operand work') :=
  (follows_handleOf hρ operand).bind fun v => follows_consuming hρ v (hwork v)

/-! ## Output

  Nothing that is written has a number in it. -/

/-- What is written has no numbers in it. -/
theorem follows_write (s : String) : Follows ρ id (write s) (write s) := by
  intro h h' ha
  have hout : h'.own.out = h.own.out := by rw [ha.own]
  -- The hosts differ only in the numbers that names denote, whatever the output.
  have hown : ∀ out : Output, ({ h'.own with out } : Interpreter) =
      { ({ h.own with out } : Interpreter) with names := h.own.names.renumber ρ } := by
    intro out
    rw [ha.own]
  cases hs : (h.own.out.write s).1 with
  | none =>
    have hs' : (h'.own.out.write s).1 = none := by rw [hout, hs]
    rw [run_write hs, run_write hs', hout]
    exact ⟨rfl, ha.heap, ha.slotLimit, hown _⟩
  | some reason =>
    have hs' : (h'.own.out.write s).1 = some reason := by rw [hout, hs]
    rw [run_write_refused hs, run_write_refused hs', hout]
    exact ⟨rfl, ha.heap, ha.slotLimit, hown _⟩

/-- Boxes print without their numbers. -/
theorem follows_printBox (v : Handle) : Follows ρ id (printBox v) (printBox (v.renumber ρ)) :=
  (follows_write v.text).bind fun _ => follows_write "\n"

theorem follows_bindOrPrint (hρ : StrictMono ρ) (target : Option String) (v : Handle) :
    Follows ρ id (bindOrPrint target v) (bindOrPrint target (v.renumber ρ)) := by
  cases target with
  | some name => exact follows_bindName hρ name v
  | none => exact follows_consuming hρ v (follows_printBox v)

theorem follows_remark (level level' : Level) (message message' : String) :
    Follows ρ id (remark level message : EStateM ε (Host Interpreter) Unit)
      (remark level' message') :=
  fun _ _ ha => ⟨rfl, ha.heap, ha.slotLimit, ha.own⟩

/-! ## Steps

  One case for each kind of step, put together from its parts. -/

/-- **Every step follows itself.** No step looks at the number of a box for more than its order, so
by cases the two runs stay alike. -/
theorem follows_step (hρ : StrictMono ρ) (s : Step) : Follows ρ id (step s) (step s) := by
  cases s with
  | setNew name tag =>
    exact (follows_on_newSet hρ _).bind fun v => follows_bindName hρ name v
  | mapNew name tag =>
    exact (follows_on_newMap hρ _).bind fun v => follows_bindName hρ name v
  | listNew name hint =>
    -- the default size is read from the host, and is the same on both sides
    refine follows_get fun h h' ha => ?_
    rw [ha.own]
    exact (follows_on_newList hρ _).bind fun v => follows_bindName hρ name v
  | box name value => exact (follows_handleOf hρ value).bind fun v => follows_bindName hρ name v
  | setAdd name value =>
    refine follows_holding hρ fun v => (follows_lookup name).bind fun set => ?_
    refine follows_on (fun m m' hr _ => ⟨_, Machine.does_setAdd set v, ?_⟩) hρ
    rw [← Plan.setAdd_renumber hρ hr]
    exact Machine.does_setAdd _ _
  | mapAdd name key value =>
    refine follows_holding hρ fun k => ?_
    refine follows_holding hρ fun v => ?_
    refine (follows_lookup name).bind fun map => ?_
    refine follows_on (fun m m' hr _ => ⟨_, Machine.does_mapAdd map k v, ?_⟩) hρ
    rw [← Plan.mapAdd_renumber hρ hr]
    exact Machine.does_mapAdd _ _ _
  | listAppend name value =>
    refine follows_holding hρ fun v => (follows_lookup name).bind fun list => ?_
    refine follows_on (fun m m' hr hlimit => ⟨_, Machine.does_listAppend list v, ?_⟩) hρ
    rw [← Plan.listAppend_renumber hr, ← hlimit]
    exact Machine.does_listAppend _ _
  | listGet target name index =>
    refine (follows_lookup name).bind fun list => ?_
    have hget : Follows ρ (Option.map (Handle.renumber ρ)) (on (Machine.listGet list index))
        (on (Machine.listGet (list.renumber ρ) index)) := by
      refine follows_on (fun m m' hr _ => ⟨_, Machine.does_listGet list index, ?_⟩) hρ
      rw [← Plan.listGet_renumber hr]
      exact Machine.does_listGet _ _
    refine hget.bind fun found => ?_
    cases found with
    | some v => cases target <;> exact follows_bindOrPrint hρ _ v
    | none =>
      cases target with
      | some target => exact follows_remark _ _ _ _
      | none => exact follows_write _
  | indexOf target name key =>
    refine follows_holding hρ fun k => (follows_lookup name).bind fun collection => ?_
    have hindex : Follows ρ (Handle.renumber ρ) (on (Machine.indexOf collection k))
        (on (Machine.indexOf (collection.renumber ρ) (k.renumber ρ))) := by
      refine follows_on (fun m m' hr _ => ⟨_, Machine.does_indexOf collection k, ?_⟩) hρ
      rw [← Plan.indexOf_renumber hρ hr]
      exact Machine.does_indexOf _ _
    exact hindex.bind fun v => follows_bindOrPrint hρ target v
  | lengthOf target name =>
    refine (follows_lookup name).bind fun v => ?_
    exact (follows_on_lengthOf hρ v).bind fun n => follows_bindOrPrint hρ target n
  | print value => exact follows_holding hρ fun v => follows_printBox v
  | release name deep =>
    refine (follows_take name).bind fun v => ?_
    have hrelease : Follows ρ id (on (Machine.release v deep))
        (on (Machine.release (v.renumber ρ) deep)) := by
      refine follows_on (fun m m' hr _ => ⟨_, Machine.does_release v deep, ?_⟩) hρ
      rw [← Plan.release_renumber hr]
      exact Machine.does_release _ _
    exact hrelease.bind fun n => follows_remark _ _ _ _

/-- A step that is begun follows itself, and so does one that is passed over. -/
theorem follows_runStep (hρ : StrictMono ρ) (s : Step) : Follows ρ id (runStep s) (runStep s) := by
  intro h h' ha
  have hfailure : h'.own.failure = h.own.failure := by rw [ha.own]
  unfold runStep
  rw [hfailure]
  -- Both pass the step over, or begin it.
  by_cases hfailed : h.own.failure.isSome
  · rw [if_pos hfailed, if_pos hfailed]
    exact ⟨rfl, ha⟩
  · rw [if_neg hfailed, if_neg hfailed]
    have hbegun : Alike ρ { h with own.executed := h.own.executed + 1 }
        { h' with own.executed := h'.own.executed + 1 } := by
      refine ⟨ha.heap, ha.slotLimit, ?_⟩
      show ({ h'.own with executed := h'.own.executed + 1 } : Interpreter) = _
      rw [ha.own]
    rcases both_end_iff.mp (follows_step hρ s _ _ hbegun) with
      ⟨a, s, a', s', hrun, hrun', ⟨rfl, hs⟩⟩ | ⟨e, s, e', s', hrun, hrun', ⟨rfl, hs⟩⟩
    · rw [hrun, hrun']
      exact ⟨rfl, hs⟩
    · rw [hrun, hrun']
      -- A fault ends both; a refused write is kept as the failure of both.
      cases e' with
      | fault f => exact ⟨rfl, hs⟩
      | script e =>
        refine ⟨rfl, hs.heap, hs.slotLimit, ?_⟩
        show ({ s'.own with failure := some e } : Interpreter) = _
        rw [hs.own]

/-- **Any list of steps follows itself**, by induction with one step at a time. -/
theorem follows_runSteps (hρ : StrictMono ρ) (steps : List Step) :
    Follows ρ id (runSteps steps) (runSteps steps) := by
  induction steps with
  | nil => exact follows_pure ()
  | cons s rest ih => exact (follows_runStep hρ s).bind fun _ => ih

end Interpreter

end BoxRuntime
