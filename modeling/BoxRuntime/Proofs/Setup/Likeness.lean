/-
  What a script cannot tell apart.

  A script knows its machine by the operations that steps call.  So if a relation between machines
  is such that these operations end alike on related machines, and in related machines again, then
  no script can tell related machines apart.  Such a relation is a `Likeness`: it comes with what
  each operation owes to it, and with the size hints that it takes to be as good as each other.

  From a likeness everything else follows once and for all.  Hosts are alike (`Akin`) if their
  machines are and if they keep the same things besides, but for the default size hint.  There is
  one lemma for each part of the interpreter and of a program, and in the end a script that runs on
  two hosts that are alike does the same on both (`keeps_run`).  Spans and messages of the program
  itself are events of the logger, the same ones in both runs.
-/
import BoxRuntime.Proofs.Log.Events
import BoxRuntime.Proofs.Script.Runs

namespace BoxRuntime

/-- The machine after something happened to its logger. -/
def Machine.act (m : Machine) (e : LogEvent) : Machine :=
  { m with logger := m.logger.act e }

/-- A relation between machines that the operations of scripts respect. -/
structure Likeness where
  Rel : Machine → Machine → Prop
  /-- Lists may be made with the one hint in place of the other. -/
  Hints : Nat → Nat → Prop
  same_hint : ∀ hint, Hints hint hint
  act : ∀ e : LogEvent, e.Steady → ∀ m m', Rel m m' → Rel (m.act e) (m'.act e)
  newBox : ∀ datum content,
    Keeps Rel (Machine.newBox datum content) (Machine.newBox datum content)
  newList : ∀ hint hint', Hints hint hint' →
    Keeps Rel (Machine.newList hint) (Machine.newList hint')
  retain : ∀ v, Keeps Rel (Machine.retain v) (Machine.retain v)
  drop : ∀ v, Keeps Rel (Machine.drop v) (Machine.drop v)
  release : ∀ v deep, Keeps Rel (Machine.release v deep) (Machine.release v deep)
  listAppend : ∀ list v, Keeps Rel (Machine.listAppend list v) (Machine.listAppend list v)
  listGet : ∀ list i, Keeps Rel (Machine.listGet list i) (Machine.listGet list i)
  setAdd : ∀ set v, Keeps Rel (Machine.setAdd set v) (Machine.setAdd set v)
  mapAdd : ∀ map key value, Keeps Rel (Machine.mapAdd map key value) (Machine.mapAdd map key value)
  indexOf : ∀ collection key,
    Keeps Rel (Machine.indexOf collection key) (Machine.indexOf collection key)
  lengthOf : ∀ v, Keeps Rel (Machine.lengthOf v) (Machine.lengthOf v)

namespace Likeness

open Interpreter

variable {L : Likeness} {ε α : Type}

/-- Hosts with machines that are alike, and all else the same but for the default size hint. -/
structure Akin (L : Likeness) (h h' : Host Interpreter) : Prop where
  machine : L.Rel h.machine h'.machine
  hint : L.Hints h.own.defaultSizeHint h'.own.defaultSizeHint
  own : h'.own = { h.own with defaultSizeHint := h'.own.defaultSizeHint }

namespace Akin

variable {h h' : Host Interpreter}

theorem names (ha : L.Akin h h') : h'.own.names = h.own.names := by
  rw [ha.own]

theorem out (ha : L.Akin h h') : h'.own.out = h.own.out := by
  rw [ha.own]

theorem executed (ha : L.Akin h h') : h'.own.executed = h.own.executed := by
  rw [ha.own]

/-- The script has failed in the same way, or not. -/
theorem failure (ha : L.Akin h h') : h'.own.failure = h.own.failure := by
  rw [ha.own]

/-- The same change of what the hosts keep leaves them alike if it spares the default size hint. -/
theorem change (ha : L.Akin h h') {f : Interpreter → Interpreter}
    (hf : ∀ (own : Interpreter) hint,
      f { own with defaultSizeHint := hint } = { f own with defaultSizeHint := hint })
    (hspare : ∀ own, (f own).defaultSizeHint = own.defaultSizeHint) :
    L.Akin { h with own := f h.own } { h' with own := f h'.own } := by
  refine ⟨ha.machine, ?_, ?_⟩
  · -- Hints are as they were.
    rw [hspare, hspare]
    exact ha.hint
  · -- What is changed is not the hint, so the change may be done before or after the hints are
    -- exchanged.
    show f h'.own = { f h.own with defaultSizeHint := (f h'.own).defaultSizeHint }
    rw [hspare, ← hf, ← ha.own]

/-- Events of the logger are a likeness's own business; what the hosts keep besides is not touched.
-/
theorem act (ha : L.Akin h h') {e : LogEvent} (he : e.Steady) :
    L.Akin { h with machine := h.machine.act e } { h' with machine := h'.machine.act e } :=
  ⟨L.act e he _ _ ha.machine, ha.hint, ha.own⟩

/-- One more handle is given up on both. -/
theorem giveUp (ha : L.Akin h h') (v : Handle) :
    L.Akin (Interpreter.giveUp v h) (Interpreter.giveUp v h') := by
  have hdrop : L.Rel { h.machine with heap := h.machine.heap.drop v }
      { h'.machine with heap := h'.machine.heap.drop v } := (L.drop v _ _ ha.machine).2
  exact ⟨hdrop, ha.hint, ha.own⟩

end Akin

/-! ## Parts of a step

  From the operations that a likeness takes care of to the parts of the interpreter that call
  them. -/

/-- An operation keeps the likeness of hosts if it keeps that of machines. -/
theorem keeps_on {op op' : Op α} (hop : Keeps L.Rel op op') : Keeps L.Akin (on op) (on op') := by
  intro h h' ha
  rcases both_end_iff.mp (hop h.machine h'.machine ha.machine) with
    ⟨a, m, a', m', hrun, hrun', ⟨rfl, hm⟩⟩ | ⟨f, m, f', m', hrun, hrun', ⟨rfl, hm⟩⟩
  · rw [run_on hrun, run_on hrun']
    exact ⟨rfl, hm, ha.hint, ha.own⟩
  · rw [run_on_error hrun, run_on_error hrun']
    exact ⟨rfl, hm, ha.hint, ha.own⟩

/-- Parts of steps that have to do with names are the same on both hosts. -/
theorem keeps_lookup (name : String) : Keeps L.Akin (lookup name) (lookup name) := by
  intro h h' ha
  have hnames := ha.names
  cases hv : h.own.names.get? name with
  | none =>
    rw [run_lookup_none hv, run_lookup_none (hnames ▸ hv), ha.executed]
    exact ⟨rfl, ha⟩
  | some v =>
    rw [run_lookup hv, run_lookup (hnames ▸ hv)]
    exact ⟨rfl, ha⟩

theorem keeps_erase (name : String) :
    Keeps L.Akin
      (modify fun h => { h with own.names := h.own.names.erase name } : StepAct Unit)
      (modify fun h => { h with own.names := h.own.names.erase name }) :=
  Keeps.modify fun _ _ ha =>
    ha.change (f := fun own => { own with names := own.names.erase name }) (fun _ _ => rfl)
      fun _ => rfl

theorem keeps_take (name : String) : Keeps L.Akin (take name) (take name) :=
  (keeps_lookup name).bind fun v => (keeps_erase name).bind fun _ => Keeps.pure v

theorem keeps_bindName (name : String) (v : Handle) :
    Keeps L.Akin (bind name v) (bind name v) := by
  refine Keeps.get fun h h' ha => ?_
  rw [ha.names]
  have hput : Keeps L.Akin
      (modify fun h => { h with own.names := h.own.names.put name v } : StepAct Unit)
      (modify fun h => { h with own.names := h.own.names.put name v }) :=
    Keeps.modify fun _ _ ha =>
      ha.change (f := fun own => { own with names := own.names.put name v }) (fun _ _ => rfl)
        fun _ => rfl
  refine hput.bind fun _ => ?_
  -- the handle that is replaced is the same one in both runs
  cases h.own.names.get? name with
  | none => exact Keeps.pure ()
  | some old => exact keeps_on (L.drop old)

/-- An operand is a new box or what a name denotes, and names denote the same on both. -/
theorem keeps_handleOf (operand : Operand) :
    Keeps L.Akin (handleOf operand) (handleOf operand) := by
  cases operand with
  | int n => exact keeps_on (L.newBox (.int n) .fixed)
  | text s => exact keeps_on (L.newBox (.string s) .fixed)
  | var name =>
    refine (keeps_lookup name).bind fun v => ?_
    exact (keeps_on (L.retain v)).bind fun _ => Keeps.pure v

/-- A handle is given up on both, also after a failure. -/
theorem keeps_consuming (v : Handle) {work : StepAct α} (hwork : Keeps L.Akin work work) :
    Keeps L.Akin (consuming v work) (consuming v work) := by
  intro h h' ha
  rcases both_end_iff.mp (hwork h h' ha) with
    ⟨a, s, a', s', hrun, hrun', ⟨rfl, hs⟩⟩ | ⟨e, s, e', s', hrun, hrun', ⟨rfl, hs⟩⟩
  · rw [run_consuming hrun, run_consuming hrun']
    exact ⟨rfl, hs.giveUp v⟩
  · rw [run_consuming_error hrun, run_consuming_error hrun']
    exact ⟨rfl, hs.giveUp v⟩

/-- A handle that is held for a while is given up on both, after whatever end. -/
theorem keeps_holding {operand : Operand} {work : Handle → StepAct α}
    (hwork : ∀ v, Keeps L.Akin (work v) (work v)) :
    Keeps L.Akin (holding operand work) (holding operand work) :=
  (keeps_handleOf operand).bind fun v => keeps_consuming v (hwork v)

/-- Whether a piece is taken depends on the output alone, which is the same on both. -/
theorem keeps_write (s : String) : Keeps L.Akin (write s) (write s) := by
  refine Keeps.get fun h h' ha => ?_
  rw [ha.out]
  rcases h.own.out.write s with ⟨refused, out⟩
  -- What comes of the piece is the same on both, and it is put in the place of the old output.
  have hout : Keeps L.Akin (modify fun h => { h with own.out := out } : StepAct Unit)
      (modify fun h => { h with own.out := out }) :=
    Keeps.modify fun _ _ ha =>
      ha.change (f := fun own => { own with out }) (fun _ _ => rfl) fun _ => rfl
  refine hout.bind fun _ => ?_
  cases refused with
  | none => exact Keeps.pure ()
  | some reason => exact Keeps.throw _

theorem keeps_printBox (v : Handle) : Keeps L.Akin (printBox v) (printBox v) :=
  (keeps_write v.text).bind fun _ => keeps_write "\n"

theorem keeps_bindOrPrint (target : Option String) (v : Handle) :
    Keeps L.Akin (bindOrPrint target v) (bindOrPrint target v) := by
  cases target with
  | some name => exact keeps_bindName name v
  | none => exact keeps_consuming v (keeps_printBox v)

theorem keeps_remark (level : Level) (message : String) :
    Keeps L.Akin (remark level message : EStateM ε (Host Interpreter) Unit)
      (remark level message) :=
  Keeps.modify fun _ _ ha => ha.act (e := .remark level message) trivial

/-! ## Steps

  The only step that asks for the default size hint is the one that makes a list. -/

/-- **A step keeps every likeness of machines** that all operations keep, by cases. -/
theorem keeps_step (s : Step) : Keeps L.Akin (step s) (step s) := by
  cases s with
  | setNew name tag => exact (keeps_on (L.newBox _ _)).bind fun v => keeps_bindName name v
  | mapNew name tag => exact (keeps_on (L.newBox _ _)).bind fun v => keeps_bindName name v
  | listNew name hint =>
    -- only here does the default size hint come in
    refine Keeps.get fun h h' ha => ?_
    have hhint : L.Hints (hint.getD h.own.defaultSizeHint) (hint.getD h'.own.defaultSizeHint) := by
      cases hint with
      | none => exact ha.hint
      | some hint => exact L.same_hint hint
    exact (keeps_on (L.newList _ _ hhint)).bind fun v => keeps_bindName name v
  | box name value => exact (keeps_handleOf value).bind fun v => keeps_bindName name v
  | setAdd name value =>
    exact keeps_holding fun v => (keeps_lookup name).bind fun set => keeps_on (L.setAdd set v)
  | mapAdd name key value =>
    refine keeps_holding fun k => keeps_holding fun v => ?_
    exact (keeps_lookup name).bind fun map => keeps_on (L.mapAdd map k v)
  | listAppend name value =>
    exact keeps_holding fun v =>
      (keeps_lookup name).bind fun list => keeps_on (L.listAppend list v)
  | listGet target name index =>
    refine (keeps_lookup name).bind fun list => ?_
    refine (keeps_on (L.listGet list index)).bind fun found => ?_
    cases found with
    | some v => cases target <;> exact keeps_bindOrPrint _ v
    | none =>
      cases target with
      | some target => exact keeps_remark _ _
      | none => exact keeps_write _
  | indexOf target name key =>
    refine keeps_holding fun k => (keeps_lookup name).bind fun collection => ?_
    exact (keeps_on (L.indexOf collection k)).bind fun v => keeps_bindOrPrint target v
  | lengthOf target name =>
    refine (keeps_lookup name).bind fun v => ?_
    exact (keeps_on (L.lengthOf v)).bind fun n => keeps_bindOrPrint target n
  | print value => exact keeps_holding keeps_printBox
  | release name deep =>
    refine (keeps_take name).bind fun v => ?_
    exact (keeps_on (L.release v deep)).bind fun n => keeps_remark _ _

/-- A step that is begun or passed over. -/
theorem keeps_runStep (s : Step) : Keeps L.Akin (runStep s) (runStep s) := by
  intro h h' ha
  unfold runStep
  -- The failure is kept by the interpreter, and that is the same on both.
  rw [ha.failure]
  by_cases hfailed : h.own.failure.isSome
  · rw [if_pos hfailed, if_pos hfailed]
    exact ⟨rfl, ha⟩
  · rw [if_neg hfailed, if_neg hfailed]
    have hbegun := ha.change (f := fun own => { own with executed := own.executed + 1 })
      (fun _ _ => rfl) fun _ => rfl
    rcases both_end_iff.mp (keeps_step s _ _ hbegun) with
      ⟨a, t, a', t', hrun, hrun', ⟨rfl, ht⟩⟩ | ⟨e, t, e', t', hrun, hrun', ⟨rfl, ht⟩⟩
    · rw [hrun, hrun']
      exact ⟨rfl, ht⟩
    · rw [hrun, hrun']
      -- A fault ends both; a refused write is kept as the failure of both.
      cases e' with
      | fault f => exact ⟨rfl, ht⟩
      | script e =>
        exact ⟨rfl, ht.change (f := fun own => { own with failure := some e }) (fun _ _ => rfl)
          fun _ => rfl⟩

/-- **Any list of steps**, by induction. -/
theorem keeps_runSteps (steps : List Step) :
    Keeps L.Akin (runSteps steps) (runSteps steps) := by
  induction steps with
  | nil => exact Keeps.pure ()
  | cons s rest ih => exact (keeps_runStep s).bind fun _ => ih

/-! ## Programs

  The messages of the program are the same events on both hosts. -/

theorem keeps_log (level : Level) (component : Component) (message : String) :
    Keeps L.Akin (InitChain.log level component message : EStateM ε (Host Interpreter) Unit)
      (InitChain.log level component message) :=
  Keeps.modify fun _ _ ha => ha.act (e := .record level component.target message) trivial

/-- A block that fails is reported as its initializer, by a message that is the same on both. -/
theorem keeps_runOne (position : Nat) {i : Initializer Interpreter}
    (hi : Keeps L.Akin i.action i.action) :
    Keeps L.Akin (InitChain.runOne position i) (InitChain.runOne position i) := by
  -- The block is announced, run, and reported if it fails.
  refine (keeps_log _ _ _).bind fun _ => ?_
  intro h h' ha
  rcases both_end_iff.mp (hi h h' ha) with
    ⟨a, s, a', s', hrun, hrun', ⟨rfl, hs⟩⟩ | ⟨f, s, f', s', hrun, hrun', ⟨rfl, hs⟩⟩
  · dsimp only
    rw [hrun, hrun']
    exact ⟨rfl, hs⟩
  · dsimp only
    rw [hrun, hrun']
    exact ⟨rfl, hs.act (e := .record .error Component.init.target _) trivial⟩

theorem keeps_runFrom (position : Nat) {is : List (Initializer Interpreter)}
    (his : ∀ i ∈ is, Keeps L.Akin i.action i.action) :
    Keeps L.Akin (InitChain.runFrom position is) (InitChain.runFrom position is) := by
  induction is generalizing position with
  | nil => exact Keeps.pure ()
  | cons i rest ih =>
    obtain ⟨hi, hrest⟩ := List.forall_mem_cons.mp his
    exact (keeps_runOne position hi).bind fun _ => ih (position + 1) hrest

theorem keeps_chain (s : Script) : Keeps L.Akin s.chain.run s.chain.run := by
  -- The blocks are runs of steps.
  have hblocks : ∀ i ∈ s.chain.initializers, Keeps L.Akin i.action i.action := by
    intro i hi
    obtain ⟨b, -, rfl⟩ := List.mem_map.mp hi
    exact keeps_runSteps b.steps
  intro h h' ha
  -- The span is opened on both, and closed on both whatever happened.
  have hopen := ha.act (e := .enter "init") trivial
  unfold InitChain.run
  dsimp only
  rcases both_end_iff.mp (keeps_runFrom 0 hblocks _ _ hopen) with
    ⟨a, t, a', t', hrun, hrun', ⟨rfl, ht⟩⟩ | ⟨e, t, e', t', hrun, hrun', ⟨rfl, ht⟩⟩
  · have hclosed := ht.act (e := .exit ⟨0⟩) trivial
    unfold Machine.act Logger.act at hrun hrun'
    rw [hrun, hrun']
    exact ⟨rfl, hclosed⟩
  · have hclosed := ht.act (e := .exit ⟨0⟩) trivial
    unfold Machine.act Logger.act at hrun hrun'
    rw [hrun, hrun']
    exact ⟨rfl, hclosed⟩

theorem keeps_main (s : Script) (system : Handle) :
    Keeps L.Akin (s.main system) (s.main system) := by
  refine (keeps_remark _ _).bind fun _ => ?_
  -- The system object is given up on both, after success and after failure.
  have hfinally : Keeps L.Akin
      (do try runSteps s.steps finally Host.on id (Machine.drop system) : Callback Interpreter Unit)
      (do try runSteps s.steps finally Host.on id (Machine.drop system)) := by
    intro h h' ha
    simp only [tryFinally, tryFinally', Functor.map, EStateM.map]
    rcases both_end_iff.mp (keeps_runSteps s.steps h h' ha) with
      ⟨a, t, a', t', hrun, hrun', ⟨rfl, ht⟩⟩ | ⟨f, t, f', t', hrun, hrun', ⟨rfl, ht⟩⟩
    · rw [hrun, hrun']
      exact ⟨trivial, ht.giveUp system⟩
    · rw [hrun, hrun']
      exact ⟨rfl, ht.giveUp system⟩
  exact hfinally.bind fun _ => Keeps.pure _

/-- Wrapping a fault looks at the fault and not at the host. -/
theorem keeps_runMain (s : Script) (system : Handle) :
    Keeps L.Akin (runMain s.main system) (runMain s.main system) := by
  intro h h' ha
  unfold runMain
  rcases both_end_iff.mp (keeps_main s system h h' ha) with
    ⟨a, t, a', t', hrun, hrun', ⟨rfl, ht⟩⟩ | ⟨f, t, f', t', hrun, hrun', ⟨rfl, ht⟩⟩
  · rw [hrun, hrun']
    exact ⟨rfl, ht⟩
  · rw [hrun, hrun']
    exact ⟨rfl, ht⟩

/-- **A script cannot tell hosts apart that are alike.** -/
theorem keeps_run (s : Script) : Keeps L.Akin s.run s.run := by
  unfold Script.run runProgram
  refine (keeps_log _ _ _).bind fun _ => ?_
  refine (keeps_chain s).bind fun _ => ?_
  -- The system object is made on both, under the same number.
  have hbox : Keeps L.Akin (Host.on ProgramFailure.main (Machine.boxInt 1))
      (Host.on ProgramFailure.main (Machine.boxInt 1)) := by
    intro h h' ha
    obtain ⟨hsystem, hm⟩ := L.newBox (.int 1) .fixed _ _ ha.machine
    exact ⟨hsystem, hm, ha.hint, ha.own⟩
  refine hbox.bind fun system => ?_
  refine (keeps_runMain s system).bind fun text => ?_
  exact (keeps_log _ _ _).bind fun _ => Keeps.pure text

end Likeness

end BoxRuntime
