/-
  Scripts keep the ledger.

  While a script runs, the handles outside of the heap are those under names and those that the
  present step holds for a moment (`temps`).  `Healthy temps` says that the heap is healthy with
  these, and that no name stands twice.

  There is one triple for each part of the interpreter.  It says which of the momentary handles the
  part uses up and which it leaves, so that a step that begins with none ends with none, whether it
  completes or the script fails in the middle of it (`triple_step`).  A fault ends the program, and
  nothing is said about what it leaves behind.

  The crux is `triple_consuming`: what is held for a while is given up on every way out.
-/
import BoxRuntime.Proofs.Machine.Balance
import BoxRuntime.Proofs.Names
import BoxRuntime.Proofs.Script.Runs

namespace BoxRuntime

namespace Interpreter

/-- The heap is healthy with the handles under names and some more outside. -/
structure Healthy (temps : List Handle) (h : Host Interpreter) : Prop where
  heap : h.machine.heap.Healthy (temps ++ h.own.names.handles)
  names : h.own.names.Distinct

/-- What a part of a step leaves if it does not complete. -/
def Left (temps : List Handle) : StepFailure → Host Interpreter → Prop
  | .fault _, _ => True
  | .script _, h => Healthy temps h

variable {α : Type} {temps : List Handle}

/-! ## Operations

  A balanced plan keeps the ledger, with the handles it gives among those held for a moment. -/

/-- An operation on boxes that balances. -/
theorem triple_on {op : Op α} {spent : List Handle} {P : Host Interpreter → Prop}
    (given : α → List Handle)
    (hop : ∀ h, P h → Healthy (spent ++ temps) h ∧ ∃ plan, h.machine.Does op plan ∧
      ∀ a p, plan = .ok (a, p) → p.Balanced h.machine.heap spent (given a)) :
    Triple P (on op) (fun a => Healthy (given a ++ temps)) (Left temps) := by
  intro h hh
  obtain ⟨⟨hheap, hnames⟩, plan, hdoes, hbalanced⟩ := hop h hh
  -- A fault leaves nothing to be said; otherwise the patch is balanced.
  cases plan with
  | error f =>
    rw [run_on_error hdoes]
    trivial
  | ok r =>
    obtain ⟨a, p⟩ := r
    obtain ⟨logger, hok⟩ := hdoes
    rw [run_on hok]
    rw [List.append_assoc] at hheap
    refine ⟨?_, hnames⟩
    rw [List.append_assoc]
    exact hheap.patch (hbalanced a p rfl)

/-- An operation that leaves the caller what he has. -/
theorem triple_on_kept {op : Op α} {P : Host Interpreter → Prop} (given : α → List Handle)
    (hop : ∀ h, P h → Healthy temps h ∧ ∃ plan, h.machine.Does op plan ∧
      ∀ a p, plan = .ok (a, p) → p.Balanced h.machine.heap [] (given a)) :
    Triple P (on op) (fun a => Healthy (given a ++ temps)) (Left temps) := by
  have hnothing : ∀ h, P h → Healthy ([] ++ temps) h ∧ ∃ plan, h.machine.Does op plan ∧
      ∀ a p, plan = .ok (a, p) → p.Balanced h.machine.heap [] (given a) := hop
  exact triple_on given hnothing

theorem triple_on_box {op : Op Handle}
    (hop : ∀ m : Machine, ∃ plan, m.Boxes op plan ∧
      ∀ datum content, plan = .ok (datum, content) → content.Blank) :
    Triple (Healthy temps) (on op) (fun v => Healthy (v :: temps)) (Left temps) := by
  intro h hh
  obtain ⟨plan, hboxes, hblank⟩ := hop h.machine
  cases plan with
  | error f =>
    rw [run_on_error hboxes]
    trivial
  | ok r =>
    obtain ⟨datum, content⟩ := r
    rw [run_on hboxes]
    exact ⟨hh.heap.alloc datum (hblank datum content rfl), hh.names⟩

/-- A box whose content is settled beforehand. -/
theorem triple_on_newBox (datum : Datum) {content : Content} (hb : content.Blank) :
    Triple (Healthy temps) (on (Machine.newBox datum content)) (fun v => Healthy (v :: temps))
      (Left temps) := by
  refine triple_on_box fun m => ⟨_, Machine.boxes_newBox datum content, ?_⟩
  intro datum' content' h
  obtain ⟨-, rfl⟩ := Prod.mk.inj (Except.ok.inj h)
  exact hb

/-- A list that is made is held for the time being; one that is not leaves nothing to hold. -/
theorem triple_on_newList (hint : Nat) :
    Triple (Healthy temps) (on (Machine.newList hint)) (fun v => Healthy (v :: temps))
      (Left temps) := by
  refine triple_on_box fun m => ⟨_, Machine.boxes_newList hint, ?_⟩
  intro datum content h
  obtain ⟨slots, hslots, hd⟩ := Plan.map_eq_ok.mp h
  obtain ⟨-, rfl⟩ := Prod.mk.inj hd
  exact blank_list hslots

/-- A length that is boxed is held for the time being. -/
theorem triple_on_lengthOf (v : Handle) :
    Triple (Healthy temps) (on (Machine.lengthOf v)) (fun n => Healthy (n :: temps))
      (Left temps) := by
  refine triple_on_box fun m => ⟨_, Machine.boxes_lengthOf v, ?_⟩
  intro datum content h
  obtain ⟨n, -, hd⟩ := Plan.map_eq_ok.mp h
  obtain ⟨-, rfl⟩ := Prod.mk.inj hd
  exact blank_fixed

/-! ## Names

  Giving a name to a handle moves it from the hand to the names, and taking it moves it back. -/

/-- A name that is found keeps its box. -/
theorem triple_lookup (name : String) :
    Triple (Healthy temps) (lookup name)
      (fun v h => Healthy temps h ∧ v ∈ h.own.names.handles) (Left temps) := by
  intro h hh
  cases hv : h.own.names.get? name with
  -- The script fails, with nothing gained.
  | none =>
    rw [run_lookup_none hv]
    exact hh
  | some v =>
    rw [run_lookup hv]
    exact ⟨hh, Names.mem_handles hv⟩

/-- A name that is taken hands its box over. -/
theorem triple_take (name : String) :
    Triple (Healthy temps) (take name) (fun v => Healthy (v :: temps)) (Left temps) := by
  intro h hh
  cases hv : h.own.names.get? name with
  | none =>
    rw [run_take_none hv]
    exact hh
  | some v =>
    rw [run_take hv]
    -- The handle has left the names and is in the hand now; in the ledger that is the same list in
    -- another order.
    refine ⟨hh.heap.of_perm ?_, hh.names.erase name⟩
    have hperm := (Names.handles_perm hh.names hv).append_left temps
    exact List.perm_middle.symm.trans hperm.symm

/-- A name takes the box over, and gives up the one it had. -/
theorem triple_bindName (name : String) (v : Handle) :
    Triple (Healthy (v :: temps)) (bind name v) (fun _ => Healthy temps) (Left temps) := by
  intro h hh
  rw [run_bindName]
  refine ⟨?_, hh.names.put name v⟩
  have hperm := (Names.handles_put_perm hh.names name v).append_left temps
  -- what was held is what is given up now and what is held afterwards
  have hall : ((h.own.names.get? name).toList ++
      (temps ++ (h.own.names.put name v).handles)).Perm (v :: temps ++ h.own.names.handles) := by
    refine List.Perm.trans ?_ (hperm.trans List.perm_middle)
    rw [← List.append_assoc, ← List.append_assoc]
    exact List.perm_append_comm.append_right _
  have hpatched := (hh.heap.of_perm hall).patch (Plan.balanced_dropped _)
  rw [Heap.patch_dropped] at hpatched
  exact hpatched

/-! ## Holding handles

  What is held for a while comes into the hand and is gone from it at the end. -/

/-- Another handle of a box under a name. -/
theorem triple_retain (v : Handle) :
    Triple (fun h => Healthy temps h ∧ v ∈ h.own.names.handles)
      (do
        on (Machine.retain v)
        return v)
      (fun u => Healthy (u :: temps)) (Left temps) := by
  have hretain : Triple (fun h => Healthy temps h ∧ v ∈ h.own.names.handles)
      (on (Machine.retain v)) (fun _ => Healthy ([v] ++ temps)) (Left temps) := by
    -- The name holds a handle, so the box is live.
    refine triple_on_kept (fun _ => [v]) fun h hh => ⟨hh.1, _, Machine.does_retain v, ?_⟩
    intro a p hp
    obtain ⟨-, rfl⟩ := Prod.mk.inj (Except.ok.inj hp)
    refine Plan.balanced_retained fun w hw => ?_
    rw [List.mem_singleton.mp hw]
    exact hh.1.heap.ledger.live_of_mem (List.mem_append_right _ hh.2)
  have hreturn : Triple (Healthy ([v] ++ temps)) (pure v : StepAct Handle)
    (fun u => Healthy (u :: temps)) (Left temps) := fun _ hh => hh
  exact hretain.bind fun _ => hreturn

/-- An operand is held for the time being, whether it is a new box or one more handle of a named
one. -/
theorem triple_handleOf (operand : Operand) :
    Triple (Healthy temps) (handleOf operand) (fun v => Healthy (v :: temps)) (Left temps) := by
  cases operand with
  | int n => exact triple_on_newBox (.int n) blank_fixed
  | text s => exact triple_on_newBox (.string s) blank_fixed
  | var name => exact (triple_lookup name).bind fun v => triple_retain v

/-- A handle held for a moment can be given up. -/
theorem Healthy.giveUp {v : Handle} {h : Host Interpreter} (hh : Healthy (v :: temps) h) :
    Healthy temps (giveUp v h) := by
  refine ⟨?_, hh.names⟩
  have hheap : h.machine.heap.Healthy ([v] ++ (temps ++ h.own.names.handles)) := hh.heap
  have hpatched := hheap.patch (Plan.balanced_dropped [v])
  rw [Heap.patch_dropped] at hpatched
  exact hpatched

/-- What is held is given up on every way out. -/
theorem triple_consuming {v : Handle} {work : StepAct α}
    (hwork : Triple (Healthy (v :: temps)) work (fun _ => Healthy (v :: temps))
      (Left (v :: temps))) :
    Triple (Healthy (v :: temps)) (consuming v work) (fun _ => Healthy temps) (Left temps) := by
  intro h hh
  have hend := hwork h hh
  cases hrun : work h with
  | ok a h' =>
    rw [hrun] at hend
    rw [run_consuming hrun]
    exact hend.giveUp
  | error e h' =>
    rw [hrun] at hend
    rw [run_consuming_error hrun]
    -- after a fault nothing has to be shown
    cases e with
    | fault f => trivial
    | script e => exact Healthy.giveUp hend

/-- What a step holds while it works it gives up at the end, and after a failure. -/
theorem triple_holding {operand : Operand} {work : Handle → StepAct α}
    (hwork : ∀ v, Triple (Healthy (v :: temps)) (work v) (fun _ => Healthy (v :: temps))
      (Left (v :: temps))) :
    Triple (Healthy temps) (holding operand work) (fun _ => Healthy temps) (Left temps) :=
  (triple_handleOf operand).bind fun v => triple_consuming (hwork v)

/-! ## Output

  Writing touches no handle. -/

theorem triple_write (s : String) :
    Triple (Healthy temps) (write s) (fun _ => Healthy temps) (Left temps) := by
  intro h hh
  -- A piece that is refused is a failure of the script, so the hand is as it was.
  cases hs : (h.own.out.write s).1 with
  | none =>
    rw [run_write hs]
    exact ⟨hh.heap, hh.names⟩
  | some reason =>
    rw [run_write_refused hs]
    exact ⟨hh.heap, hh.names⟩

theorem triple_printBox (v : Handle) :
    Triple (Healthy temps) (printBox v) (fun _ => Healthy temps) (Left temps) :=
  (triple_write v.text).bind fun _ => triple_write "\n"

/-- A result goes to a name, or is printed and given up. -/
theorem triple_bindOrPrint (target : Option String) (v : Handle) :
    Triple (Healthy (v :: temps)) (bindOrPrint target v) (fun _ => Healthy temps)
      (Left temps) := by
  cases target with
  | some name => exact triple_bindName name v
  | none => exact triple_consuming (triple_printBox v)

theorem triple_remark (level : Level) (message : String) :
    Triple (Healthy temps) (remark level message : StepAct Unit) (fun _ => Healthy temps)
      (Left temps) :=
  fun _ hh => ⟨hh.heap, hh.names⟩

/-! ## Steps

  A step begins and ends with empty hands. -/

/-- A step that begins without momentary handles ends without. -/
theorem triple_step (s : Step) :
    Triple (Healthy []) (step s) (fun _ => Healthy []) (Left []) := by
  cases s with
  | setNew name tag =>
    exact (triple_on_newBox .set (blank_set _)).bind fun v => triple_bindName name v
  | mapNew name tag =>
    exact (triple_on_newBox .map (blank_map _)).bind fun v => triple_bindName name v
  | listNew name hint =>
    have hget : Triple (Healthy []) (get : StepAct (Host Interpreter)) (fun _ => Healthy [])
      (Left []) := fun _ hh => hh
    refine hget.bind fun h => ?_
    exact (triple_on_newList _).bind fun v => triple_bindName name v
  | box name value => exact (triple_handleOf value).bind fun v => triple_bindName name v
  | setAdd name value =>
    refine triple_holding fun v => (triple_lookup name).bind fun set => ?_
    refine triple_on_kept (fun _ => []) fun h hh => ⟨hh.1, _, Machine.does_setAdd set v, ?_⟩
    intro a p hp
    have hv : v ∈ [v] ++ h.own.names.handles := List.mem_cons_self
    exact Plan.setAdd_balanced hh.1.heap hv hp
  | mapAdd name key value =>
    refine triple_holding fun k => triple_holding fun v => (triple_lookup name).bind fun map => ?_
    refine triple_on_kept (fun _ => []) fun h hh => ⟨hh.1, _, Machine.does_mapAdd map k v, ?_⟩
    intro a p hp
    have hk : k ∈ [v, k] ++ h.own.names.handles := List.mem_cons_of_mem v List.mem_cons_self
    have hv : v ∈ [v, k] ++ h.own.names.handles := List.mem_cons_self
    exact Plan.mapAdd_balanced hh.1.heap hk hv hp
  | listAppend name value =>
    refine triple_holding fun v => (triple_lookup name).bind fun list => ?_
    refine triple_on_kept (fun _ => []) fun h hh => ⟨hh.1, _, Machine.does_listAppend list v, ?_⟩
    intro a p hp
    have hv : v ∈ [v] ++ h.own.names.handles := List.mem_cons_self
    exact Plan.listAppend_balanced hh.1.heap hv hp
  | listGet target name index =>
    refine (triple_lookup name).bind fun list => ?_
    have hget : Triple (fun h => Healthy [] h ∧ list ∈ h.own.names.handles)
        (on (Machine.listGet list index)) (fun found => Healthy (found.toList ++ []))
        (Left []) := by
      refine triple_on_kept Option.toList fun h hh => ?_
      refine ⟨hh.1, _, Machine.does_listGet list index, ?_⟩
      intro found p hp
      exact Plan.listGet_balanced hh.1.heap hp
    refine hget.bind fun found => ?_
    cases found with
    | some v => cases target <;> exact triple_bindOrPrint _ v
    | none =>
      cases target with
      | some target => exact triple_remark _ _
      | none => exact triple_write _
  | indexOf target name key =>
    refine triple_holding fun k => (triple_lookup name).bind fun collection => ?_
    have hindex : Triple (fun h => Healthy [k] h ∧ collection ∈ h.own.names.handles)
        (on (Machine.indexOf collection k)) (fun v => Healthy ([v] ++ [k])) (Left [k]) := by
      refine triple_on_kept (fun v => [v]) fun h hh => ?_
      refine ⟨hh.1, _, Machine.does_indexOf collection k, ?_⟩
      intro v p hp
      exact Plan.indexOf_balanced hh.1.heap hp
    exact hindex.bind fun v => triple_bindOrPrint target v
  | lengthOf target name =>
    refine (triple_lookup name).bind fun v => ?_
    exact ((triple_on_lengthOf v).before fun _ hh => hh.1).bind fun n =>
      triple_bindOrPrint target n
  | print value => exact triple_holding fun v => triple_printBox v
  | release name deep =>
    -- a deep release may fail and lose the handle, but that is a fault and ends the program
    refine (triple_take name).bind fun v => ?_
    have hrelease : Triple (Healthy ([v] ++ [])) (on (Machine.release v deep))
        (fun _ => Healthy ([] ++ [])) (Left []) := by
      refine triple_on (fun _ => []) fun h hh => ⟨hh, _, Machine.does_release v deep, ?_⟩
      intro n p hp
      exact Plan.release_balanced hp
    exact hrelease.bind fun n => triple_remark _ _

/-- No momentary handle is left between the steps of a run. -/
theorem triple_runStep (s : Step) :
    Triple (Healthy []) (runStep s) (fun _ => Healthy []) fun _ _ => True := by
  intro h hh
  unfold runStep
  -- The step is passed over, or it begins and ends in one of three ways.
  split
  · exact hh
  · have hend := triple_step s { h with own.executed := h.own.executed + 1 } ⟨hh.heap, hh.names⟩
    split
    · rename_i hrun
      rw [hrun] at hend
      exact hend
    · trivial
    · rename_i hrun
      rw [hrun] at hend
      exact ⟨hend.heap, hend.names⟩

/-- **Any list of steps** leaves the books in order: all that is held is held by names. -/
theorem triple_runSteps (steps : List Step) :
    Triple (Healthy []) (runSteps steps) (fun _ => Healthy []) fun _ _ => True := by
  induction steps with
  | nil => exact fun _ hh => hh
  | cons s rest ih => exact (triple_runStep s).bind fun _ => ih

end Interpreter

end BoxRuntime
