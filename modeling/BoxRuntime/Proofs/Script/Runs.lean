/-
  The parts of a step, one by one.

  How each part of the interpreter ends, as an equation: what it gives and what becomes of the host.
  The modules that follow a whole step through use these equations only.
-/
import BoxRuntime.Proofs.Triple
import BoxRuntime.Script.Interpreter

namespace BoxRuntime

namespace Interpreter

variable {α : Type} {h : Host Interpreter}

/-- What an action does, case by case: an operation of the machine leaves the interpreter alone. -/
theorem run_on {op : Op α} {a : α} {m : Machine} (hop : op h.machine = .ok a m) :
    on op h = .ok a { machine := m, own := h.own } := by
  obtain ⟨machine, own⟩ := h
  dsimp only [on, Host.on]
  rw [hop]

theorem run_on_error {op : Op α} {f : Fault} {m : Machine} (hop : op h.machine = .error f m) :
    on op h = .error (.fault f) { machine := m, own := h.own } := by
  obtain ⟨machine, own⟩ := h
  dsimp only [on, Host.on]
  rw [hop]

/-- An operation leaves alone what the host keeps besides its machine. -/
theorem own_on {ε : Type} (wrap : Fault → ε) (op : Op α) (h : Host Interpreter) :
    (leftBy ((Host.on wrap op : EStateM ε (Host Interpreter) α) h)).own = h.own := by
  unfold Host.on
  dsimp only
  cases op h.machine <;> rfl

theorem get_host (h : Host Interpreter) : (get : StepAct (Host Interpreter)) h = .ok h h :=
  rfl

theorem run_lookup {name : String} {v : Handle} (hv : h.own.names.get? name = some v) :
    lookup name h = .ok v h := by
  unfold lookup
  rw [run_bind (get_host h), hv]
  rfl

/-- A name without a box is reported with the number of the step. -/
theorem run_lookup_none {name : String} (hn : h.own.names.get? name = none) :
    lookup name h = .error (.script (.unbound h.own.executed name)) h := by
  unfold lookup
  rw [run_bind (get_host h), hn]
  rfl

theorem run_take {name : String} {v : Handle} (hv : h.own.names.get? name = some v) :
    take name h = .ok v { h with own.names := h.own.names.erase name } :=
  run_bind (run_lookup hv) _

theorem run_take_none {name : String} (hn : h.own.names.get? name = none) :
    take name h = .error (.script (.unbound h.own.executed name)) h :=
  run_bind_error (run_lookup_none hn) _

/-- The host after a handle was given up. -/
def giveUp (v : Handle) (h : Host Interpreter) : Host Interpreter :=
  { h with machine.heap := h.machine.heap.drop v }

/-- The host after a name was given a handle. -/
def rebind (name : String) (v : Handle) (h : Host Interpreter) : Host Interpreter :=
  { machine := { h.machine with heap := h.machine.heap.dropAll (h.own.names.get? name).toList }
    own := { h.own with names := h.own.names.put name v } }

theorem run_bindName (name : String) (v : Handle) (h : Host Interpreter) :
    bind name v h = .ok () (rebind name v h) := by
  unfold bind
  rw [run_bind (get_host h)]
  dsimp only
  unfold rebind
  cases h.own.names.get? name with
  | none =>
    rw [Option.toList_none, Heap.dropAll]
    rfl
  | some old => rfl

/-- What is held is given up whether or not the work succeeds. -/
theorem run_consuming {v : Handle} {work : StepAct α} {a : α} {h' : Host Interpreter}
    (hwork : work h = .ok a h') : consuming v work h = .ok a (giveUp v h') := by
  unfold consuming
  simp only [tryFinally, tryFinally', Functor.map, EStateM.map]
  rw [hwork]
  rfl

/-- A handle is given up after a failure as well. -/
theorem run_consuming_error {v : Handle} {work : StepAct α} {e : StepFailure}
    {h' : Host Interpreter} (hwork : work h = .error e h') :
    consuming v work h = .error e (giveUp v h') := by
  unfold consuming
  simp only [tryFinally, tryFinally', Functor.map, EStateM.map]
  rw [hwork]
  rfl

/-- What is consumed is given up in any case. -/
theorem leftBy_consuming (v : Handle) (work : StepAct α) (h : Host Interpreter) :
    leftBy (consuming v work h) = giveUp v (leftBy (work h)) := by
  cases hwork : work h with
  | ok a h' => rw [run_consuming hwork, leftBy, leftBy]
  | error e h' => rw [run_consuming_error hwork, leftBy, leftBy]

theorem run_write {s : String} (hs : (h.own.out.write s).1 = none) :
    write s h = .ok () { h with own.out := (h.own.out.write s).2 } := by
  unfold write
  rw [run_bind (get_host h)]
  dsimp only
  refine (run_bind rfl _).trans ?_
  rw [hs]
  rfl

/-- One that is refused is written as far as it was taken. -/
theorem run_write_refused {s reason : String} (hs : (h.own.out.write s).1 = some reason) :
    write s h = .error (.script (.unwritable reason))
      { h with own.out := (h.own.out.write s).2 } := by
  unfold write
  rw [run_bind (get_host h)]
  dsimp only
  refine (run_bind rfl _).trans ?_
  rw [hs]
  rfl

end Interpreter

end BoxRuntime
