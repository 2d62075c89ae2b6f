/-
  Steps are put together of few parts.

  A step makes operands, works with them and names or prints what comes of it.  All of that is done
  by a handful of parts: operations of the machine, looking up, giving and freeing names, writing,
  and saying something in the log.  They are put together in two ways only, one after the other
  (`bind`) and with a handle that is given up at the end (`consuming`).

  So a property of actions holds of every step if it holds of these parts and passes to what is put
  together of them.  `Passes` is for properties of the parts that leave names alone, and `PassesOn`
  for those that all parts have; its one result is `PassesOn.step`.
-/
import BoxRuntime.Proofs.Script.Runs

namespace BoxRuntime

namespace Interpreter

/-- The size hint of lists that are made without one. -/
def defaultHint : StepAct Nat := do
  return (← get).own.defaultSizeHint

/-- A property of all parts of a step that leave names alone, which passes to what is put together.
-/
structure Passes (P : (α : Type) → StepAct α → Prop) : Prop where
  pure : ∀ {α : Type} (a : α), P α (pure a)
  bind : ∀ {α β : Type} {x : StepAct α} {k : α → StepAct β},
    P α x → (∀ a, P β (k a)) → P β (x >>= k)
  consuming : ∀ {α : Type} (v : Handle) {work : StepAct α}, P α work → P α (consuming v work)
  on : ∀ {α : Type} (op : Op α), P α (on op)
  defaultHint : P Nat defaultHint
  lookup : ∀ name, P Handle (lookup name)
  write : ∀ s, P Unit (write s)
  remark : ∀ level message, P Unit (remark level message)

/-- A property of all parts of a step, which passes to what is put together. -/
structure PassesOn (P : (α : Type) → StepAct α → Prop) : Prop extends Passes P where
  take : ∀ name, P Handle (take name)
  bindName : ∀ name v, P Unit (Interpreter.bind name v)

variable {P : (α : Type) → StepAct α → Prop} {α : Type}

/-- A property of actions that their parts pass on holds of the operands. -/
theorem Passes.handleOf (hP : Passes P) (operand : Operand) : P Handle (handleOf operand) := by
  cases operand with
  | int n => exact hP.on _
  | text s => exact hP.on _
  | var name =>
    exact hP.bind (hP.lookup name) fun v => hP.bind (hP.on _) fun _ => hP.pure v

theorem Passes.holding (hP : Passes P) (operand : Operand) {work : Handle → StepAct α}
    (hwork : ∀ v, P α (work v)) : P α (holding operand work) :=
  hP.bind (hP.handleOf operand) fun v => hP.consuming v (hwork v)

theorem Passes.printBox (hP : Passes P) (v : Handle) : P Unit (printBox v) :=
  hP.bind (hP.write v.text) fun _ => hP.write "\n"

theorem PassesOn.bindOrPrint (hP : PassesOn P) (target : Option String) (v : Handle) :
    P Unit (bindOrPrint target v) := by
  cases target with
  | some name => exact hP.bindName name v
  | none => exact hP.consuming v (hP.printBox v)

/-- **What all parts have, every step has.** -/
theorem PassesOn.step (hP : PassesOn P) (s : Step) : P Unit (step s) := by
  -- One case for each kind of step. A property of all parts that is kept when parts follow one
  -- another is one of all steps.
  cases s with
  | setNew name tag => exact hP.bind (hP.on _) fun v => hP.bindName name v
  | mapNew name tag => exact hP.bind (hP.on _) fun v => hP.bindName name v
  | listNew name hint =>
    have hmake : P Unit (defaultHint >>= fun default =>
        Interpreter.on (Machine.newList (hint.getD default)) >>= Interpreter.bind name) :=
      hP.bind hP.defaultHint fun _ => hP.bind (hP.on _) fun v => hP.bindName name v
    exact hmake
  | box name value => exact hP.bind (hP.handleOf value) fun v => hP.bindName name v
  | setAdd name value =>
    exact hP.holding value fun v => hP.bind (hP.lookup name) fun _ => hP.on _
  | mapAdd name key value =>
    refine hP.holding key fun k => hP.holding value fun v => ?_
    exact hP.bind (hP.lookup name) fun _ => hP.on _
  | listAppend name value =>
    exact hP.holding value fun v => hP.bind (hP.lookup name) fun _ => hP.on _
  | listGet target name index =>
    refine hP.bind (hP.lookup name) fun list => hP.bind (hP.on _) fun found => ?_
    cases found with
    | some v => cases target <;> exact hP.bindOrPrint _ v
    | none =>
      cases target with
      | some target => exact hP.remark _ _
      | none => exact hP.write _
  | indexOf target name key =>
    refine hP.holding key fun k => hP.bind (hP.lookup name) fun collection => ?_
    exact hP.bind (hP.on _) fun v => hP.bindOrPrint target v
  | lengthOf target name =>
    refine hP.bind (hP.lookup name) fun v => ?_
    exact hP.bind (hP.on _) fun n => hP.bindOrPrint target n
  | print value => exact hP.holding value fun v => hP.printBox v
  | release name deep =>
    refine hP.bind (hP.take name) fun v => ?_
    exact hP.bind (hP.on _) fun n => hP.remark _ _

end Interpreter

end BoxRuntime
