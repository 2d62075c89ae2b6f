/-
  What a program puts around its parts.

  A program runs its initializers and its main part, and adds little of its own: messages to the
  log, a span, the box of the system object, and another wording of the fault.  All of that concerns
  the machine and leaves alone what the host keeps besides.  There are two ways to add it.  One is
  an operation of the machine before or after (`Host.on`); the other is a frame around a part
  (`framed`), which is also there when the part fails.

  Each part of a program is written here as an equation in these two, so that what holds of frames
  and operations can be carried through a program without opening it again.
-/
import BoxRuntime.Proofs.Script.Runs

namespace BoxRuntime

variable {σ α ε δ : Type}

/-- A part of a program, with something done to the machine before and after it, the latter
depending on how it ends, and its failure in other words. -/
def framed (enter leave : Machine → Machine) (leaveFailed : ε → Machine → Machine) (wrap : ε → δ)
    (x : EStateM ε (Host σ) α) : EStateM δ (Host σ) α := fun h =>
  match x { h with machine := enter h.machine } with
  | .ok a h => .ok a { h with machine := leave h.machine }
  | .error e h => .error (wrap e) { h with machine := leaveFailed e h.machine }

section

variable {enter leave : Machine → Machine} {leaveFailed : ε → Machine → Machine} {wrap : ε → δ}
  {x : EStateM ε (Host σ) α} {h h' : Host σ}

/-- A frame changes the machine before and after, and passes the result on. -/
theorem run_framed {a : α} (hx : x { h with machine := enter h.machine } = .ok a h') :
    framed enter leave leaveFailed wrap x h = .ok a { h' with machine := leave h'.machine } := by
  unfold framed
  rw [hx]

/-- A failure is passed on wrapped, and the machine is left as failures leave it. -/
theorem run_framed_error {e : ε} (hx : x { h with machine := enter h.machine } = .error e h') :
    framed enter leave leaveFailed wrap x h =
      .error (wrap e) { h' with machine := leaveFailed e h'.machine } := by
  unfold framed
  rw [hx]

end

/-- A message of a component, as an operation. -/
def logged (level : Level) (component : Component) (message : String) (m : Machine) : Machine :=
  { m with logger := m.logger.log level component.target message }

/-- A change of the machine, as an operation. -/
def change (f : Machine → Machine) : Op Unit :=
  modify f

namespace InitChain

/-- Each part of a program is framed or is a change of the machine by itself.  A record is such a
change. -/
theorem log_eq (wrap : Fault → ε) (level : Level) (component : Component) (message : String) :
    (log level component message : EStateM ε (Host σ) Unit) =
      Host.on wrap (change (logged level component message)) :=
  rfl

/-- An initializer is announced, and its failure is told and wrapped by its name. -/
theorem runOne_eq (wrap : Fault → ProgramFailure) (position : Nat) (i : Initializer σ) :
    runOne position i =
      Host.on wrap (change (logged .debug .init s!"running initializer #{position} '{i.name}'"))
        >>= fun _ => framed id id
          (fun f => logged .error .init (ProgramFailure.init i.name f).message)
          (ProgramFailure.init i.name) i.action := by
  refine congrArg (bind _) (funext fun _ => funext fun h => ?_)
  dsimp only [framed, id]
  cases i.action h with
  | ok a h' => rfl
  | error f h' => rfl

/-- The chain runs within a span. -/
theorem run_eq (c : InitChain σ) :
    c.run = framed (fun m => { m with logger := (m.logger.enterSpan "init").2 })
      (fun m => { m with logger := m.logger.exitSpan ⟨0⟩ })
      (fun _ m => { m with logger := m.logger.exitSpan ⟨0⟩ }) id (runFrom 0 c.initializers) := by
  funext h
  unfold run framed
  dsimp only
  cases runFrom 0 c.initializers
    { h with machine.logger := (h.machine.logger.enterSpan "init").2 } with
  | ok a h' => rfl
  | error e h' => rfl

end InitChain

/-- A failure of the main part is wrapped, and no record tells of it. -/
theorem runMain_eq (main : Handle → Callback σ α) (system : Handle) :
    runMain main system = framed id id (fun _ => id) ProgramFailure.main (main system) := by
  funext h
  unfold runMain framed
  dsimp only [id]
  cases main system h with
  | ok a h' => rfl
  | error f h' => rfl

namespace Interpreter

/-- A remark changes the logger alone. -/
theorem remark_eq (wrap : Fault → ε) (level : Level) (message : String) :
    (remark level message : EStateM ε (Host Interpreter) Unit) =
      Host.on wrap (change fun m => { m with logger := m.logger.remark level message }) :=
  rfl

end Interpreter

namespace Script

/-- The main part of a script says what the system object is, and gives it up at the end. -/
theorem main_eq (s : Script) (system : Handle) :
    s.main system =
      Interpreter.remark .debug s!"system object {system.debugText}" >>= fun _ =>
        framed id (fun m => { m with heap := m.heap.drop system })
          (fun _ m => { m with heap := m.heap.drop system }) id (Interpreter.runSteps s.steps)
          >>= fun _ => pure system.debugText := by
  refine congrArg (bind _) (funext fun _ => funext fun h => ?_)
  dsimp only [framed, tryFinally, tryFinally', Functor.map, EStateM.map, id, bind, EStateM.bind]
  cases Interpreter.runSteps s.steps h with
  | ok a h' => rfl
  | error f h' => rfl

end Script

end BoxRuntime
