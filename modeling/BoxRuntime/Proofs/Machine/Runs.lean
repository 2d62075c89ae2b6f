/-
  Runs of a client.

  A client makes calls one after another, each of which it may make when its turn comes
  (`Client.AllowsAll`).  Whatever holds in all reachable states then holds at every moment of the
  run.  Of the boxes, a run makes new ones under new numbers and frees some; what is freed stays so
  (`Reachable.stays_freed`).
-/
import BoxRuntime.Proofs.Machine.History

namespace BoxRuntime

namespace Client

/-- The client after some calls. -/
def after (c : Client) (calls : List Call) : Client :=
  calls.foldl step c

/-- The client may make these calls, one after another. -/
def AllowsAll (c : Client) : List Call → Prop
  | [] => True
  | call :: calls => c.Allows call ∧ (c.step call).AllowsAll calls

/-- The call frees the box with a number. -/
def Frees (c : Client) (call : Call) (id : Nat) : Prop :=
  c.isLive id = true ∧ (c.step call).isLive id = false

instance (c : Client) (call : Call) : Decidable (c.Allows call) :=
  inferInstanceAs (Decidable (_ ∧ _))

instance decidableAllowsAll : (c : Client) → (calls : List Call) → Decidable (c.AllowsAll calls)
  | _, [] => .isTrue trivial
  | c, call :: calls =>
    have : Decidable ((c.step call).AllowsAll calls) := decidableAllowsAll _ calls
    inferInstanceAs (Decidable (_ ∧ _))

instance (c : Client) (call : Call) (id : Nat) : Decidable (c.Frees call id) :=
  inferInstanceAs (Decidable (_ ∧ _))

variable {c : Client} {call : Call} {calls later : List Call} {id : Nat}

@[simp] theorem after_nil (c : Client) : c.after [] = c :=
  rfl

@[simp] theorem after_cons (c : Client) (call : Call) (calls : List Call) :
    c.after (call :: calls) = (c.step call).after calls :=
  rfl

theorem after_append (c : Client) (calls later : List Call) :
    c.after (calls ++ later) = (c.after calls).after later :=
  List.foldl_append

/-- A run is allowed if its parts are, each where it begins. -/
theorem allowsAll_append :
    c.AllowsAll (calls ++ later) ↔ c.AllowsAll calls ∧ (c.after calls).AllowsAll later := by
  induction calls generalizing c with
  | nil => exact (and_iff_right trivial).symm
  | cons call calls ih =>
    rw [List.cons_append, AllowsAll, AllowsAll, after_cons, ih, and_assoc]

/-- Any allowed run of calls leads to a state that can be reached. -/
theorem Reachable.after (hr : Reachable c) (hallow : c.AllowsAll calls) :
    Reachable (c.after calls) := by
  induction calls generalizing c with
  | nil => exact hr
  | cons call calls ih => exact ih (hr.step hallow.1) hallow.2

/-- A client does nothing to its machine but to make the call. -/
theorem machine_step (c : Client) (call : Call) :
    (c.step call).machine = leftBy (call.perform c.machine) := by
  unfold step
  cases call.perform c.machine <;> rfl

/-- A live box has a number that was given out. -/
theorem lt_nextId_of_isLive (hlive : c.isLive id = true) : id < c.machine.heap.nextId := by
  obtain ⟨cell, hcell⟩ := Heap.isLive_iff.mp hlive
  exact Heap.lt_nextId_of_cell? hcell

/-- A run makes no box under an old number, so a box that is live in the end always was. -/
theorem Reachable.succeeds_after (hr : Reachable c) (hallow : c.AllowsAll calls) :
    Succeeds c.machine.heap (c.after calls).machine.heap := by
  induction calls generalizing c with
  | nil => exact ⟨Nat.le_refl _, fun _ _ h => h⟩
  | cons call calls ih =>
    have hfirst := (hr.healthy.step hallow.1).2
    have hrest := ih (hr.step hallow.1) hallow.2
    refine ⟨Nat.le_trans hfirst.nextId_le hrest.nextId_le, fun id hid hlive => ?_⟩
    exact hfirst.live id hid (hrest.live id (Nat.lt_of_lt_of_le hid hfirst.nextId_le) hlive)

/-- A box that is freed stays so. -/
theorem Reachable.stays_freed (hr : Reachable c) (hallow : c.AllowsAll calls)
    (hid : id < c.machine.heap.nextId) (hfreed : c.isLive id = false) :
    (c.after calls).isLive id = false := by
  rw [← Bool.not_eq_true] at hfreed ⊢
  exact fun hlive => hfreed ((hr.succeeds_after hallow).live id hid hlive)

/-- A box that a call frees is not there afterwards, whatever is called then. -/
theorem Reachable.freed_after (hr : Reachable c) (hallow : c.AllowsAll (call :: calls))
    (hfrees : c.Frees call id) : ((c.step call).after calls).isLive id = false := by
  have hid : id < (c.step call).machine.heap.nextId :=
    Nat.lt_of_lt_of_le (lt_nextId_of_isLive hfrees.1) (hr.healthy.step hallow.1).2.nextId_le
  exact (hr.step hallow.1).stays_freed hallow.2 hid hfrees.2

end Client

end BoxRuntime
