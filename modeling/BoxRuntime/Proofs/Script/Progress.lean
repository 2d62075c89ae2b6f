/-
  How far a script gets.

  Step by step, a run begins a step, counts it and carries it out.  `Completes` says that all the
  steps of a list do what they should, `FailsAt n` that the ones before the `n`-th do and that one
  fails.  One of the two is always the case (`completes_or_fails`), and what `runSteps` does follows
  from which it is: it completes, or ends with the fault of that step, or notes how the script
  failed at that step and passes over the rest.

  The crux is that a step leaves the interpreter's own counters alone (`steady_step`).  So the
  number of steps begun is the position of the present step, and the position that an unbound name
  is reported with is the number of the step that used it.
-/
import BoxRuntime.Proofs.Script.Parts

namespace BoxRuntime

namespace Interpreter

/-! ## Counters

  No part of a step touches how many steps were begun, so a failure can be blamed on the present
  one. -/

/-- So many steps were begun, and the script has not failed. -/
structure Counted (n : Nat) (h : Host Interpreter) : Prop where
  executed : h.own.executed = n
  failure : h.own.failure = none

/-- A step that does not complete leaves the counters alone as well, and an unbound name is
reported with the position of the step. -/
structure Blamed (n : Nat) (e : StepFailure) (h : Host Interpreter) : Prop where
  counted : Counted n h
  position : ∀ m name, e = .script (.unbound m name) → m = n

/-- An action that leaves the counters alone. -/
def Steady {α : Type} (n : Nat) (x : StepAct α) : Prop :=
  Triple (Counted n) x (fun _ => Counted n) (Blamed n)

variable {α : Type} {n : Nat}

/-- Operations know nothing of the interpreter. -/
theorem steady_on (op : Op α) : Steady n (on op) := by
  intro h hh
  cases hop : op h.machine with
  | ok a m =>
    rw [run_on hop]
    exact ⟨hh.executed, hh.failure⟩
  | error f m =>
    rw [run_on_error hop]
    refine ⟨⟨hh.executed, hh.failure⟩, ?_⟩
    intro m name he
    cases he

/-- The number in a fault of a name is that of the step. -/
theorem steady_lookup (name : String) : Steady n (lookup name) := by
  intro h hh
  cases hv : h.own.names.get? name with
  | some v =>
    rw [run_lookup hv]
    exact hh
  | none =>
    rw [run_lookup_none hv]
    refine ⟨hh, ?_⟩
    intro m name' he
    obtain ⟨hm, -⟩ := ScriptFailure.unbound.inj (StepFailure.script.inj he)
    rw [← hm]
    exact hh.executed

theorem steady_take (name : String) : Steady n (take name) := by
  have herase : Steady n (modify fun h : Host Interpreter =>
      { h with own.names := h.own.names.erase name }) := fun _ hh => ⟨hh.executed, hh.failure⟩
  have hpure : ∀ v : Handle, Steady n (pure v : StepAct Handle) := fun _ _ hh => hh
  exact Triple.bind (steady_lookup name) fun v => Triple.bind herase fun _ => hpure v

/-- Giving a box to a name leaves the counters alone. -/
theorem steady_bindName (name : String) (v : Handle) : Steady n (bind name v) := by
  intro h hh
  rw [run_bindName]
  exact ⟨hh.executed, hh.failure⟩

/-- Giving up a handle is steady, also after a failure. -/
theorem steady_consuming {v : Handle} {work : StepAct α} (hwork : Steady n work) :
    Steady n (consuming v work) := by
  intro h hh
  have hend := hwork h hh
  cases hrun : work h with
  | ok a h' =>
    rw [hrun] at hend
    rw [run_consuming hrun]
    exact ⟨hend.executed, hend.failure⟩
  | error e h' =>
    rw [hrun] at hend
    rw [run_consuming_error hrun]
    exact ⟨⟨hend.counted.executed, hend.counted.failure⟩, hend.position⟩

/-- A write that is refused does not count the step again. -/
theorem steady_write (s : String) : Steady n (write s) := by
  intro h hh
  cases hs : (h.own.out.write s).1 with
  | none =>
    rw [run_write hs]
    exact ⟨hh.executed, hh.failure⟩
  | some reason =>
    rw [run_write_refused hs]
    refine ⟨⟨hh.executed, hh.failure⟩, ?_⟩
    intro m name he
    cases he

/-- All parts of steps leave the counters alone. -/
theorem passesOn_steady (n : Nat) : PassesOn fun _ x => Steady n x where
  pure _ _ hh := hh
  bind := Triple.bind
  consuming _ _ := steady_consuming
  on := steady_on
  defaultHint _ hh := hh
  lookup := steady_lookup
  write := steady_write
  remark _ _ _ hh := ⟨hh.executed, hh.failure⟩
  take := steady_take
  bindName := steady_bindName

theorem steady_step (s : Step) : Steady n (step s) :=
  (passesOn_steady n).step s

/-! ## Steps that complete, and one that does not

  What can become of a list of steps, apart from what `runSteps` does about it. -/

/-- The host when one more step was begun. -/
def begun (h : Host Interpreter) : Host Interpreter :=
  { h with own.executed := h.own.executed + 1 }

/-- A step that is begun is counted. -/
theorem Counted.begun {h : Host Interpreter} (hh : Counted n h) : Counted (n + 1) (begun h) :=
  ⟨congrArg (· + 1) hh.executed, hh.failure⟩

/-- Every step completes, and the last leaves the second host. -/
inductive Completes : List Step → Host Interpreter → Host Interpreter → Prop where
  | nil (h : Host Interpreter) : Completes [] h h
  | cons {s : Step} {rest : List Step} {h mid h' : Host Interpreter} :
      step s (begun h) = .ok () mid → Completes rest mid h' → Completes (s :: rest) h h'

/-- The steps before the `n`-th complete, and that step fails, leaving the second host. -/
def FailsAt (steps : List Step) (h : Host Interpreter) (n : Nat) (e : StepFailure)
    (h' : Host Interpreter) : Prop :=
  ∃ before s after mid, steps = before ++ s :: after ∧ before.length + 1 = n ∧
    Completes before h mid ∧ step s (begun mid) = .error e h'

/-- **All steps complete, or there is a first one that fails.**. -/
theorem completes_or_fails (steps : List Step) (h : Host Interpreter) :
    (∃ h', Completes steps h h') ∨ ∃ n e h', FailsAt steps h n e h' := by
  -- the first step fails, or the rest decides, with positions one higher
  induction steps generalizing h with
  | nil => exact Or.inl ⟨h, .nil h⟩
  | cons s rest ih =>
    cases hstep : step s (begun h) with
    | error e h' => exact Or.inr ⟨1, e, h', [], s, rest, h, rfl, rfl, .nil h, hstep⟩
    | ok a mid =>
      rcases ih mid with ⟨h', hall⟩ | ⟨n, e, h', before, s', after, last, rfl, rfl, hall, hlast⟩
      · exact Or.inl ⟨h', .cons hstep hall⟩
      · refine Or.inr ⟨_, e, h', s :: before, s', after, last, rfl, rfl, ?_, hlast⟩
        exact .cons hstep hall

/-! ## Runs

  What `runSteps` does about it. -/

theorem not_failed {h : Host Interpreter} (hh : h.own.failure = none) :
    ¬h.own.failure.isSome = true := by
  rw [hh]
  exact Bool.false_ne_true

/-- A step that completes leaves what it leaves. -/
theorem runStep_ok {s : Step} {h h' : Host Interpreter} (hh : h.own.failure = none)
    (hstep : step s (begun h) = .ok () h') : runStep s h = .ok () h' := by
  unfold begun at hstep
  unfold runStep
  rw [if_neg (not_failed hh), hstep]

theorem runStep_fault {s : Step} {f : Fault} {h h' : Host Interpreter}
    (hh : h.own.failure = none) (hstep : step s (begun h) = .error (.fault f) h') :
    runStep s h = .error f h' := by
  unfold begun at hstep
  unfold runStep
  rw [if_neg (not_failed hh), hstep]

/-- A failure of the script is noted, and the run goes on. -/
theorem runStep_script {s : Step} {e : ScriptFailure} {h h' : Host Interpreter}
    (hh : h.own.failure = none) (hstep : step s (begun h) = .error (.script e) h') :
    runStep s h = .ok () { h' with own.failure := some e } := by
  unfold begun at hstep
  unfold runStep
  rw [if_neg (not_failed hh), hstep]

/-- Steps in two lists are run one list after the other. -/
theorem runSteps_append (a b : List Step) :
    runSteps (a ++ b) = runSteps a >>= fun _ => runSteps b := by
  induction a with
  | nil => rfl
  | cons s rest ih =>
    have hcons : runSteps (s :: rest) = runStep s >>= fun _ => runSteps rest := rfl
    show (runStep s >>= fun _ => runSteps (rest ++ b)) = _
    rw [ih, hcons, bind_assoc]

/-- A script that has failed passes over all its steps. -/
theorem runSteps_failed {h : Host Interpreter} (hh : h.own.failure.isSome = true)
    (steps : List Step) : runSteps steps h = .ok () h := by
  induction steps with
  | nil => rfl
  | cons s rest ih =>
    have hskip : runStep s h = .ok () h := if_pos hh
    exact (run_bind hskip _).trans ih

/-- Steps that complete are all begun and counted. -/
theorem Completes.run {steps : List Step} {h h' : Host Interpreter} (hall : Completes steps h h')
    {n : Nat} (hh : Counted n h) :
    runSteps steps h = .ok () h' ∧ Counted (n + steps.length) h' := by
  induction hall generalizing n with
  | nil h => exact ⟨rfl, hh⟩
  | @cons s rest h mid h' hstep _ ih =>
    -- that the step left no failure behind is what lets the next one begin
    have hend := steady_step s (begun h) hh.begun
    rw [hstep] at hend
    obtain ⟨hrun, hcounted⟩ := ih hend
    refine ⟨(run_bind (runStep_ok hh.failure hstep) _).trans hrun, ?_⟩
    rw [List.length_cons, Nat.add_comm rest.length, ← Nat.add_assoc]
    exact hcounted

variable {steps : List Step} {h h' : Host Interpreter} {k : Nat}

/-- What is known of the step that fails. -/
theorem FailsAt.blamed {e : StepFailure} (hf : FailsAt steps h k e h') (hh : Counted n h) :
    Blamed (n + k) e h' ∧ 0 < k ∧ k ≤ steps.length := by
  obtain ⟨before, s, after, mid, rfl, rfl, hall, hstep⟩ := hf
  obtain ⟨-, hcounted⟩ := hall.run hh
  have hend := steady_step s (begun mid) hcounted.begun
  rw [hstep] at hend
  refine ⟨hend, Nat.succ_pos _, ?_⟩
  rw [List.length_append, List.length_cons]
  omega

/-- A fault ends the run. -/
theorem FailsAt.run_fault {f : Fault} (hf : FailsAt steps h k (.fault f) h')
    (hh : Counted n h) : runSteps steps h = .error f h' := by
  obtain ⟨before, s, after, mid, rfl, -, hall, hstep⟩ := hf
  obtain ⟨hrun, hcounted⟩ := hall.run hh
  rw [runSteps_append]
  refine (run_bind hrun _).trans ?_
  exact run_bind_error (runStep_fault hcounted.failure hstep) _

/-- A failure of the script is noted, and what follows is passed over. -/
theorem FailsAt.run_script {e : ScriptFailure} (hf : FailsAt steps h k (.script e) h')
    (hh : Counted n h) : runSteps steps h = .ok () { h' with own.failure := some e } := by
  obtain ⟨before, s, after, mid, rfl, -, hall, hstep⟩ := hf
  obtain ⟨hrun, hcounted⟩ := hall.run hh
  rw [runSteps_append]
  refine (run_bind hrun _).trans ?_
  refine (run_bind (runStep_script hcounted.failure hstep) _).trans ?_
  exact runSteps_failed rfl after

/-! ## Positions

  How many steps were begun, whatever became of them. -/

/-- Unless the script has failed, so many steps were begun. -/
def Reached (n : Nat) (h : Host Interpreter) : Prop :=
  h.own.failure = none → h.own.executed = n

/-- A run that completes has begun all its steps, or the script has failed.  The position of a
fault is that of one of the steps. -/
theorem reached_runSteps (n : Nat) (steps : List Step) :
    Triple (Reached n) (runSteps steps) (fun _ => Reached (n + steps.length))
      fun _ h => n < h.own.executed ∧ h.own.executed ≤ n + steps.length := by
  intro h hh
  cases hfailure : h.own.failure with
  | some e =>
    -- a script that failed before has no position to keep
    have hfailed : h.own.failure.isSome = true := by rw [hfailure]; rfl
    rw [runSteps_failed hfailed]
    intro hnone
    rw [hfailure] at hnone
    cases hnone
  | none =>
    have hcounted : Counted n h := ⟨hh hfailure, hfailure⟩
    rcases completes_or_fails steps h with ⟨h', hall⟩ | ⟨k, e, h', hf⟩
    · obtain ⟨hrun, hend⟩ := hall.run hcounted
      rw [hrun]
      exact fun _ => hend.executed
    · obtain ⟨hblamed, hpos, hle⟩ := hf.blamed hcounted
      cases e with
      | script e =>
        rw [hf.run_script hcounted]
        intro hnone
        cases hnone
      | fault f =>
        have hposition := hblamed.counted.executed
        rw [hf.run_fault hcounted]
        show n < h'.own.executed ∧ h'.own.executed ≤ n + steps.length
        omega

end Interpreter

end BoxRuntime
