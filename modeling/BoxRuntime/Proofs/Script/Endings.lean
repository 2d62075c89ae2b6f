/-
  How scripts end.

  There are three ways.  All steps complete; or one fails because of the script itself, and then
  the program completes nevertheless, without the later steps; or one meets a fault, and then the
  program fails with it.  `Completes` and `FailsAt` tell them apart by the plain run of all steps
  (`allSteps`), and the result of the program, all that can be seen of it afterwards and the exit
  code of the command follow from them (`run_like_flat`).
-/
import BoxRuntime.Cli.Run
import BoxRuntime.Proofs.Script.Flat

namespace BoxRuntime

namespace Interpreter

/-- What can be seen at the end of a run. -/
structure Shows (out : Output) (executed : Nat) (failure : Option ScriptFailure)
    (h : Host Interpreter) : Prop where
  out : h.own.out = out
  executed : h.own.executed = executed
  failure : h.own.failure = failure

/-- What one host shows the other does. -/
theorem Agree.shows {h h' : Host Interpreter} (ha : Agree h h') {n : Nat}
    {failure : Option ScriptFailure} (hn : h.own.executed = n) (hf : h.own.failure = failure) :
    Shows h.own.out n failure h' :=
  ⟨ha.out, ha.executed.trans hn, ha.failure.trans hf⟩

theorem Fresh.counted {h : Host Interpreter} (hh : Fresh h) : Counted 0 h :=
  ⟨hh.executed, hh.failure⟩

section

variable {s : Script} {h h' p : Host Interpreter}

/-! ## Endings of programs

  From how the flat run ended to how the program did. -/

/-- **A script all of whose steps complete** ends with a result, wherever its blocks begin and end.
-/
theorem run_of_completes (hh : Fresh h) (hp : Alike id h p) (hall : Completes s.allSteps h h') :
    ∃ text q, s.run p = .ok text q ∧ Shows h'.own.out s.allSteps.length none q := by
  obtain ⟨hrun, hcounted⟩ := hall.run hh.counted
  rcases both_end_iff.mp (match_run s h p ⟨hh, hp⟩) with
    ⟨a, t, text, q, hflat, hq, hagree⟩ | ⟨f, t, e, q, hflat, -, -⟩
  · rw [hrun] at hflat
    obtain ⟨-, rfl⟩ := EStateM.Result.ok.inj hflat
    have hlength : h'.own.executed = s.allSteps.length := by
      rw [hcounted.executed, Nat.zero_add]
    exact ⟨text, q, hq, hagree.shows hlength hcounted.failure⟩
  · rw [hrun] at hflat
    cases hflat

/-- **A script that fails by itself** ends with a result as well; the steps that come later in its
list, in whichever block, are passed over. -/
theorem run_of_script_failure (hh : Fresh h) (hp : Alike id h p) {n : Nat} {e : ScriptFailure}
    (hf : FailsAt s.allSteps h n (.script e) h') :
    ∃ text q, s.run p = .ok text q ∧ Shows h'.own.out n (some e) q := by
  -- The flat run succeeds, with the failure kept on the host, so the program does.
  have hrun := hf.run_script hh.counted
  have hexecuted := (hf.blamed hh.counted).1.counted.executed
  rcases both_end_iff.mp (match_run s h p ⟨hh, hp⟩) with
    ⟨a, t, text, q, hflat, hq, hagree⟩ | ⟨f, t, e, q, hflat, -, -⟩
  · rw [hrun] at hflat
    obtain ⟨-, rfl⟩ := EStateM.Result.ok.inj hflat
    refine ⟨text, q, hq, hagree.shows ?_ rfl⟩
    rw [← Nat.zero_add n]
    exact hexecuted
  · rw [hrun] at hflat
    cases hflat

/-- **A fault** ends the program, wrapped by the block of its step. -/
theorem run_of_fault (hh : Fresh h) (hp : Alike id h p) {n : Nat} {f : Fault}
    (hf : FailsAt s.allSteps h n (.fault f) h') :
    ∃ q, s.run p = .error (s.failureAt n f) q ∧ Shows h'.own.out n none q := by
  -- The flat run fails, so the program does, in whichever part the step stands.
  have hrun := hf.run_fault hh.counted
  have hcounted := (hf.blamed hh.counted).1.counted
  rw [Nat.zero_add] at hcounted
  rcases both_end_iff.mp (match_run s h p ⟨hh, hp⟩) with
    ⟨a, t, text, q, hflat, -, -⟩ | ⟨f', t, e, q, hflat, hq, rfl, hagree⟩
  · rw [hrun] at hflat
    cases hflat
  · rw [hrun] at hflat
    obtain ⟨rfl, rfl⟩ := EStateM.Result.error.inj hflat
    rw [hcounted.executed] at hq
    exact ⟨q, hq, hagree.shows hcounted.executed hcounted.failure⟩

end

end Interpreter

/-! ## The command

  From how the program ended to what the command shows and exits with. -/

namespace Cli

open Interpreter

/-- The host on which the command starts a script. -/
def host (o : Options) (size : RingSize) (s : Script) (out : Output) : Host Interpreter :=
  let setup := o.setup size
  let setup := { setup with logger := setup.logger.remark .info (loadedText o s) }
  { machine := setup.machine, own := { out, defaultSizeHint := setup.runtime.list.defaultSizeHint } }

/-- The host on which a script starts by default. -/
def plainHost (out : Output) : Host Interpreter :=
  start {} out ({} : RuntimeConfig).list.defaultSizeHint

/-- The options of the command change logging and nothing else. -/
theorem host_alike (o : Options) (size : RingSize) (s : Script) (out : Output) :
    Alike id (plainHost out) (host o size s out) :=
  ⟨.refl _, rfl, rfl⟩

variable {o : Options} {size : RingSize} {s : Script} {out : Output} {q : Host Interpreter}

/-- The command exits with zero after a script that completes. -/
theorem runScript_completed {text : String} (hrun : s.run (host o size s out) = .ok text q)
    (hf : q.own.failure = none) :
    (runScript o size s out).exitCode = 0 ∧ (runScript o size s out).stdout = q.own.out.text := by
  unfold host at hrun
  unfold runScript
  dsimp only at hrun ⊢
  rw [hrun]
  dsimp only
  rw [hf]
  exact ⟨rfl, rfl⟩

/-- It exits with one after a script that fails by itself. -/
theorem runScript_failed {text : String} (hrun : s.run (host o size s out) = .ok text q)
    {e : ScriptFailure} (hf : q.own.failure = some e) :
    (runScript o size s out).exitCode = 1 ∧ (runScript o size s out).stdout = q.own.out.text := by
  unfold host at hrun
  unfold runScript
  dsimp only at hrun ⊢
  rw [hrun]
  dsimp only
  rw [hf]
  exact ⟨rfl, rfl⟩

/-- It exits with the code of the fault, as a byte. -/
theorem runScript_faulted {e : ProgramFailure} (hrun : s.run (host o size s out) = .error e q) :
    (runScript o size s out).exitCode = exitByte e.exitCode ∧
      (runScript o size s out).stdout = q.own.out.text := by
  unfold host at hrun
  unfold runScript
  dsimp only at hrun ⊢
  rw [hrun]
  exact ⟨rfl, rfl⟩

end Cli

/-! ## Scripts and their flat lists of steps

  Both put together, with what the flat run does as the only premise. -/

section

open Interpreter

/-- From a host, the program does what the plain run of all its steps does. -/
structure Script.LikeFlat (s : Script) (h : Host Interpreter) : Prop where
  /-- Both end in the same way.  A fault is wrapped by the block of its step, if it has one. -/
  same : BothEnd (fun _ _ => Agree)
    (fun f e flat final => e = s.failureAt flat.own.executed f ∧ Agree flat final)
    (runSteps s.allSteps h) (s.run h)
  /-- One of the three cases below is the case. -/
  cases_of : (∃ h', Completes s.allSteps h h') ∨ ∃ n e h', FailsAt s.allSteps h n e h'
  completes : ∀ h', Completes s.allSteps h h' →
    Ends (fun _ => Shows h'.own.out s.allSteps.length none) (fun _ _ => False) (s.run h)
  /-- No step after one with a failure of the script is begun, and nothing more is written. -/
  failure : ∀ n e h', FailsAt s.allSteps h n (.script e) h' →
    Ends (fun _ => Shows h'.own.out n (some e)) (fun _ _ => False) (s.run h) ∧
      ∀ m name, e = .unbound m name → m = n
  fault : ∀ n f h', FailsAt s.allSteps h n (.fault f) h' →
    Ends (fun _ _ => False) (fun e final => e = s.failureAt n f ∧ Shows h'.own.out n none final)
      (s.run h)
  in_block : ∀ before b after n f, s.init = before ++ b :: after →
    (before.flatMap InitBlock.steps).length < n →
    n ≤ (before.flatMap InitBlock.steps).length + b.steps.length →
    s.failureAt n f = .init b.name f
  in_main : ∀ n f, (s.init.flatMap InitBlock.steps).length < n → s.failureAt n f = .main f

/-- The command's exit code tells how the plain run of all steps ends, and it prints what that
prints. -/
structure Cli.ExitsLikeFlat (o : Cli.Options) (size : RingSize) (s : Script) (out : Output) :
    Prop where
  cases_of : (∃ h', Completes s.allSteps (Cli.plainHost out) h') ∨
    ∃ n e h', FailsAt s.allSteps (Cli.plainHost out) n e h'
  completes : ∀ h', Completes s.allSteps (Cli.plainHost out) h' →
    (Cli.runScript o size s out).exitCode = 0 ∧ (Cli.runScript o size s out).stdout = h'.own.out.text
  failure : ∀ n e h', FailsAt s.allSteps (Cli.plainHost out) n (.script e) h' →
    (Cli.runScript o size s out).exitCode = 1 ∧ (Cli.runScript o size s out).stdout = h'.own.out.text
  fault : ∀ n f h', FailsAt s.allSteps (Cli.plainHost out) n (.fault f) h' →
    (Cli.runScript o size s out).exitCode = (if f.kind = .resourceExhausted then 252 else 253) ∧
      (Cli.runScript o size s out).stdout = h'.own.out.text

theorem Cli.exitByte_exitCode (f : Fault) :
    Cli.exitByte f.exitCode = if f.kind = .resourceExhausted then 252 else 253 := by
  unfold Fault.exitCode
  cases f.kind <;> decide

/-- Whatever the options, the command exits as the plain run of all steps tells. -/
theorem Cli.exitsLikeFlat (o : Cli.Options) (size : RingSize) (s : Script) (out : Output) :
    Cli.ExitsLikeFlat o size s out := by
  have hfresh : Fresh (Cli.plainHost out) := fresh_start _ _ _
  have halike := Cli.host_alike o size s out
  refine ⟨completes_or_fails _ _, ?_, ?_, ?_⟩
  · intro h' hall
    obtain ⟨text, q, hrun, hq⟩ := run_of_completes hfresh halike hall
    rw [← hq.out]
    exact Cli.runScript_completed hrun hq.failure
  · intro n e h' hf
    obtain ⟨text, q, hrun, hq⟩ := run_of_script_failure hfresh halike hf
    rw [← hq.out]
    exact Cli.runScript_failed hrun hq.failure
  · intro n f h' hf
    obtain ⟨q, hrun, hq⟩ := run_of_fault hfresh halike hf
    -- wrapping a fault does not change its exit code
    have hfault : (s.failureAt n f).exitCode = f.exitCode :=
      congrArg Fault.exitCode (Script.fault_failureIn f s.init n)
    rw [← hq.out, ← Cli.exitByte_exitCode, ← hfault]
    exact Cli.runScript_faulted hrun

/-- A script behaves as one interpreter that runs the steps of all its blocks and then its own.

Both end in the same way with the same to see: output, number of steps begun, failure of the script.
After a failure of the script no step is begun, and the program completes nevertheless; a fault ends
the program, and the program's failure names the block of the step that met it.  The exit code of
the command is zero, one, or that of the fault, accordingly. -/
theorem Script.run_like_flat (s : Script) (machine : Machine) (out : Output) (hint : Nat)
    (o : Cli.Options) (size : RingSize) :
    s.LikeFlat (start machine out hint) ∧ Cli.ExitsLikeFlat o size s out := by
  have hfresh := fresh_start machine out hint
  have halike := Alike.refl (start machine out hint)
  refine ⟨⟨?_, ?_, ?_, ?_, ?_, ?_, ?_⟩, Cli.exitsLikeFlat o size s out⟩
  · exact match_run s _ _ ⟨hfresh, halike⟩
  · exact completes_or_fails _ _
  · intro h' hall
    obtain ⟨text, q, hrun, hq⟩ := run_of_completes hfresh halike hall
    rw [hrun]
    exact hq
  · intro n e h' hf
    obtain ⟨text, q, hrun, hq⟩ := run_of_script_failure hfresh halike hf
    have hposition := (hf.blamed hfresh.counted).1.position
    rw [Nat.zero_add] at hposition
    rw [hrun]
    exact ⟨hq, fun m name he => hposition m name (congrArg StepFailure.script he)⟩
  · intro n f h' hf
    obtain ⟨q, hrun, hq⟩ := run_of_fault hfresh halike hf
    rw [hrun]
    exact ⟨rfl, hq⟩
  -- positions in a block, and after all blocks
  · intro before b after n f hinit hlt hle
    rw [failureAt, hinit]
    exact failureIn_block f hlt hle
  · exact fun n f hlt => failureIn_main f hlt

/-- A block that asks for the length of a number, and a main part that would print: the program
fails in the block, and the command exits with the code of a usage fault. -/
theorem Script.run_like_flat_fault_in_block :
    let s : Script :=
      { init := [{ name := "make", steps := [.box "x" (.int 1), .lengthOf none "x"] }]
        steps := [.print (.int 2)] }
    let f : Fault := .unsupported "length_of" .int
    ∃ h' q, FailsAt s.allSteps (start {} {} 0) 2 (.fault f) h' ∧
      s.run (start {} {} 0) = .error (.init "make" f) q ∧ q.own.out.text = "" ∧
        (Cli.runScript { script := "make.json" } ⟨0, by decide⟩ s).exitCode = 253 := by
  intro s f
  obtain ⟨hscript, hcommand⟩ := run_like_flat s {} {} 0 { script := "make.json" } ⟨0, by decide⟩
  -- The fault comes at the second step, of which the block has two.
  obtain ⟨h', hfails, hsilent⟩ : ∃ h', FailsAt s.allSteps (start {} {} 0) 2 (.fault f) h' ∧
      h'.own.out.text = "" :=
    ⟨_, ⟨[.box "x" (.int 1)], .lengthOf none "x", [.print (.int 2)], _, rfl, rfl,
      .cons rfl (.nil _), rfl⟩, rfl⟩
  have hends := hscript.fault 2 f h' hfails
  cases hrun : s.run (start {} {} 0) with
  | ok text q =>
    rw [hrun] at hends
    exact hends.elim
  | error e q =>
    rw [hrun] at hends
    obtain ⟨hfailure, hshows⟩ := hends
    have hwhere := hscript.in_block [] ⟨"make", _⟩ [] 2 f rfl (by decide) (by decide)
    refine ⟨h', q, hfails, ?_, ?_, (hcommand.fault 2 f h' hfails).1⟩
    · rw [hfailure, hwhere]
    · rw [hshows.out, hsilent]

end

end BoxRuntime
