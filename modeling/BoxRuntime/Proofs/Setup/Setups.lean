/-
  Setups make no difference to scripts.

  A setup says how much is logged, where to, and how large lists are in the beginning.  Two results
  follow from the likenesses of machines, both for all scripts.

  Under whatever two setups, a script writes the same, takes the same steps and ends in the same
  way, as long as the default size hints are small.  The switches and the logger may be anything,
  and so may the limit of the allocator from four million slots on.

  And a level only leaves records out: under one setup with two levels, of which the second takes
  everything, the log of the first run is that of the second less the light records.
-/
import BoxRuntime.Program.Setup
import BoxRuntime.Proofs.Program.Course
import BoxRuntime.Proofs.Script.Flat
import BoxRuntime.Proofs.Setup.Capacity
import BoxRuntime.Proofs.Setup.Levels

namespace BoxRuntime

namespace ProgramSetup

/-- The same setup with another level. -/
def atLevel (a : ProgramSetup) (level : Level) : ProgramSetup :=
  { a with logger := a.logger.setLevel level }

/-- The host on which a script starts with this setup, if the allocator has this limit. -/
def host (a : ProgramSetup) (limit : Nat) (out : Output) : Host Interpreter :=
  Interpreter.start { a.machine with slotLimit := limit } out a.runtime.list.defaultSizeHint

end ProgramSetup

open Interpreter

namespace Script

/-- Both runs have the same result, or the same failure, and all that a script does is the same. -/
def EndsAlike : EStateM.Result ProgramFailure (Host Interpreter) String →
    EStateM.Result ProgramFailure (Host Interpreter) String → Prop :=
  BothEnd (fun text text' h h' => text' = text ∧ Agree h h') fun e e' h h' => e' = e ∧ Agree h h'

/-- What the script writes to the log, and what the sinks get, without conditions: these records
when the logger takes everything, and at the given level those of them that are grave enough. -/
structure LogsAt (s : Script) (limit : Nat) (out : Output) (a : ProgramSetup) (level : Level)
    (rs : List Record) : Prop where
  whole : ((a.atLevel .trace).host limit out).Wrote True rs
    (leftBy (s.run ((a.atLevel .trace).host limit out)))
  part : ((a.atLevel level).host limit out).Wrote True (rs.filter fun r => r.level.atLeast level)
    (leftBy (s.run ((a.atLevel level).host limit out)))
  /-- Ring buffers hold just that, if the one for everything let no record go. -/
  rings : ∀ position ring, a.logger.ring? position = some ring → ∃ all fewer,
    (leftBy (s.run ((a.atLevel .trace).host limit out))).machine.logger.ring? position = some all ∧
    (leftBy (s.run ((a.atLevel level).host limit out))).machine.logger.ring? position = some fewer ∧
    (all.dropped = ring.dropped →
      all.records.toList = ring.records.toList ++ rs ∧
      fewer.records.toList = ring.records.toList ++ rs.filter (fun r => r.level.atLeast level) ∧
      fewer.dropped = ring.dropped)

variable {s : Script} {limit : Nat} {out : Output} {a b : ProgramSetup}

/-- Whatever the likeness, what a script does is the same. -/
theorem agree_of_akin {L : Likeness} {h h' : Host Interpreter} (ha : L.Akin h h') : Agree h h' :=
  ⟨ha.out, ha.executed, ha.failure⟩

/-- Setups with small size hints start scripts on hosts that differ in what does not show. -/
theorem akin_host (hlimit : 2 ^ 22 ≤ limit) (out : Output)
    (ha : a.runtime.list.defaultSizeHint < 2 ^ 20) (hb : b.runtime.list.defaultSizeHint < 2 ^ 20) :
    Likeness.reservations.Akin (a.host limit out) (b.host limit out) :=
  ⟨⟨Heap.Like.refl _ _, rfl, hlimit⟩, Or.inr ⟨ha, hb⟩, rfl⟩

/-- Such hosts take a script to the same end. -/
theorem endsAlike (hlimit : 2 ^ 22 ≤ limit) (ha : a.runtime.list.defaultSizeHint < 2 ^ 20)
    (hb : b.runtime.list.defaultSizeHint < 2 ^ 20) :
    EndsAlike (s.run (a.host limit out)) (s.run (b.host limit out)) := by
  have hrun := Likeness.keeps_run s _ _ (akin_host hlimit out ha hb)
  unfold EndsAlike
  rcases both_end_iff.mp hrun with
    ⟨text, h, text', h', hok, hok', ⟨rfl, hh⟩⟩ | ⟨e, h, e', h', herror, herror', ⟨rfl, hh⟩⟩
  · rw [hok, hok']
    exact ⟨rfl, agree_of_akin hh⟩
  · rw [herror, herror']
    exact ⟨rfl, agree_of_akin hh⟩

/-- Under one setup with two levels, the same things happen to both loggers. -/
theorem same_events (s : Script) (limit : Nat) (out : Output) (a : ProgramSetup)
    (level level' : Level) :
    ∃ es, (∀ e ∈ es, LogEvent.Steady e) ∧
      (leftBy (s.run ((a.atLevel level).host limit out))).machine.logger =
        (a.logger.setLevel level).after es ∧
      (leftBy (s.run ((a.atLevel level').host limit out))).machine.logger =
        (a.logger.setLevel level').after es := by
  -- At the beginning the machines are the same but for the level.
  have hstart : (Likeness.sameEvents (a.logger.setLevel level) (a.logger.setLevel level')).Akin
      ((a.atLevel level).host limit out) ((a.atLevel level').host limit out) :=
    ⟨⟨rfl, rfl, rfl, [], List.forall_mem_nil _, rfl, rfl⟩, rfl, rfl⟩
  rcases both_end_iff.mp (Likeness.keeps_run s _ _ hstart) with
    ⟨text, h, text', h', hok, hok', ⟨-, hh⟩⟩ | ⟨e, h, e', h', herror, herror', ⟨-, hh⟩⟩
  · rw [hok, hok']
    exact hh.machine.events
  · rw [herror, herror']
    exact hh.machine.events

/-- The records of a level are those of the run that logs everything, less the light ones. -/
theorem logsAt (s : Script) (limit : Nat) (out : Output) (a : ProgramSetup) (level : Level) :
    ∃ rs, LogsAt s limit out a level rs := by
  obtain ⟨es, hsteady, hpart, hfull⟩ := same_events s limit out a level .trace
  -- What is made at a level is what is made at the lowest and passes the level.
  have hfilter : (a.logger.setLevel level).written es =
      ((a.logger.setLevel .trace).written es).filter fun r => r.level.atLeast level :=
    Logger.written_eq_filter ⟨rfl, rfl, rfl⟩ rfl hsteady
  have hwhole : ((a.atLevel .trace).host limit out).Wrote True
      ((a.logger.setLevel .trace).written es) (leftBy (s.run ((a.atLevel .trace).host limit out))) :=
    Host.wrote_after hfull fun _ => hsteady
  have hfewer : ((a.atLevel level).host limit out).Wrote True ((a.logger.setLevel level).written es)
      (leftBy (s.run ((a.atLevel level).host limit out))) :=
    Host.wrote_after hpart fun _ => hsteady
  rw [hfilter] at hfewer
  refine ⟨_, hwhole, hfewer, ?_⟩
  intro position ring hring
  -- Setting the level leaves the rings alone.
  have hstart : ∀ level',
      ((a.atLevel level').host limit out).machine.logger.ring? position = some ring :=
    fun _ => hring
  have hall := (hwhole.got trivial).ring? position
  have hsome := (hfewer.got trivial).ring? position
  rw [hstart] at hall hsome
  refine ⟨_, _, hall, hsome, fun hkept => ?_⟩
  -- A ring that has lost nothing holds everything, so filtering may be done before or after.
  obtain ⟨hpushed, hdropped⟩ :=
    Ring.records_pushAll_filter (fun r => r.level.atLeast level) hkept
  obtain ⟨heach, -⟩ := Ring.records_pushAll_filter (fun _ => true) hkept
  rw [List.filter_true] at heach
  exact ⟨heach, hpushed, hdropped⟩

/-- **Setups make no difference to scripts.**  Under two setups with small default size hints a
script gives the same output in the same number of steps, and ends with the same result or the same
failure, on any allocator that grants what such hints ask for.  And a level makes no difference to
the log but to leave records out. -/
theorem run_setups (s : Script) (limit : Nat) (hlimit : 2 ^ 22 ≤ limit) (out : Output)
    (a b : ProgramSetup) (ha : a.runtime.list.defaultSizeHint < 2 ^ 20)
    (hb : b.runtime.list.defaultSizeHint < 2 ^ 20) :
    EndsAlike (s.run (a.host limit out)) (s.run (b.host limit out)) ∧
      ∀ level, ∃ rs, LogsAt s limit out a level rs := by
  refine ⟨endsAlike hlimit ha hb, ?_⟩
  intro level
  exact logsAt s limit out a level

/-- A script with a list that grows under one setup and not under the other, in silence and with all
switches on, on an allocator that grants no more than it must. -/
theorem run_setups_growing_list :
    ∃ (s : Script) (a b : ProgramSetup), s.steps.length = 7 ∧
      a.runtime.list.defaultSizeHint = 0 ∧ b.runtime.list.defaultSizeHint = 9 ∧
      a.runtime.debug.traceBoxes = false ∧ b.runtime.debug.traceBoxes = true ∧
      EndsAlike (s.run (a.host (2 ^ 22) {})) (s.run (b.host (2 ^ 22) {})) ∧
        ∀ level, ∃ rs, LogsAt s (2 ^ 22) {} a level rs := by
  let appends := (List.range 5).map fun i => Step.listAppend "l" (.int (Int64.ofNat i))
  let s : Script :=
    { init := [{ name := "make", steps := [.listNew "l" none] }]
      steps := appends ++ [.lengthOf none "l", .release "l" false] }
  let a : ProgramSetup := {}
  let b : ProgramSetup :=
    { runtime :=
        { debug := { traceBoxes := true, traceSplits := true }, list := { defaultSizeHint := 9 } }
      logger := { level := .trace, sinks := [.ring (.empty ⟨64, by decide⟩)] }
      ring := some 0 }
  have ha : a.runtime.list.defaultSizeHint < 2 ^ 20 := by
    decide
  have hb : b.runtime.list.defaultSizeHint < 2 ^ 20 := by
    decide
  exact ⟨s, a, b, rfl, rfl, rfl, rfl, rfl, run_setups s (2 ^ 22) (Nat.le_refl _) {} a b ha hb⟩

end Script

end BoxRuntime
