/-
  Scripts run on boxes as they run on objects.

  A run of steps keeps a host and a world together (`match_runSteps`), by induction over the steps:
  each step makes the lists longer by at most one element, so the room that the allocator has for
  all steps is enough for each.  With what is known about blocks (`match_run`), the program that a
  script is run as shows what its steps do to objects, step by step, with the same output and the
  same faults (`run_like_reference`).
-/
import BoxRuntime.Proofs.Reference.Simulation

namespace BoxRuntime

namespace Reference

open Interpreter (Healthy)

/-! ## Runs of steps

  After a failure neither run begins another step; before it each step simulates. -/

/-- **One step** keeps the boxes and the objects together, whether it completes, fails or is passed
over. -/
theorem match_runStep {N n : Nat} (hn : n < N) (s : Step) (hs : isModest s = true) :
    Match (Sim N n []) (Interpreter.runStep s) (runStep s) (fun _ _ => Sim N (n + 1) [])
      fun f g h w => g = f ∧ Tracks N (n + 1) h w := by
  rintro h w ⟨hhealthy, ht⟩
  have hsame : w.failure.isSome = h.own.failure.isSome := by rw [ht.failure]
  unfold Interpreter.runStep runStep
  -- Once a piece of output was refused, both pass over what is left.
  by_cases hfailed : h.own.failure.isSome = true
  · rw [if_pos hfailed, if_pos (hsame.trans hfailed)]
    exact ⟨hhealthy, ht.mono (Nat.le_succ n)⟩
  · have hgo : ¬w.failure.isSome = true := by
      rw [hsame]
      exact hfailed
    rw [if_neg hfailed, if_neg hgo]
    -- The step is begun on both.
    have hbegun : Sim N n [] { h with own.executed := h.own.executed + 1 }
        { w with executed := w.executed + 1 } :=
      ⟨⟨hhealthy.heap, hhealthy.names⟩, ht.room, ht.hint, ht.store, ht.names, ht.out,
        congrArg (· + 1) ht.executed, ht.failure⟩
    rcases both_end_iff.mp (simulates_step hn s hs _ _ hbegun) with
      ⟨a, h', b, w', hrun, hrun', -, hsim⟩ | ⟨e, h', d, w', hrun, hrun', rfl, hleft, ht'⟩
    · rw [hrun, hrun']
      exact hsim
    · rw [hrun, hrun']
      -- A fault ends both; a refused write ends the step alone, and is kept as the failure.
      cases d with
      | fault f => exact ⟨rfl, ht'⟩
      | script e =>
        have hleft : Healthy [] h' := hleft
        exact ⟨⟨hleft.heap, hleft.names⟩, ht'.room, ht'.hint, ht'.store, ht'.names, ht'.out,
          ht'.executed, rfl⟩

/-- A run does to boxes what it does to objects. -/
theorem match_runSteps {N n : Nat} {steps : List Step} (hn : n + steps.length ≤ N)
    (hs : steps.all isModest = true) :
    Match (Sim N n []) (Interpreter.runSteps steps) (runSteps steps)
      (fun _ _ => Sim N (n + steps.length) [])
      fun f g h w => g = f ∧ Tracks N (n + steps.length) h w := by
  -- On the steps: each may make a box, so the bound on numbers grows by one.
  induction steps generalizing n with
  | nil => exact fun _ _ hp => hp
  | cons s rest ih =>
    rw [List.length_cons] at hn ⊢
    rw [List.all_cons, Bool.and_eq_true] at hs
    have hfirst := match_runStep (N := N) (n := n) (by omega) s hs.1
    have hrest := ih (n := n + 1) (by omega) hs.2
    have hlength : n + (rest.length + 1) = n + 1 + rest.length := by omega
    rw [hlength]
    refine Match.bind (hfirst.after (fun _ _ _ _ hp => hp) ?_) fun _ _ => hrest
    rintro f g h w ⟨hg, ht⟩
    exact ⟨hg, ht.mono (Nat.le_add_right _ _)⟩

/-! ## Scripts

  The program runs like the flat list of its steps, and that like the reference. -/

/-- What can be seen of a program is what can be seen of the world. -/
structure Looks (w : World) (h : Host Interpreter) : Prop where
  out : h.own.out = w.out
  executed : h.own.executed = w.executed
  failure : h.own.failure = w.failure

/-- What the host and the world show is the same. -/
theorem Tracks.looks {N n : Nat} {h h' : Host Interpreter} {w : World} (ht : Tracks N n h w)
    (ha : Interpreter.Agree h h') : Looks w h' :=
  ⟨ha.out.trans ht.out.symm, ha.executed.trans ht.executed.symm, ha.failure.trans ht.failure.symm⟩

/-- A script begins with no boxes and no objects. -/
theorem sim_start {machine : Machine} {out : Output} {hint N : Nat}
    (hhint : hint < 2 ^ 20) (hroom : Roomy machine.slotLimit N) :
    Sim N 0 [] (Interpreter.start machine out hint) { out } :=
  ⟨(Interpreter.fresh_start machine out hint).healthy, hroom, hhint, represents_empty 0, rfl, rfl,
    rfl, rfl⟩

/-- **A script cannot tell boxes from objects.**  If its releases are shallow and its lists are made
with modest sizes, then run as a program it prints, counts and fails as on objects that have no
chunks, no reservations and no counts of handles, and that are never freed.  The one thing asked of
the allocator is room. -/
theorem run_like_reference (s : Script) (machine : Machine) (out : Output) (hint : Nat)
    (hmodest : s.allSteps.all isModest = true) (hhint : hint < 2 ^ 20)
    (hroom : Roomy machine.slotLimit s.allSteps.length) :
    BothEnd (fun _ _ => Looks) (fun e d w h => d = e ∧ Looks w h)
      (run s { out }) (s.run (Interpreter.start machine out hint)) := by
  have hfresh := Interpreter.fresh_start machine out hint
  have hflat := Interpreter.match_run s _ _ ⟨hfresh, Interpreter.Alike.refl _⟩
  have hsim : Sim s.allSteps.length 0 [] (Interpreter.start machine out hint) { out } :=
    sim_start hhint hroom
  have hbound : 0 + s.allSteps.length ≤ s.allSteps.length := by omega
  unfold run
  -- two comparisons meet in the plain run: the program with it, and it with the run on objects
  rcases both_end_iff.mp (match_runSteps hbound hmodest _ _ hsim) with
    ⟨a, h, b, w, hrun, hrun', -, ht⟩ | ⟨f, h, g, w, hrun, hrun', rfl, ht⟩
  · rw [hrun] at hflat
    rw [hrun']
    rcases both_end_iff.mp hflat with
      ⟨a', h', text, q, heq, hq, hagree⟩ | ⟨f, h', e, q, heq, -, -⟩
    · obtain ⟨-, rfl⟩ := EStateM.Result.ok.inj heq
      rw [hq]
      exact ht.looks hagree
    · cases heq
  · rw [hrun] at hflat
    rw [hrun']
    rcases both_end_iff.mp hflat with
      ⟨a', h', text, q, heq, -, -⟩ | ⟨f, h', e, q, heq, hq, rfl, hagree⟩
    · cases heq
    · obtain ⟨rfl, rfl⟩ := EStateM.Result.error.inj heq
      rw [hq]
      refine ⟨?_, ht.looks hagree⟩
      rw [ht.executed]

/-- A script with a list that holds itself and a set that holds it, under several names; the map
keeps the later of two values, a name is released, and at the end an int is put among lists.  It is
irreducible lest elaboration runs it. -/
@[irreducible]
def entangled : Script where
  init := [{
    name := "shared"
    steps := [.listNew "list" none, .setNew "set" none, .box "alias" (.var "list"),
      .setAdd "set" (.var "list"), .listAppend "alias" (.var "set"),
      .listAppend "list" (.var "list")] }]
  steps := [.mapNew "map" none, .mapAdd "map" (.text "key") (.int 1),
    .mapAdd "map" (.text "key") (.var "list"), .release "list" false,
    .lengthOf none "alias", .indexOf (some "found") "map" (.text "key"),
    .indexOf none "found" (.int 1), .setAdd "set" (.int 1)]

/-- A script with containers in each other, run on an allocator with just enough room. -/
theorem run_like_reference_entangled :
    entangled.allSteps.all isModest = true ∧ 0 < 2 ^ 20 ∧
      Roomy ({} : Machine).slotLimit entangled.allSteps.length ∧
      BothEnd (fun _ _ => Looks) (fun e d w h => d = e ∧ Looks w h)
        (run entangled {}) (entangled.run (Interpreter.start {} {} 0)) := by
  have hmodest : entangled.allSteps.all isModest = true := by decide +kernel
  have hhint : 0 < 2 ^ 20 := by decide
  have hroom : Roomy ({} : Machine).slotLimit entangled.allSteps.length :=
    Nat.le_min.mpr ⟨by decide +kernel, by decide +kernel⟩
  exact ⟨hmodest, hhint, hroom, run_like_reference entangled {} {} 0 hmodest hhint hroom⟩

end Reference

end BoxRuntime
