/-
  Blocks make no difference.

  A script runs as a program: its blocks are initializers, and between the last of them and the
  main steps a box is made for the system object.  This module compares that with a plain run of
  all the steps, block after block, on one interpreter (`allSteps`).

  While the blocks run, the two hosts differ in their logs only.  From the system object on they
  differ in box numbers as well: every box of the program has a number one higher than the same box
  of the plain run.  A script cannot tell the numbers, as they are in the same order, so the two
  runs go on alike (`match_run`).

  The crux is the point where the numbers part.  The boxes made so far keep theirs, and for that no
  handle may have a number that is still to come: the ledger says so, as every handle is of a live
  box.
-/
import BoxRuntime.Proofs.Renumber.Script
import BoxRuntime.Proofs.Script.Ledger
import BoxRuntime.Proofs.Script.Progress

namespace BoxRuntime

/-! ## All steps of a script

  The blocks one after another and then the main steps, and which part of the script a step with a
  given number belongs to. -/

namespace Script

/-- All steps of a script, in the order they run: those of the blocks, then its own. -/
def allSteps (s : Script) : List Step :=
  s.init.flatMap InitBlock.steps ++ s.steps

/-- The failure of a program with these blocks, for a fault of the step at a position.  Positions
count from one, over all steps. -/
def failureIn (f : Fault) : List InitBlock → Nat → ProgramFailure
  | [], _ => .main f
  | b :: rest, n =>
    if n ≤ b.steps.length then .init b.name f else failureIn f rest (n - b.steps.length)

/-- The failure of a script for a fault of the step at a position. -/
def failureAt (s : Script) (n : Nat) (f : Fault) : ProgramFailure :=
  failureIn f s.init n

/-- However it is wrapped, the fault is the same. -/
theorem fault_failureIn (f : Fault) (blocks : List InitBlock) (n : Nat) :
    (failureIn f blocks n).fault = f := by
  induction blocks generalizing n with
  | nil => rfl
  | cons b rest ih =>
    rw [failureIn]
    split
    · rfl
    · exact ih _

/-- A fault after all blocks is one of the main steps. -/
theorem failureIn_main (f : Fault) {blocks : List InitBlock} {n : Nat}
    (hn : (blocks.flatMap InitBlock.steps).length < n) : failureIn f blocks n = .main f := by
  induction blocks generalizing n with
  | nil => rfl
  | cons b rest ih =>
    rw [List.flatMap_cons, List.length_append] at hn
    have hlate : ¬n ≤ b.steps.length := by omega
    rw [failureIn, if_neg hlate]
    exact ih (by omega)

/-- A fault in a block is one of that block's initializer. -/
theorem failureIn_block (f : Fault) {before after : List InitBlock} {b : InitBlock} {n : Nat}
    (hlt : (before.flatMap InitBlock.steps).length < n)
    (hle : n ≤ (before.flatMap InitBlock.steps).length + b.steps.length) :
    failureIn f (before ++ b :: after) n = .init b.name f := by
  induction before generalizing n with
  | nil =>
    rw [List.flatMap_nil, List.length_nil, Nat.zero_add] at hle
    exact if_pos hle
  | cons c rest ih =>
    rw [List.flatMap_cons, List.length_append] at hlt hle
    have hlate : ¬n ≤ c.steps.length := by omega
    rw [List.cons_append, failureIn, if_neg hlate]
    exact ih (by omega) (by omega)

end Script

namespace Interpreter

/-! ## Hosts that agree

  What can be seen of a script from outside. While the blocks run the boxes have the same numbers
  as well. -/

/-- What can be seen of a run is the same. -/
structure Agree (h h' : Host Interpreter) : Prop where
  out : h'.own.out = h.own.out
  executed : h'.own.executed = h.own.executed
  failure : h'.own.failure = h.own.failure

/-- Hosts that differ in the numbers of boxes show the same. -/
theorem Alike.agree {ρ : Nat → Nat} {h h' : Host Interpreter} (ha : Alike ρ h h') : Agree h h' := by
  constructor
  · rw [ha.own]
  · rw [ha.own]
  · rw [ha.own]

theorem Alike.refl (h : Host Interpreter) : Alike id h h := by
  refine ⟨.refl _, rfl, ?_⟩
  have hnames : h.own.names.renumber id = h.own.names := by
    refine congrArg Names.mk ?_
    exact List.map_id _
  rw [hnames]

/-- The numbers of boxes under names may be changed if the boxes keep theirs. -/
theorem renumber_names_of_fixed {ρ : Nat → Nat} {names : Names}
    (h : ∀ v ∈ names.handles, ρ v.id = v.id) : names.renumber ρ = names := by
  refine congrArg Names.mk ?_
  have hsame : ∀ p ∈ names.pairs, (p.1, p.2.renumber ρ) = id p := by
    intro p hp
    rw [Handle.renumber_of_fixed (h p.2 (List.mem_map_of_mem hp))]
    rfl
  rw [List.map_congr_left hsame, List.map_id]

/-- The hosts of the plain run and of the program, while the program is not yet past its blocks. -/
structure Level (n : Nat) (h h' : Host Interpreter) : Prop where
  reached : Reached n h
  healthy : Healthy [] h
  alike : Alike id h h'

/-- The hosts once the program has its system object. -/
structure Shifted (n : Nat) (h h' : Host Interpreter) : Prop where
  reached : Reached n h
  alike : ∃ m, Alike (Heap.skip m) h h'

variable {n : Nat} {h h' : Host Interpreter}

/-- What is logged does not show. -/
theorem Level.log (hl : Level n h h') (logger : Logger) :
    Level n h { h' with machine.logger := logger } :=
  ⟨hl.reached, hl.healthy, hl.alike.heap, hl.alike.slotLimit, hl.alike.own⟩

/-- No handle has a number that is still to come, so all keep theirs when a box is put in. -/
theorem Level.alloc (hl : Level n h h') (datum : Datum) (content : Content) :
    Shifted n h
      { h' with machine.heap := (h'.machine.heap.alloc datum content).2 } := by
  have hledger := hl.healthy.heap.ledger
  -- The system object gets a number above all that are in use, and nothing that is there refers to
  -- it.
  have hlow : ∀ v : Handle, h.machine.heap.isLive v.id = true → v.id < h.machine.heap.nextId := by
    intro v hv
    obtain ⟨cell, hcell⟩ := Heap.isLive_iff.mp hv
    exact Heap.lt_nextId_of_cell? hcell
  refine ⟨hl.reached, h.machine.heap.nextId, ?_, hl.alike.slotLimit, ?_⟩
  · exact hl.alike.heap.alloc_right (fun v hv => hlow v (hledger.live_of_owned hv)) datum content
  · -- Names denote live boxes, so their numbers are below the one that is skipped.
    have hskip : h.own.names.renumber (Heap.skip h.machine.heap.nextId) = h.own.names := by
      refine renumber_names_of_fixed fun v hv => Heap.skip_of_lt (hlow v ?_)
      exact hledger.live_of_mem (List.mem_append_right _ hv)
    have hsame : h.own.names.renumber id = h.own.names := renumber_names_of_fixed fun _ _ => rfl
    show h'.own = _
    rw [hl.alike.own, hskip, hsame]

/-! ## Blocks

  Each block is an initializer whose callback runs its steps, so the chain runs all of them. -/

/-- **A list of steps**, run on hosts at the same level, ends in the same way on both, and a fault
comes at a position in the list. -/
theorem match_runSteps (n : Nat) (steps : List Step) :
    Match (Level n) (runSteps steps) (runSteps steps) (fun _ _ => Level (n + steps.length))
      fun f d h h' => d = f ∧ (n < h.own.executed ∧ h.own.executed ≤ n + steps.length) ∧
        Agree h h' := by
  have hfollows := follows_runSteps strictMono_id steps
  -- three facts about one run: what the two hosts have in common, the ledger, and the position
  have hboth := (hfollows.and (triple_runSteps steps)).and (reached_runSteps n steps)
  refine (hboth.before fun h h' hl => ⟨hl.reached, hl.healthy, hl.alike⟩).after ?_ ?_
  · rintro a a' h h' ⟨hreached, hhealthy, -, halike⟩
    exact ⟨hreached, hhealthy, halike⟩
  · rintro f d h h' ⟨hposition, -, rfl, halike⟩
    exact ⟨rfl, hposition, halike.agree⟩

/-- One initializer does what the steps of its block do. -/
theorem match_runOne (n position : Nat) (b : InitBlock) :
    Match (Level n) (runSteps b.steps)
      (InitChain.runOne position { name := b.name, action := runSteps b.steps })
      (fun _ _ => Level (n + b.steps.length))
      fun f e h h' => e = .init b.name f ∧
        (n < h.own.executed ∧ h.own.executed ≤ n + b.steps.length) ∧ Agree h h' := by
  unfold InitChain.runOne
  -- What is logged before the block does not show.
  refine Match.bind_right (M := fun _ => Level n) (fun h h' hl => ⟨_, _, rfl, hl.log _⟩) fun _ => ?_
  intro h h' hl
  rcases both_end_iff.mp (match_runSteps n b.steps h h' hl) with
    ⟨a, s, a', s', hrun, hrun', hs⟩ | ⟨f, s, d, s', hrun, hrun', rfl, hposition, hagree⟩
  · dsimp only
    rw [hrun, hrun']
    exact hs
  · dsimp only
    rw [hrun, hrun']
    exact ⟨rfl, hposition, hagree.out, hagree.executed, hagree.failure⟩

/-- The chain of the blocks does what all their steps do. -/
theorem match_runFrom (n position : Nat) (blocks : List InitBlock) :
    Match (Level n) (runSteps (blocks.flatMap InitBlock.steps))
      (InitChain.runFrom position
        (blocks.map fun b => { name := b.name, action := runSteps b.steps }))
      (fun _ _ => Level (n + (blocks.flatMap InitBlock.steps).length))
      fun f e h h' => e = Script.failureIn f blocks (h.own.executed - n) ∧ n < h.own.executed ∧
        h.own.executed ≤ n + (blocks.flatMap InitBlock.steps).length ∧ Agree h h' := by
  induction blocks generalizing n position with
  | nil => exact fun _ _ hl => hl
  | cons b rest ih =>
    rw [List.flatMap_cons, runSteps_append, List.length_append, ← Nat.add_assoc]
    have hblock := match_runOne n position b
    refine Match.bind (hblock.after (fun _ _ _ _ hl => hl) ?_) fun _ _ => ?_
    · rintro f e h h' ⟨rfl, ⟨hlt, hle⟩, hagree⟩
      have hin : h.own.executed - n ≤ b.steps.length := by omega
      refine ⟨?_, hlt, by omega, hagree⟩
      rw [Script.failureIn, if_pos hin]
    · -- the later blocks count their positions from where this one ends
      refine (ih (n + b.steps.length) (position + 1)).after (fun _ _ _ _ hl => hl) ?_
      rintro f e h h' ⟨rfl, hlt, hle, hagree⟩
      have hout : ¬h.own.executed - n ≤ b.steps.length := by omega
      refine ⟨?_, by omega, hle, hagree⟩
      rw [Script.failureIn, if_neg hout, Nat.sub_sub]

/-- **The chain of blocks** does what their steps do in one list; the failure that it ends with is
wrapped by the block of the position. -/
theorem match_chain (s : Script) :
    Match (Level 0) (runSteps (s.init.flatMap InitBlock.steps)) s.chain.run
      (fun _ _ => Level (s.init.flatMap InitBlock.steps).length)
      fun f e h h' => e = s.failureAt h.own.executed f ∧ Agree h h' := by
  intro h h' hl
  have hblocks := match_runFrom 0 0 s.init
  rw [Nat.zero_add] at hblocks
  unfold InitChain.run
  dsimp only
  -- The span of the chain does not show either.
  rcases both_end_iff.mp (hblocks h _ (hl.log (h'.machine.logger.enterSpan "init").2)) with
    ⟨a, t, a', t', hrun, hrun', ht⟩ | ⟨f, t, e, t', hrun, hrun', rfl, -, -, hagree⟩
  · rw [hrun]
    unfold Script.chain
    dsimp only
    rw [hrun']
    exact ht.log _
  · rw [hrun]
    unfold Script.chain
    dsimp only
    rw [hrun']
    exact ⟨rfl, hagree.out, hagree.executed, hagree.failure⟩

/-! ## The main part

  From the system object on the numbers of new boxes are shifted by one. -/

/-- The system object's handle is given up whatever the main steps do. -/
theorem match_finally {x y : Callback Interpreter Unit}
    {P : Host Interpreter → Host Interpreter → Prop}
    {E : Fault → Host Interpreter → Prop} (system : Handle)
    (hxy : Match P x y (fun _ _ => Agree) fun f d h h' => d = f ∧ E f h ∧ Agree h h') :
    Match P x (do try y finally Host.on id (Machine.drop system)) (fun _ _ => Agree)
      fun f d h h' => d = f ∧ E f h ∧ Agree h h' := by
  intro h h' hp
  simp only [tryFinally, tryFinally', Functor.map, EStateM.map]
  rcases both_end_iff.mp (hxy h h' hp) with
    ⟨a, t, a', t', hrun, hrun', ht⟩ | ⟨f, t, d, t', hrun, hrun', rfl, he, ht⟩
  · rw [hrun, hrun']
    exact ⟨ht.out, ht.executed, ht.failure⟩
  · rw [hrun, hrun']
    exact ⟨rfl, he, ht.out, ht.executed, ht.failure⟩

/-- The main part does what its steps do, though it has one box more, the system object. -/
theorem match_main (n : Nat) (s : Script) (system : Handle) :
    Match (Shifted n) (runSteps s.steps) (s.main system) (fun _ _ => Agree)
      fun f d h h' => d = f ∧ n < h.own.executed ∧ Agree h h' := by
  -- The main part runs with the numbers shifted by one, since the system object has one.
  have hsteps : Match (Shifted n) (runSteps s.steps) (runSteps s.steps) (fun _ _ => Agree)
      fun f d h h' => d = f ∧ n < h.own.executed ∧ Agree h h' := by
    intro h h' hs
    obtain ⟨m, halike⟩ := hs.alike
    have hfollows := follows_runSteps (Heap.skip_strictMono m) s.steps
    have hboth := hfollows.and (reached_runSteps n s.steps)
    refine hboth.after ?_ ?_ h h' ⟨hs.reached, halike⟩
    · rintro a a' t t' ⟨-, -, ht⟩
      exact ht.agree
    · rintro f d t t' ⟨⟨hlt, -⟩, rfl, ht⟩
      exact ⟨rfl, hlt, ht.agree⟩
  unfold Script.main
  refine Match.bind_right (M := fun _ => Shifted n) ?_ fun _ => ?_
  · -- What is logged at the beginning does not show.
    intro h h' hs
    obtain ⟨m, halike⟩ := hs.alike
    exact ⟨_, _, rfl, hs.reached, m, halike.heap, halike.slotLimit, halike.own⟩
  · -- At the end the system object is given up, which the flat run does not have.
    refine (match_finally (E := fun _ h => n < h.own.executed) system hsteps).then_right ?_
    intro _ _ h h' hagree
    exact ⟨_, _, rfl, hagree⟩

/-- The main part with its wrapping: a fault in it comes after all blocks. -/
theorem match_runMain (n : Nat) (s : Script) (system : Handle) :
    Match (Shifted n) (runSteps s.steps) (runMain s.main system) (fun _ _ => Agree)
      fun f e h h' => e = .main f ∧ n < h.own.executed ∧ Agree h h' := by
  intro h h' hs
  unfold runMain
  rcases both_end_iff.mp (match_main n s system h h' hs) with
    ⟨a, t, a', t', hrun, hrun', ht⟩ | ⟨f, t, d, t', hrun, hrun', rfl, hlt, ht⟩
  · rw [hrun, hrun']
    exact ht
  · rw [hrun, hrun']
    exact ⟨rfl, hlt, ht⟩

/-! ## Programs

  The chain, the system object and the main part in a row. -/

/-- The host on which a script starts: a machine without boxes, and an output. -/
def start (machine : Machine) (out : Output) (hint : Nat) : Host Interpreter :=
  { machine := { machine with heap := {} }, own := { out, defaultSizeHint := hint } }

/-- A host on which nothing has happened yet. -/
structure Fresh (h : Host Interpreter) : Prop where
  healthy : Healthy [] h
  executed : h.own.executed = 0
  failure : h.own.failure = none

/-- A script starts on a host on which nothing has happened. -/
theorem fresh_start (machine : Machine) (out : Output) (hint : Nat) :
    Fresh (start machine out hint) :=
  ⟨⟨.empty, Names.distinct_empty⟩, rfl, rfl⟩

/-- A program ends as the plain run of all its steps does, and all that can be seen of the two is
the same. -/
theorem match_run (s : Script) :
    Match (fun h h' => Fresh h ∧ Alike id h h') (runSteps s.allSteps) s.run (fun _ _ => Agree)
      fun f e h h' => e = s.failureAt h.own.executed f ∧ Agree h h' := by
  have hstart : ∀ h h', Fresh h ∧ Alike id h h' → Level 0 h h' := by
    rintro h h' ⟨hh, halike⟩
    exact ⟨fun _ => hh.executed, hh.healthy, halike⟩
  unfold Script.allSteps
  rw [runSteps_append]
  unfold Script.run runProgram
  refine Match.before (P := Level 0) ?_ hstart
  refine Match.bind_right (M := fun _ => Level 0) (fun h h' hl => ⟨_, _, rfl, hl.log _⟩) fun _ => ?_
  refine (match_chain s).bind fun _ _ => ?_
  -- from here on the program has the box of its system object, and other numbers
  refine Match.bind_right (M := fun _ => Shifted (s.init.flatMap InitBlock.steps).length)
    (fun h h' hl => ⟨_, _, rfl, hl.alloc (.int 1) .fixed⟩) fun system => ?_
  have hmain := match_runMain (s.init.flatMap InitBlock.steps).length s system
  have hmain' : Match (Shifted (s.init.flatMap InitBlock.steps).length) (runSteps s.steps)
      (runMain s.main system) (fun _ _ => Agree)
      fun f e h h' => e = s.failureAt h.own.executed f ∧ Agree h h' := by
    refine hmain.after (fun _ _ _ _ ha => ha) ?_
    rintro f e h h' ⟨rfl, hlt, hagree⟩
    exact ⟨(Script.failureIn_main f hlt).symm, hagree⟩
  refine hmain'.then_right fun _ _ h h' hagree => ?_
  exact ⟨_, _, rfl, hagree.out, hagree.executed, hagree.failure⟩

end Interpreter

end BoxRuntime
