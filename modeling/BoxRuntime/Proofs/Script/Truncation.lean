/-
  What comes after a failure does not matter.

  A script that fails by itself notes the failure and goes on without doing anything.  So it ends as
  the script without the later steps does (`Script.upTo`), and on the very same host: same machine,
  same log, same names, same output.

  Steps count over all blocks, so which steps of a block are left out depends on how many there are
  before the block.  `Cuts n m len x y` says that `y` is like `x`, which begins after the first `m`
  steps and has `len` of them, but without the steps after the `n`-th.  It has one rule for each way
  to put a program together, and `cuts_run` follows.
-/
import BoxRuntime.Proofs.Program.Frames
import BoxRuntime.Proofs.Script.Flat

namespace BoxRuntime

namespace Script

/-- The blocks with the first `n` of their steps only. -/
def blocksUpTo : List InitBlock → Nat → List InitBlock
  | [], _ => []
  | b :: rest, n =>
    { name := b.name, steps := b.steps.take n } :: blocksUpTo rest (n - b.steps.length)

/-- The script with the first `n` of its steps only, counted over all blocks. -/
def upTo (s : Script) (n : Nat) : Script :=
  { init := blocksUpTo s.init n
    steps := s.steps.take (n - (s.init.flatMap InitBlock.steps).length) }

/-- All blocks stay, some of them empty. -/
theorem length_blocksUpTo (blocks : List InitBlock) (n : Nat) :
    (blocksUpTo blocks n).length = blocks.length := by
  induction blocks generalizing n with
  | nil => rfl
  | cons b rest ih => exact congrArg (· + 1) (ih _)

/-- Block by block, these are the first steps of all blocks. -/
theorem steps_blocksUpTo (blocks : List InitBlock) (n : Nat) :
    (blocksUpTo blocks n).flatMap InitBlock.steps =
      (blocks.flatMap InitBlock.steps).take n := by
  induction blocks generalizing n with
  | nil => exact List.take_nil.symm
  | cons b rest ih =>
    rw [blocksUpTo, List.flatMap_cons, List.flatMap_cons, ih, List.take_append]

/-- What is left are the first steps of all. -/
theorem allSteps_upTo (s : Script) (n : Nat) : (s.upTo n).allSteps = s.allSteps.take n := by
  unfold allSteps upTo
  rw [steps_blocksUpTo, List.take_append]

end Script

namespace Interpreter

/-! ## Leaving out later steps

  Three things are said of two actions, by how the first one ends; each rule below proves all three
  for one way to compose. -/

variable {ε δ α β : Type} {n m len len' : Nat}

/-- The second action does what the first one does, which begins after the first `m` steps and has
`len` of them, as long as none is begun after the `n`-th or the script has failed by then. -/
structure Cuts (n m len : Nat) (x y : EStateM ε (Host Interpreter) α) : Prop where
  completed : ∀ h a t, Counted m h → x h = .ok a t → t.own.failure = none →
    Counted (m + len) t ∧ (m + len ≤ n → y h = .ok a t)
  failed : ∀ h a t, Counted m h → x h = .ok a t → t.own.failure.isSome = true →
    m < t.own.executed ∧ (t.own.executed = n → y h = .ok a t)
  idle : ∀ h a t, h.own.failure.isSome = true → x h = .ok a t → t.own = h.own ∧ y h = .ok a t

/-- Two actions one after another are cut at the same step, which may be in either. -/
theorem Cuts.bind {x y : EStateM ε (Host Interpreter) α} {k l : α → EStateM ε (Host Interpreter) β}
    (hx : Cuts n m len x y) (hk : ∀ a, Cuts n (m + len) len' (k a) (l a)) :
    Cuts n m (len + len') (x >>= k) (y >>= l) := by
  constructor
  · intro h b t hh hrun ht
    obtain ⟨a, mid, hfirst, hrest⟩ := between_of_run hrun
    -- a failure in the first part would still be there
    have hmid : mid.own.failure = none := by
      cases hfailure : mid.own.failure with
      | none => rfl
      | some e =>
        have hsome : mid.own.failure.isSome = true := by rw [hfailure]; rfl
        rw [((hk a).idle mid b t hsome hrest).1, hfailure] at ht
        cases ht
    obtain ⟨hcounted, hfirst'⟩ := hx.completed h a mid hh hfirst hmid
    obtain ⟨hend, hrest'⟩ := (hk a).completed mid b t hcounted hrest ht
    rw [← Nat.add_assoc]
    refine ⟨hend, fun hn => ?_⟩
    exact (run_bind (hfirst' (by omega)) l).trans (hrest' hn)
  · intro h b t hh hrun ht
    obtain ⟨a, mid, hfirst, hrest⟩ := between_of_run hrun
    cases hfailure : mid.own.failure with
    | none =>
      obtain ⟨hcounted, hfirst'⟩ := hx.completed h a mid hh hfirst hfailure
      obtain ⟨hlt, hrest'⟩ := (hk a).failed mid b t hcounted hrest ht
      refine ⟨by omega, fun hn => ?_⟩
      exact (run_bind (hfirst' (by omega)) l).trans (hrest' hn)
    | some e =>
      have hsome : mid.own.failure.isSome = true := by rw [hfailure]; rfl
      obtain ⟨hlt, hfirst'⟩ := hx.failed h a mid hh hfirst hsome
      obtain ⟨hown, hrest'⟩ := (hk a).idle mid b t hsome hrest
      rw [hown]
      exact ⟨hlt, fun hn => (run_bind (hfirst' hn) l).trans hrest'⟩
  · intro h b t hh hrun
    obtain ⟨a, mid, hfirst, hrest⟩ := between_of_run hrun
    obtain ⟨hown, hfirst'⟩ := hx.idle h a mid hh hfirst
    rw [← hown] at hh ⊢
    obtain ⟨hown', hrest'⟩ := (hk a).idle mid b t hh hrest
    exact ⟨hown', (run_bind hfirst' l).trans hrest'⟩

/-- What leaves alone the interpreter has no steps. -/
theorem cuts_of_own {x : EStateM ε (Host Interpreter) α}
    (hown : ∀ h a t, x h = .ok a t → t.own = h.own) : Cuts n m 0 x x := by
  constructor
  · intro h a t hh hrun ht
    refine ⟨⟨?_, ht⟩, fun _ => hrun⟩
    rw [hown h a t hrun]
    exact hh.executed
  · intro h a t hh hrun ht
    rw [hown h a t hrun, hh.failure] at ht
    cases ht
  · exact fun h a t _ hrun => ⟨hown h a t hrun, hrun⟩

theorem cuts_pure (a : α) : Cuts n m 0 (pure a : EStateM ε (Host Interpreter) α) (pure a) := by
  refine cuts_of_own fun h a' t hrun => ?_
  obtain ⟨-, rfl⟩ := EStateM.Result.ok.inj hrun
  rfl

theorem cuts_on (wrap : Fault → ε) (op : Op α) :
    Cuts n m 0 (Host.on wrap op : EStateM ε (Host Interpreter) α) (Host.on wrap op) := by
  refine cuts_of_own fun h a t hrun => ?_
  unfold Host.on at hrun
  dsimp only at hrun
  cases hop : op h.machine with
  | ok a' machine =>
    rw [hop] at hrun
    obtain ⟨-, rfl⟩ := EStateM.Result.ok.inj hrun
    rfl
  | error f machine =>
    rw [hop] at hrun
    cases hrun

theorem Cuts.on_bind {wrap : Fault → ε} {op : Op α} {k l : α → EStateM ε (Host Interpreter) β}
    (hk : ∀ a, Cuts n m len (k a) (l a)) :
    Cuts n m len (Host.on wrap op >>= k) (Host.on wrap op >>= l) := by
  rw [← Nat.zero_add len]
  exact (cuts_on wrap op).bind hk

/-- What is put around a callback changes the machine and not the counters, so the cut stays where
it is. -/
theorem Cuts.framed {enter leave : Machine → Machine} {leaveFailed : ε → Machine → Machine}
    {wrap : ε → δ} {x y : EStateM ε (Host Interpreter) α} (hx : Cuts n m len x y) :
    Cuts n m len (framed enter leave leaveFailed wrap x)
      (framed enter leave leaveFailed wrap y) := by
  -- What is in the frame ran from the machine as the frame found it, and ended in the same way.
  have hinner : ∀ h a t, BoxRuntime.framed enter leave leaveFailed wrap x h = .ok a t →
      ∃ t', x { h with machine := enter h.machine } = .ok a t' ∧
        t = { t' with machine := leave t'.machine } := by
    intro h a t hrun
    cases hrun' : x { h with machine := enter h.machine } with
    | ok a' t' =>
      rw [run_framed hrun'] at hrun
      obtain ⟨rfl, rfl⟩ := EStateM.Result.ok.inj hrun
      exact ⟨t', rfl, rfl⟩
    | error e t' =>
      rw [run_framed_error hrun'] at hrun
      cases hrun
  -- The three things that are asked: of an end without a failure, of one with a failure, and of a
  -- run that began with one.
  constructor
  · intro h a t hh hrun ht
    obtain ⟨t', hrun', rfl⟩ := hinner h a t hrun
    obtain ⟨hend, hsame⟩ := hx.completed { h with machine := enter h.machine } a t'
      ⟨hh.executed, hh.failure⟩ hrun' ht
    exact ⟨⟨hend.executed, hend.failure⟩, fun hn => run_framed (hsame hn)⟩
  · intro h a t hh hrun ht
    obtain ⟨t', hrun', rfl⟩ := hinner h a t hrun
    obtain ⟨hlt, hsame⟩ := hx.failed { h with machine := enter h.machine } a t'
      ⟨hh.executed, hh.failure⟩ hrun' ht
    exact ⟨hlt, fun hn => run_framed (hsame hn)⟩
  · intro h a t hh hrun
    obtain ⟨t', hrun', rfl⟩ := hinner h a t hrun
    obtain ⟨hown, hsame⟩ := hx.idle { h with machine := enter h.machine } a t' hh hrun'
    exact ⟨hown, run_framed hsame⟩

/-! ## Scripts

  From the steps up to the whole program. -/

/-- **A list of steps is cut where the number says**: before that the runs are the same, and after
it the longer one passes over its steps. -/
theorem cuts_runSteps (n m : Nat) (steps : List Step) :
    Cuts n m steps.length (runSteps steps) (runSteps (steps.take (n - m))) := by
  constructor
  · rintro h ⟨⟩ t hh hrun ht
    rcases completes_or_fails steps h with ⟨h', hall⟩ | ⟨k, e, h', hf⟩
    · obtain ⟨hrun', hcounted⟩ := hall.run hh
      rw [hrun'] at hrun
      obtain ⟨-, rfl⟩ := EStateM.Result.ok.inj hrun
      refine ⟨hcounted, fun hn => ?_⟩
      rw [List.take_of_length_le (by omega)]
      exact hrun'
    · cases e with
      | fault f =>
        rw [hf.run_fault hh] at hrun
        cases hrun
      | script e =>
        rw [hf.run_script hh] at hrun
        obtain ⟨-, rfl⟩ := EStateM.Result.ok.inj hrun
        cases ht
  · rintro h ⟨⟩ t hh hrun ht
    rcases completes_or_fails steps h with ⟨h', hall⟩ | ⟨k, e, h', hf⟩
    · obtain ⟨hrun', hcounted⟩ := hall.run hh
      rw [hrun'] at hrun
      obtain ⟨-, rfl⟩ := EStateM.Result.ok.inj hrun
      rw [hcounted.failure] at ht
      cases ht
    · obtain ⟨hblamed, hpos, -⟩ := hf.blamed hh
      have hexecuted : h'.own.executed = m + k := hblamed.counted.executed
      cases e with
      | fault f =>
        rw [hf.run_fault hh] at hrun
        cases hrun
      | script e =>
        obtain ⟨before, s, after, mid, rfl, rfl, hall, hstep⟩ := hf
        -- the same step fails when it is the last one
        have hcut : FailsAt (before ++ [s]) h (before.length + 1) (.script e) h' :=
          ⟨before, s, [], mid, rfl, rfl, hall, hstep⟩
        have hwhole : FailsAt (before ++ s :: after) h (before.length + 1) (.script e) h' :=
          ⟨before, s, after, mid, rfl, rfl, hall, hstep⟩
        rw [hwhole.run_script hh] at hrun
        obtain ⟨-, rfl⟩ := EStateM.Result.ok.inj hrun
        refine ⟨by show m < h'.own.executed; omega, fun hn => ?_⟩
        have hn' : h'.own.executed = n := hn
        have hk : n - m = before.length + 1 := by omega
        rw [hk, List.take_length_add_append]
        exact hcut.run_script hh
  · rintro h ⟨⟩ t hh hrun
    rw [runSteps_failed hh] at hrun
    obtain ⟨-, rfl⟩ := EStateM.Result.ok.inj hrun
    exact ⟨rfl, runSteps_failed hh _⟩

/-- The block as an initializer of a program. -/
def initializer (b : InitBlock) : Initializer Interpreter :=
  { name := b.name, action := runSteps b.steps }

/-- A block keeps its first steps, as many as come before the cut. -/
theorem cuts_runOne (n m position : Nat) (b : InitBlock) :
    Cuts n m b.steps.length (InitChain.runOne position (initializer b))
      (InitChain.runOne position
        (initializer { name := b.name, steps := b.steps.take (n - m) })) := by
  rw [InitChain.runOne_eq .main, InitChain.runOne_eq .main]
  exact Cuts.on_bind fun _ => (cuts_runSteps n m b.steps).framed

/-- Blocks are cut one after another; the later ones lose all their steps. -/
theorem cuts_runFrom (n m position : Nat) (blocks : List InitBlock) :
    Cuts n m (blocks.flatMap InitBlock.steps).length
      (InitChain.runFrom position (blocks.map initializer))
      (InitChain.runFrom position ((Script.blocksUpTo blocks (n - m)).map initializer)) := by
  induction blocks generalizing m position with
  | nil => exact cuts_pure ()
  | cons b rest ih =>
    rw [List.flatMap_cons, List.length_append]
    have hrest := ih (m + b.steps.length) (position + 1)
    rw [← Nat.sub_sub] at hrest
    exact (cuts_runOne n m position b).bind fun _ => hrest

theorem cuts_chain (n : Nat) (s : Script) :
    Cuts n 0 (s.init.flatMap InitBlock.steps).length s.chain.run (s.upTo n).chain.run := by
  rw [InitChain.run_eq, InitChain.run_eq]
  exact (cuts_runFrom n 0 0 s.init).framed

/-- The main part, if any of its steps come after the cut. -/
theorem cuts_runMain (n : Nat) (s : Script) (system : Handle) :
    Cuts n (s.init.flatMap InitBlock.steps).length s.steps.length (runMain s.main system)
      (runMain (s.upTo n).main system) := by
  rw [runMain_eq, runMain_eq, Script.main_eq, Script.main_eq, remark_eq id]
  have hsteps := cuts_runSteps n (s.init.flatMap InitBlock.steps).length s.steps
  exact (Cuts.on_bind fun _ => hsteps.framed.bind fun _ => cuts_pure _).framed

/-- **A program whose script fails at a step ends as it does without the later steps.** -/
theorem cuts_run (n : Nat) (s : Script) : Cuts n 0 s.allSteps.length s.run (s.upTo n).run := by
  have hchain : (s.upTo n).chain.length = s.chain.length := by
    show ((Script.blocksUpTo s.init n).map initializer).length = (s.init.map initializer).length
    rw [List.length_map, List.length_map, Script.length_blocksUpTo]
  unfold Script.run runProgram Script.allSteps
  rw [hchain, List.length_append]
  simp only [InitChain.log_eq ProgramFailure.main]
  refine Cuts.on_bind fun _ => (cuts_chain n s).bind fun _ => ?_
  rw [Nat.zero_add]
  refine Cuts.on_bind fun system => ?_
  exact (cuts_runMain n s system).bind fun a => Cuts.on_bind fun _ => cuts_pure a

end Interpreter

end BoxRuntime
