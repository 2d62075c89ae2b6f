/-
  Scripts on a full disk.

  An output may have room for so many bytes only.  It then takes a piece of text whole or not at
  all, and the first piece that it refuses is where the script ends: the failure is noted, and
  nothing comes after it.

  The same run without a limit does the very same up to there.  So the two are followed side by
  side, as long as they agree, and from the refusal on only one thing matters of the run without a
  limit: its output grows, so what it wrote stays where it is.  That is done twice, once for the
  parts of a step (`StepEnds`), which fail on a refusal, and once for the parts of a program
  (`RunEnds`), which end well but leave the script failed.
-/
import BoxRuntime.Proofs.Script.Endings
import BoxRuntime.Proofs.Script.Parts
import BoxRuntime.Proofs.Script.Truncation

namespace BoxRuntime

/-! ## Output

  Pieces are counted in bytes, and the text that came out is the pieces that were taken. -/

namespace Output

/-- The number of bytes of all pieces. -/
def size : List String → Nat
  | [] => 0
  | piece :: rest => piece.utf8ByteSize + size rest

/-- The output that has written the same and has no limit. -/
def unlimited (o : Output) : Output :=
  { written := o.written }

theorem size_append (a b : List String) : size (a ++ b) = size a + size b := by
  induction a with
  | nil => exact (Nat.zero_add _).symm
  | cons piece rest ih => rw [List.cons_append, size, ih, size, Nat.add_assoc]

/-- The bytes of the pieces written so far, as the limit counts them. -/
theorem foldl_size (written : Array String) (n : Nat) :
    written.foldl (fun n piece => n + piece.utf8ByteSize) n = n + size written.toList := by
  rw [← Array.foldl_toList]
  induction written.toList generalizing n with
  | nil => rfl
  | cons piece rest ih => rw [List.foldl_cons, ih, size, Nat.add_assoc]

/-- The text of some pieces is put behind what was there. -/
theorem foldl_text (pieces : List String) (start : String) :
    pieces.foldl (· ++ ·) start = start ++ pieces.foldl (· ++ ·) "" := by
  induction pieces generalizing start with
  | nil => exact String.append_empty.symm
  | cons piece rest ih =>
    rw [List.foldl_cons, List.foldl_cons, ih, ih ("" ++ piece), String.empty_append,
      String.append_assoc]

/-- The text written so far is that of the pieces. -/
theorem text_eq (o : Output) : o.text = o.written.toList.foldl (· ++ ·) "" :=
  (Array.foldl_toList _).symm

theorem size_text (o : Output) : o.text.utf8ByteSize = size o.written.toList := by
  rw [text_eq]
  induction o.written.toList with
  | nil => rfl
  | cons piece rest ih =>
    rw [List.foldl_cons, foldl_text, String.utf8ByteSize_append, ih, String.empty_append]
    rfl

section

variable {o : Output} {limit : Nat} {s : String}

/-- An empty piece is not even tried. -/
theorem write_empty (hs : s.isEmpty = true) : o.write s = (none, o) :=
  if_pos hs

/-- Without a limit any other piece is taken. -/
theorem write_unlimited (hs : ¬s.isEmpty = true) :
    o.unlimited.write s = (none, { written := o.written.push s }) :=
  if_neg hs

/-- A piece that there is room for is written. -/
theorem write_room (ho : o.refusal = (limited limit).refusal) (hs : ¬s.isEmpty = true)
    (hroom : size o.written.toList + s.utf8ByteSize ≤ limit) :
    o.write s = (none, { o with written := o.written.push s }) := by
  -- The pieces so far and this one are within the limit.
  have htaken : o.refusal o.written s = none := by
    rw [ho]
    refine if_pos ?_
    rw [foldl_size, Nat.add_comm]
    exact hroom
  unfold write
  rw [if_neg hs, htaken]

/-- Nothing is written of a piece that goes past the limit. -/
theorem write_past (ho : o.refusal = (limited limit).refusal) (hs : ¬s.isEmpty = true)
    (hpast : limit < size o.written.toList + s.utf8ByteSize) :
    o.write s = (some "disk full", { o with written := o.written.push "" }) := by
  -- They are not, and then nothing of the piece is taken.
  have hrefused : o.refusal o.written s = some ("", "disk full") := by
    rw [ho]
    refine if_neg ?_
    rw [foldl_size, Nat.add_comm]
    exact Nat.not_le_of_lt hpast
  unfold write
  rw [if_neg hs, hrefused]

end

/-- What is written stays written. -/
theorem grows_write (o : Output) (s : String) :
    o.written.toList <+: (o.write s).2.written.toList := by
  unfold write
  split
  · exact List.prefix_refl _
  · split
    · dsimp only
      rw [Array.toList_push]
      exact List.prefix_append _ _
    · dsimp only
      rw [Array.toList_push]
      exact List.prefix_append _ _

end Output

namespace Interpreter

/-! ## Two runs side by side

  The same host with and without the limit. They go on together until a piece is refused; after
  that the free one only writes more. -/

/-- The host with the same text written and no limit. -/
def freed (h : Host Interpreter) : Host Interpreter :=
  { h with own.out := h.own.out.unlimited }

/-- The pieces that a host has written. -/
def pieces (h : Host Interpreter) : List String :=
  h.own.out.written.toList

/-- The output has the limit and keeps to it, and it has refused nothing so far. -/
structure Going (limit : Nat) (h : Host Interpreter) : Prop where
  refusal : h.own.out.refusal = (Output.limited limit).refusal
  room : Output.size (pieces h) ≤ limit
  failure : ∀ reason, h.own.failure ≠ some (.unwritable reason)

/-- The first host was refused a piece that goes past the limit, which leaves an empty piece in its
place; on the second host that piece is the one that comes next. -/
def Refused (limit : Nat) (h h' : Host Interpreter) : Prop :=
  ∃ before piece, pieces h = before ++ [""] ∧ before ++ [piece] <+: pieces h' ∧
    Output.size before ≤ limit ∧ limit < Output.size before + piece.utf8ByteSize

variable {limit : Nat} {ε δ α β : Type} {h h' t t' : Host Interpreter}

/-- What comes next stays where it is. -/
theorem Refused.grows (hr : Refused limit h h') (hgrows : pieces h' <+: pieces t') :
    Refused limit h t' := by
  obtain ⟨before, piece, hbefore, hnext, hroom, hpast⟩ := hr
  exact ⟨before, piece, hbefore, hnext.trans hgrows, hroom, hpast⟩

/-- All that matters of the hosts is what they wrote. -/
theorem Refused.congr (hr : Refused limit h h') (hfirst : pieces t = pieces h)
    (hsecond : pieces t' = pieces h') : Refused limit t t' := by
  obtain ⟨before, piece, hbefore, hnext, hroom⟩ := hr
  refine ⟨before, piece, hfirst.trans hbefore, ?_, hroom⟩
  rw [hsecond]
  exact hnext

/-- An action takes back nothing that was written. -/
def Grows (x : EStateM ε (Host Interpreter) α) : Prop :=
  ∀ h, pieces h <+: pieces (leftBy (x h))

/-- Two actions one after another add to what was written. -/
theorem Grows.bind {x : EStateM ε (Host Interpreter) α} {k : α → EStateM ε (Host Interpreter) β}
    (hx : Grows x) (hk : ∀ a, Grows (k a)) : Grows (x >>= k) :=
  leftBy_bind (fun h t => pieces h <+: pieces t) List.IsPrefix.trans hx hk

/-- What leaves alone the interpreter writes nothing. -/
theorem grows_of_own {x : EStateM ε (Host Interpreter) α} (hown : ∀ h, (leftBy (x h)).own = h.own) :
    Grows x := by
  intro h
  have hsame : pieces h = pieces (leftBy (x h)) :=
    congrArg (fun i => i.out.written.toList) (hown h).symm
  exact ⟨[], (List.append_nil _).trans hsame⟩

/-! ## Parts of a step

  A refusal is a failure here, so it ends the step. -/

/-- How a part of a step ends within the limit, and how it ends without: both end alike, or the
first fails because its output was refused. -/
inductive StepEnds (limit : Nat) : EStateM.Result StepFailure (Host Interpreter) α →
    EStateM.Result StepFailure (Host Interpreter) α → Prop where
  | ok {a : α} {t : Host Interpreter} : Going limit t → StepEnds limit (.ok a t) (.ok a (freed t))
  | error {e : StepFailure} {t : Host Interpreter} : (∀ reason, e ≠ .script (.unwritable reason)) →
      Going limit t → StepEnds limit (.error e t) (.error e (freed t))
  | refused {t : Host Interpreter} {r : EStateM.Result StepFailure (Host Interpreter) α} :
      Refused limit t (leftBy r) →
      StepEnds limit (.error (.script (.unwritable "disk full")) t) r

/-- A part of a step that goes on alike with a limit and without, up to a refusal. -/
structure StepKeeps (limit : Nat) (α : Type) (x : StepAct α) : Prop where
  grows : Grows x
  ends : ∀ h, Going limit h → StepEnds limit (x h) (x (freed h))

/-- What leaves alone the interpreter, and knows nothing of it, goes on alike. -/
theorem stepKeeps_on (op : Op α) : StepKeeps limit α (on op) := by
  refine ⟨grows_of_own (own_on _ op), fun h hh => ?_⟩
  -- The machines are the same, so the operation comes out the same.
  cases hop : op h.machine with
  | ok a m =>
    have hop' : op (freed h).machine = .ok a m := hop
    rw [run_on hop, run_on hop']
    exact .ok ⟨hh.refusal, hh.room, hh.failure⟩
  | error f m =>
    have hop' : op (freed h).machine = .error f m := hop
    rw [run_on_error hop, run_on_error hop']
    refine .error (fun reason he => ?_) ⟨hh.refusal, hh.room, hh.failure⟩
    cases he

/-- Doing nothing goes on under the limit. -/
theorem stepKeeps_pure (a : α) : StepKeeps limit α (pure a) :=
  ⟨grows_of_own fun _ => rfl, fun _ hh => .ok hh⟩

/-- **The heart of the matter.** If the first action was refused, the second does not run under the
limit, and without the limit it takes nothing back; otherwise it starts from hosts that differ in
the limit only. -/
theorem StepKeeps.bind {x : StepAct α} {k : α → StepAct β} (hx : StepKeeps limit α x)
    (hk : ∀ a, StepKeeps limit β (k a)) : StepKeeps limit β (x >>= k) := by
  refine ⟨hx.grows.bind fun a => (hk a).grows, fun h hh => ?_⟩
  have hends := hx.ends h hh
  generalize hrun : x h = r at hends
  generalize hrun' : x (freed h) = r' at hends
  cases hends with
  | @ok a t ht =>
    rw [run_bind hrun, run_bind hrun']
    exact (hk a).ends t ht
  | error he ht =>
    rw [run_bind_error hrun, run_bind_error hrun']
    exact .error he ht
  | refused ht =>
    rw [run_bind_error hrun]
    refine .refused (ht.grows ?_)
    -- whatever the run without a limit does from here on, it takes nothing back
    cases r' with
    | ok a t' =>
      rw [run_bind hrun']
      exact (hk a).grows t'
    | error e t' =>
      rw [run_bind_error hrun']
      exact List.prefix_refl _

/-- A handle is given up on both hosts, refused or not. -/
theorem StepKeeps.consuming {v : Handle} {work : StepAct α} (hwork : StepKeeps limit α work) :
    StepKeeps limit α (consuming v work) := by
  -- Giving up a handle writes nothing.
  have hleft : ∀ h, pieces (leftBy (Interpreter.consuming v work h)) = pieces (leftBy (work h)) := by
    intro h
    rw [leftBy_consuming]
    rfl
  constructor
  · intro h
    rw [hleft]
    exact hwork.grows h
  · intro h hh
    have hends := hwork.ends h hh
    have hafter := hleft (freed h)
    -- The two ends are taken out of the relation before it is split.
    generalize hrun : work h = r at hends
    generalize hrun' : work (freed h) = r' at hends hafter
    cases hends with
    | ok ht =>
      rw [run_consuming hrun, run_consuming hrun']
      exact .ok ⟨ht.refusal, ht.room, ht.failure⟩
    | error he ht =>
      rw [run_consuming_error hrun, run_consuming_error hrun']
      exact .error he ⟨ht.refusal, ht.room, ht.failure⟩
    | refused ht =>
      rw [run_consuming_error hrun]
      exact .refused (ht.congr rfl hafter)

theorem stepKeeps_lookup (name : String) : StepKeeps limit Handle (lookup name) := by
  constructor
  · intro h
    -- The names are the same on both hosts, so both find the same or both find nothing.
    cases hv : h.own.names.get? name with
    | some v =>
      rw [run_lookup hv]
      exact List.prefix_refl _
    | none =>
      rw [run_lookup_none hv]
      exact List.prefix_refl _
  · intro h hh
    cases hv : h.own.names.get? name with
    | some v =>
      have hv' : (freed h).own.names.get? name = some v := hv
      rw [run_lookup hv, run_lookup hv']
      exact .ok hh
    | none =>
      have hv' : (freed h).own.names.get? name = none := hv
      rw [run_lookup_none hv, run_lookup_none hv']
      refine .error (fun reason he => ?_) hh
      cases he

theorem stepKeeps_take (name : String) : StepKeeps limit Handle (take name) := by
  have herase : StepKeeps limit Unit (modify fun h : Host Interpreter =>
      { h with own.names := h.own.names.erase name }) :=
    ⟨fun _ => List.prefix_refl _, fun _ hh => .ok ⟨hh.refusal, hh.room, hh.failure⟩⟩
  exact (stepKeeps_lookup name).bind fun v => herase.bind fun _ => stepKeeps_pure v

theorem stepKeeps_bindName (name : String) (v : Handle) :
    StepKeeps limit Unit (Interpreter.bind name v) := by
  constructor
  · intro h
    rw [run_bindName]
    exact List.prefix_refl _
  · intro h hh
    rw [run_bindName, run_bindName]
    exact .ok ⟨hh.refusal, hh.room, hh.failure⟩

/-- A piece that is taken completes the write. -/
theorem run_write_taken {s : String} {out : Output} (hwrite : h.own.out.write s = (none, out)) :
    write s h = .ok () { h with own.out := out } := by
  have hs : (h.own.out.write s).1 = none := by rw [hwrite]
  rw [run_write hs, hwrite]

/-- One that is not ends the step. -/
theorem run_write_not_taken {s reason : String} {out : Output}
    (hwrite : h.own.out.write s = (some reason, out)) :
    write s h = .error (.script (.unwritable reason)) { h with own.out := out } := by
  have hs : (h.own.out.write s).1 = some reason := by rw [hwrite]
  rw [run_write_refused hs, hwrite]

/-- Here the two runs may part: a piece that goes past the limit is refused. -/
theorem stepKeeps_write (s : String) : StepKeeps limit Unit (write s) := by
  constructor
  · intro h
    -- What is written grows, whether the piece is taken or refused.
    have hgrows := Output.grows_write h.own.out s
    cases hs : (h.own.out.write s).1 with
    | none =>
      rw [run_write hs]
      exact hgrows
    | some reason =>
      rw [run_write_refused hs]
      exact hgrows
  · intro h hh
    -- An empty piece is written by both without being counted.
    by_cases hs : s.isEmpty = true
    · rw [run_write_taken (Output.write_empty hs), run_write_taken (Output.write_empty hs)]
      exact .ok hh
    · rw [run_write_taken (h := freed h) (Output.write_unlimited hs)]
      -- It goes past the limit: the limited host refuses, and the free one goes on.
      rcases Nat.lt_or_ge limit (Output.size (pieces h) + s.utf8ByteSize) with hpast | hroom
      · rw [run_write_not_taken (Output.write_past hh.refusal hs hpast)]
        refine .refused ⟨pieces h, s, ?_, ?_, hh.room, hpast⟩
        · exact Array.toList_push
        · rw [← Array.toList_push]
          exact List.prefix_refl _
      · -- It fits, and both take it.
        rw [run_write_taken (Output.write_room hh.refusal hs hroom)]
        refine .ok ⟨hh.refusal, ?_, hh.failure⟩
        show Output.size (h.own.out.written.push s).toList ≤ limit
        rw [Array.toList_push, Output.size_append]
        exact hroom

/-- Remarks do not go to the output. -/
theorem stepKeeps_remark (level : BoxRuntime.Level) (message : String) :
    StepKeeps limit Unit (remark level message) :=
  ⟨grows_of_own fun _ => rfl, fun _ hh => .ok ⟨hh.refusal, hh.room, hh.failure⟩⟩

/-- All parts of steps go on under the limit, so all steps do. -/
theorem passesOn_stepKeeps (limit : Nat) : PassesOn (StepKeeps limit) where
  pure := stepKeeps_pure
  bind := StepKeeps.bind
  consuming _ _ := StepKeeps.consuming
  on := stepKeeps_on
  defaultHint := ⟨grows_of_own fun _ => rfl, fun _ hh => .ok hh⟩
  lookup := stepKeeps_lookup
  write := stepKeeps_write
  remark := stepKeeps_remark
  take := stepKeeps_take
  bindName := stepKeeps_bindName

/-! ## Parts of a program

  A refusal has become a failure that is kept, so the program goes on without doing anything. -/

/-- How a part of a program ends within the limit, and how it ends without: both end alike, or the
first ends well with a failed script, because its output was refused. -/
inductive RunEnds (limit : Nat) : EStateM.Result ε (Host Interpreter) α →
    EStateM.Result ε (Host Interpreter) α → Prop where
  | ok {a : α} {t : Host Interpreter} : Going limit t → RunEnds limit (.ok a t) (.ok a (freed t))
  | error {e : ε} {t : Host Interpreter} : Going limit t →
      RunEnds limit (.error e t) (.error e (freed t))
  | refused {a : α} {t : Host Interpreter} {r : EStateM.Result ε (Host Interpreter) α} :
      t.own.failure = some (.unwritable "disk full") → Refused limit t (leftBy r) →
      RunEnds limit (.ok a t) r

/-- A part of a program that goes on alike with a limit and without, up to a refusal.  Once the
script has failed, it ends well and leaves the interpreter alone. -/
structure RunKeeps (limit : Nat) (x : EStateM ε (Host Interpreter) α) : Prop where
  grows : Grows x
  idle : ∀ h, h.own.failure.isSome = true → ∃ a t, x h = .ok a t ∧ t.own = h.own
  ends : ∀ h, Going limit h → RunEnds limit (x h) (x (freed h))

/-- Doing nothing goes on under the limit. -/
theorem runKeeps_pure (a : α) : RunKeeps limit (pure a : EStateM ε (Host Interpreter) α) :=
  ⟨grows_of_own fun _ => rfl, fun h _ => ⟨a, h, rfl, rfl⟩, fun _ hh => .ok hh⟩

/-- An operation that always succeeds goes on alike. -/
theorem runKeeps_on (wrap : Fault → ε) {op : Op α} (htotal : ∀ m, ∃ a m', op m = .ok a m') :
    RunKeeps limit (Host.on wrap op : EStateM ε (Host Interpreter) α) := by
  -- Such an operation never fails, and never looks at the output.
  have hrun : ∀ h : Host Interpreter, ∃ a m, op h.machine = .ok a m ∧
      (Host.on wrap op : EStateM ε (Host Interpreter) α) h = .ok a { h with machine := m } := by
    intro h
    obtain ⟨a, m, hop⟩ := htotal h.machine
    refine ⟨a, m, hop, ?_⟩
    unfold Host.on
    dsimp only
    rw [hop]
  refine ⟨grows_of_own (own_on wrap op), fun h _ => ?_, fun h hh => ?_⟩
  · obtain ⟨a, m, -, hrun⟩ := hrun h
    exact ⟨a, _, hrun, rfl⟩
  · obtain ⟨a, m, hop, hrun'⟩ := hrun h
    obtain ⟨a', m', hop', hrun''⟩ := hrun (freed h)
    obtain ⟨rfl, rfl⟩ := EStateM.Result.ok.inj (hop.symm.trans hop')
    rw [hrun', hrun'']
    exact .ok ⟨hh.refusal, hh.room, hh.failure⟩

/-- What comes after a refused write does nothing, because the script has failed. -/
theorem RunKeeps.bind {x : EStateM ε (Host Interpreter) α}
    {k : α → EStateM ε (Host Interpreter) β} (hx : RunKeeps limit x)
    (hk : ∀ a, RunKeeps limit (k a)) : RunKeeps limit (x >>= k) := by
  refine ⟨hx.grows.bind fun a => (hk a).grows, fun h hh => ?_, fun h hh => ?_⟩
  · obtain ⟨a, mid, hfirst, hmid⟩ := hx.idle h hh
    rw [← hmid] at hh ⊢
    obtain ⟨b, t, hrest, ht⟩ := (hk a).idle mid hh
    exact ⟨b, t, (run_bind hfirst k).trans hrest, ht⟩
  · have hends := hx.ends h hh
    generalize hrun : x h = r at hends
    generalize hrun' : x (freed h) = r' at hends
    cases hends with
    | @ok a t ht =>
      rw [run_bind hrun, run_bind hrun']
      exact (hk a).ends t ht
    | error ht =>
      rw [run_bind_error hrun, run_bind_error hrun']
      exact .error ht
    | @refused a mid _ hmid hrefused =>
      -- the rest has nothing to do, and without a limit it takes nothing back
      obtain ⟨b, t, hrest, ht⟩ := (hk a).idle mid (by rw [hmid]; rfl)
      rw [run_bind hrun, hrest]
      have hpieces : pieces t = pieces mid := congrArg (fun i => i.out.written.toList) ht
      refine .refused (by rw [ht, hmid]) ((hrefused.congr hpieces rfl).grows ?_)
      cases r' with
      | ok a t' =>
        rw [run_bind hrun']
        exact (hk a).grows t'
      | error e t' =>
        rw [run_bind_error hrun']
        exact List.prefix_refl _

/-- Frames change the machine, which no limit is about. -/
theorem RunKeeps.framed {enter leave : Machine → Machine} {leaveFailed : ε → Machine → Machine}
    {wrap : ε → δ} {x : EStateM ε (Host Interpreter) α} (hx : RunKeeps limit x) :
    RunKeeps limit (framed enter leave leaveFailed wrap x) := by
  -- Frames change the machine alone, and the output is with the interpreter.
  have hleft : ∀ h, pieces (leftBy (BoxRuntime.framed enter leave leaveFailed wrap x h)) =
      pieces (leftBy (x { h with machine := enter h.machine })) := by
    intro h
    unfold BoxRuntime.framed
    cases x { h with machine := enter h.machine } <;> rfl
  refine ⟨fun h => ?_, fun h hh => ?_, fun h hh => ?_⟩
  · rw [hleft]
    exact hx.grows { h with machine := enter h.machine }
  · obtain ⟨a, t, hrun, ht⟩ := hx.idle { h with machine := enter h.machine } hh
    exact ⟨a, _, run_framed hrun, ht⟩
  · have hends := hx.ends { h with machine := enter h.machine } ⟨hh.refusal, hh.room, hh.failure⟩
    have hafter := hleft (freed h)
    -- Both runs of what is in the frame, named before the relation between them is split.
    generalize hrun : x { h with machine := enter h.machine } = r at hends
    generalize hrun' : x (freed { h with machine := enter h.machine }) = r' at hends
    have hrun'' : x { freed h with machine := enter (freed h).machine } = r' := hrun'
    rw [hrun''] at hafter
    cases hends with
    | ok ht =>
      rw [run_framed hrun, run_framed hrun'']
      exact .ok ⟨ht.refusal, ht.room, ht.failure⟩
    | error ht =>
      rw [run_framed_error hrun, run_framed_error hrun'']
      exact .error ⟨ht.refusal, ht.room, ht.failure⟩
    | refused hfailure ht =>
      rw [run_framed hrun]
      exact .refused hfailure (ht.congr rfl hafter)

/-! ## Scripts

  One rule for each way to put a program together, and `passesOn_stepKeeps` for the steps. -/

/-- A step that is begun writes what it writes. -/
theorem pieces_runStep {s : Step} (hh : h.own.failure = none) :
    pieces (leftBy (runStep s h)) = pieces (leftBy (step s (begun h))) := by
  -- Whatever the step comes to, the output is that of the step.
  cases hstep : step s (begun h) with
  | ok a t =>
    rw [runStep_ok hh hstep]
    rfl
  | error e t =>
    cases e with
    | fault f =>
      rw [runStep_fault hh hstep]
      rfl
    | script e =>
      rw [runStep_script hh hstep]
      rfl

/-- **One step** under the limit, refused or not. -/
theorem runKeeps_runStep (s : Step) : RunKeeps limit (runStep s) := by
  have hstep := (passesOn_stepKeeps limit).step s
  -- After a failure nothing more is begun.
  have hskip : ∀ h : Host Interpreter, h.own.failure.isSome = true → runStep s h = .ok () h :=
    fun h hh => if_pos hh
  refine ⟨fun h => ?_, fun h hh => ⟨(), h, hskip h hh, rfl⟩, fun h hh => ?_⟩
  · cases hfailure : h.own.failure with
    | none =>
      rw [pieces_runStep hfailure]
      exact hstep.grows (begun h)
    | some e =>
      rw [hskip h (by rw [hfailure]; rfl)]
      exact List.prefix_refl _
  · -- After a failure both hosts pass the step over.
    cases hfailure : h.own.failure with
    | some e =>
      have hsome : h.own.failure.isSome = true := by rw [hfailure]; rfl
      have hskipped' : runStep s (freed h) = .ok () (freed h) := hskip (freed h) hsome
      rw [hskip h hsome, hskipped']
      exact .ok hh
    | none =>
      have hfailure' : (freed h).own.failure = none := hfailure
      have hends := hstep.ends (begun h) ⟨hh.refusal, hh.room, hh.failure⟩
      have hafter : pieces (leftBy (runStep s (freed h))) =
          pieces (leftBy (step s (begun (freed h)))) :=
        pieces_runStep hfailure'
      generalize hrun : step s (begun h) = r at hends
      generalize hrun' : step s (begun (freed h)) = r' at hafter
      have hrun'' : step s (freed (begun h)) = r' := hrun'
      rw [hrun''] at hends
      -- Both complete it, both fail in the same way, or only the limited host is refused.
      cases hends with
      | ok ht =>
        rw [runStep_ok hfailure hrun, runStep_ok hfailure' hrun']
        exact .ok ht
      | @error e t he ht =>
        cases e with
        | fault f =>
          rw [runStep_fault hfailure hrun, runStep_fault hfailure' hrun']
          exact .error ht
        | script e =>
          rw [runStep_script hfailure hrun, runStep_script hfailure' hrun']
          refine .ok ⟨ht.refusal, ht.room, fun reason hreason => he reason ?_⟩
          exact congrArg StepFailure.script (Option.some.inj hreason)
      | refused ht =>
        rw [runStep_script hfailure hrun]
        exact .refused rfl (ht.congr rfl hafter)

/-- **Any list of steps.** -/
theorem runKeeps_runSteps (steps : List Step) : RunKeeps limit (runSteps steps) := by
  induction steps with
  | nil => exact runKeeps_pure ()
  | cons s rest ih => exact (runKeeps_runStep s).bind fun _ => ih

/-- A change of the machine writes nothing. -/
theorem runKeeps_change (wrap : Fault → ε) (f : Machine → Machine) :
    RunKeeps limit (Host.on wrap (change f) : EStateM ε (Host Interpreter) Unit) :=
  runKeeps_on wrap fun m => ⟨(), f m, rfl⟩

theorem runKeeps_runFrom (position : Nat) (blocks : List InitBlock) :
    RunKeeps limit (InitChain.runFrom position (blocks.map initializer)) := by
  induction blocks generalizing position with
  | nil => exact runKeeps_pure ()
  | cons b rest ih =>
    have hblock : RunKeeps limit (InitChain.runOne position (initializer b)) := by
      rw [InitChain.runOne_eq .main]
      exact (runKeeps_change _ _).bind fun _ => (runKeeps_runSteps b.steps).framed
    exact hblock.bind fun _ => ih (position + 1)

theorem runKeeps_runMain (s : Script) (system : Handle) :
    RunKeeps limit (runMain s.main system) := by
  rw [runMain_eq, Script.main_eq, remark_eq id]
  refine RunKeeps.framed ((runKeeps_change _ _).bind fun _ => ?_)
  exact (runKeeps_runSteps s.steps).framed.bind fun _ => runKeeps_pure _

/-- **A program goes on alike with a limit and without, up to a refusal.** -/
theorem runKeeps_run (s : Script) : RunKeeps limit s.run := by
  unfold Script.run runProgram
  simp only [InitChain.log_eq ProgramFailure.main]
  refine (runKeeps_change _ _).bind fun _ => RunKeeps.bind ?_ fun _ => ?_
  · rw [InitChain.run_eq]
    exact (runKeeps_runFrom 0 s.init).framed
  · refine (runKeeps_on _ fun m => ⟨_, _, rfl⟩).bind fun system => ?_
    refine (runKeeps_runMain s system).bind fun a => ?_
    exact (runKeeps_change _ _).bind fun _ => runKeeps_pure a

/-! ## Within a limit, and without

  What the relation between the two runs says about what was written, and where the limited run
  stopped. -/

/-- A script begins with nothing written. -/
theorem going_start (limit : Nat) (machine : Machine) (hint : Nat) :
    Going limit (start machine (.limited limit) hint) := by
  refine ⟨rfl, Nat.zero_le _, fun reason he => ?_⟩
  cases he

/-- The text of a refused output is what was written before, and the limit has room for it. -/
theorem Refused.text (hr : Refused limit h h') :
    (∃ rest, h'.own.out.text = h.own.out.text ++ rest) ∧ h.own.out.text.utf8ByteSize ≤ limit := by
  obtain ⟨before, piece, hbefore, ⟨more, hmore⟩, hroom, -⟩ := hr
  have htext : h.own.out.text = before.foldl (· ++ ·) "" := by
    -- The text before the refused piece is all that the limited host has written.
    rw [Output.text_eq]
    unfold pieces at hbefore
    rw [hbefore, List.foldl_append]
    exact String.append_empty
  constructor
  · refine ⟨([piece] ++ more).foldl (· ++ ·) "", ?_⟩
    unfold pieces at hmore
    rw [htext, Output.text_eq, ← hmore, List.append_assoc, List.foldl_append, Output.foldl_text]
  · unfold pieces at hbefore
    rw [Output.size_text, hbefore, Output.size_append]
    exact hroom

/-- What becomes of a script whose output was refused on the host `tight`, with the result `text` on
the host `t`, if without the limit the host `full` is left. -/
structure Overrun (limit : Nat) (s : Script) (tight : Host Interpreter) (text : String)
    (t full : Host Interpreter) : Prop where
  /-- The refused piece goes past the limit, and without a limit it is the next to be written. -/
  next : Refused limit t full
  /-- It was refused to the last step that was begun. -/
  step : ∃ h', FailsAt s.allSteps tight t.own.executed (.script (.unwritable "disk full")) h'
  /-- The later steps do nothing: all is as if the script had only the steps up to that one. -/
  first : (s.upTo t.own.executed).allSteps = s.allSteps.take t.own.executed
  rest : (s.upTo t.own.executed).run tight = .ok text t

/-- Two runs have the same result or the same failure, and leave hosts that differ in the limit of
the output only. -/
def SameEnd (r r' : EStateM.Result ε (Host Interpreter) α) : Prop :=
  BothEnd (fun a a' t t' => a' = a ∧ t' = freed t) (fun e e' t t' => e' = e ∧ t' = freed t) r r'

/-- How a script runs on a host `tight` with room for so many bytes, and on a host `wide` that has
no limit. -/
structure LimitAccount (limit : Nat) (s : Script) (tight wide : Host Interpreter) : Prop where
  /-- What is written is the beginning of what is written without a limit. -/
  beginning : ∃ rest,
    (leftBy (s.run wide)).own.out.text = (leftBy (s.run tight)).own.out.text ++ rest
  room : (leftBy (s.run tight)).own.out.text.utf8ByteSize ≤ limit
  /-- Unless output was refused, the limit makes no difference. -/
  same : (∀ reason, (leftBy (s.run tight)).own.failure ≠ some (.unwritable reason)) →
    SameEnd (s.run tight) (s.run wide)
  /-- If it was refused, the script ends well, however it would end without a limit. -/
  refused : ∀ reason, (leftBy (s.run tight)).own.failure = some (.unwritable reason) →
    ∃ text t, s.run tight = .ok text t ∧ Overrun limit s tight text t (leftBy (s.run wide))

/-- Without a refused write the whole account is that of one run. -/
theorem LimitAccount.of_same {s : Script} {tight wide : Host Interpreter}
    (hsame : SameEnd (s.run tight) (s.run wide)) (hgoing : Going limit (leftBy (s.run tight))) :
    LimitAccount limit s tight wide := by
  -- Nothing was refused, so the free run is the limited one without its limit.
  have hleft : leftBy (s.run wide) = freed (leftBy (s.run tight)) := by
    rcases both_end_iff.mp hsame with
      ⟨a, t, a', t', hrun, hrun', -, ht⟩ | ⟨e, t, e', t', hrun, hrun', -, ht⟩
    · rw [hrun, hrun']
      exact ht
    · rw [hrun, hrun']
      exact ht
  refine ⟨⟨"", ?_⟩, ?_, fun _ => hsame, fun reason he => (hgoing.failure reason he).elim⟩
  · rw [hleft]
    exact String.append_empty.symm
  · rw [Output.size_text]
    exact hgoing.room

/-- A script whose output was refused ended at the step that wrote it. -/
theorem overrun_of_refused {s : Script} {tight full t : Host Interpreter} {text : String}
    (htight : Fresh tight) (hrun : s.run tight = .ok text t)
    (hfailure : t.own.failure = some (.unwritable "disk full")) (hr : Refused limit t full) :
    Overrun limit s tight text t full := by
  have hsome : t.own.failure.isSome = true := by rw [hfailure]; rfl
  have hrest := ((cuts_run t.own.executed s).failed tight text t htight.counted hrun hsome).2 rfl
  refine ⟨hr, ?_, s.allSteps_upTo _, hrest⟩
  -- Someone has failed, as the failure is kept, and it was no fault, as the program has succeeded.
  rcases completes_or_fails s.allSteps tight with ⟨h', hall⟩ | ⟨n, e, h', hf⟩
  · obtain ⟨text', q, hrun', hq⟩ := run_of_completes htight (.refl _) hall
    rw [hrun] at hrun'
    obtain ⟨-, rfl⟩ := EStateM.Result.ok.inj hrun'
    rw [hq.failure] at hfailure
    cases hfailure
  · cases e with
    | fault f =>
      obtain ⟨q, hrun', -⟩ := run_of_fault htight (.refl _) hf
      rw [hrun] at hrun'
      cases hrun'
    | script e =>
      obtain ⟨text', q, hrun', hq⟩ := run_of_script_failure htight (.refl _) hf
      rw [hrun] at hrun'
      -- The failure is that of the step where the flat run failed, and that is the last one begun.
      obtain ⟨-, rfl⟩ := EStateM.Result.ok.inj hrun'
      rw [hq.failure] at hfailure
      obtain rfl := Option.some.inj hfailure
      rw [hq.executed]
      exact ⟨h', hf⟩

/-- **A limit of the output cuts a run short, and changes nothing else.** -/
theorem limit_account (s : Script) (machine : Machine) (hint limit : Nat) :
    LimitAccount limit s (start machine (.limited limit) hint) (start machine {} hint) := by
  have hends := (runKeeps_run s).ends _ (going_start limit machine hint)
  -- The free host is the limited one without its limit, so one relation speaks of both runs.
  have hfreed : freed (start machine (.limited limit) hint) = start machine {} hint := rfl
  rw [hfreed] at hends
  generalize hrun : s.run (start machine (.limited limit) hint) = r at hends
  generalize hrun' : s.run (start machine {} hint) = r' at hends
  cases hends with
  -- Both completed, or both failed in the same way: nothing was refused.
  | ok ht =>
    refine .of_same ?_ ?_
    · rw [hrun, hrun']
      exact ⟨rfl, rfl⟩
    · rw [hrun]
      exact ht
  | error ht =>
    refine .of_same ?_ ?_
    · rw [hrun, hrun']
      exact ⟨rfl, rfl⟩
    · rw [hrun]
      exact ht
  -- A piece was refused.
  | @refused text t _ hfailure hr =>
    refine ⟨?_, ?_, fun hnone => ?_, fun reason _ => ⟨text, t, hrun, ?_⟩⟩
    · rw [hrun, hrun']
      exact hr.text.1
    · rw [hrun]
      exact hr.text.2
    · rw [hrun] at hnone
      exact (hnone _ hfailure).elim
    · rw [hrun']
      exact overrun_of_refused (fresh_start machine _ hint) hrun hfailure hr

/-- A printed value and the end of its line are two pieces, and the disk is full in between: the
second step is the last that was begun, and the script ends well. -/
theorem limit_account_disk_full :
    let s : Script := { steps := [.print (.int 12), .print (.int 34), .print (.int 56)] }
    let tight := start {} (.limited 5) 0
    let t := leftBy (s.run tight)
    t.own.failure = some (.unwritable "disk full") ∧ t.own.out.text = "12\n34" ∧
      t.own.executed = 2 ∧ LimitAccount 5 s tight (start {} {} 0) := by
  intro s tight t
  exact ⟨by decide +kernel, by decide +kernel, by decide +kernel, limit_account s {} 0 5⟩

end Interpreter

end BoxRuntime
