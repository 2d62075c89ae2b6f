/-
  What names denote.

  A step may have a name for what it makes or finds (`target`).  The boxes themselves are made and
  found as if there were no name (`product`), and only then is the name given.  So after a run that
  completes, what a name denotes can be read off the list of the steps and their products
  (`denoted`): it is the last product that it was given, unless it has been freed since.

  There is one step that may complete without a product: a list need not have an element at the
  position asked for.  Then the name is not touched.  It is unbound afterwards if it was unbound
  before, and otherwise it still denotes what an earlier step gave it (`stale_name`).
-/
import BoxRuntime.Proofs.Machine.Lists
import BoxRuntime.Proofs.Script.Flat
import BoxRuntime.Proofs.Script.Parts

namespace BoxRuntime

namespace Step

/-- The name that a step has for what it makes or finds. -/
def target : Step → Option String
  | setNew name _ | mapNew name _ | listNew name _ | box name _ => some name
  | listGet target _ _ | indexOf target _ _ | lengthOf target _ => target
  | setAdd .. | mapAdd .. | listAppend .. | print _ | release .. => none

/-- The name that a step frees. -/
def released : Step → Option String
  | release name _ => some name
  | _ => none

/-- The names after a step that has made or found something, or has not. -/
def named (s : Step) (found : Option Handle) (names : Names) : Names :=
  match s.released, s.target, found with
  | some name, _, _ => names.erase name
  | none, some name, some v => names.put name v
  | none, _, _ => names

end Step

/-- What a name denotes after steps with their products, if it denoted `old` before. -/
def denoted (name : String) : List (Step × Option Handle) → Option Handle → Option Handle
  | [], old => old
  | (s, found) :: rest, old =>
    denoted name rest <|
      if s.released = some name then none
      else if s.target = some name then found.or old
      else old

namespace Step

/-- No step frees one name and has another for its product. -/
theorem target_of_released {s : Step} {name : String} (h : s.released = some name) :
    s.target = none := by
  cases s with
  | release => rfl
  | _ => cases h

/-- After a step a name denotes what the step bound to it, nothing if the step released it, and else
what it did before. -/
theorem get?_named (s : Step) (found : Option Handle) (names : Names) (name : String) :
    (s.named found names).get? name =
      if s.released = some name then none
      else if s.target = some name then found.or (names.get? name)
      else names.get? name := by
  unfold named
  -- A name is taken by a release or given by a `let`, and no step does both.
  cases hreleased : s.released with
  | some other =>
    rw [target_of_released hreleased]
    by_cases hother : other = name
    · rw [if_pos (congrArg some hother), hother]
      exact Names.get?_erase_self names name
    · rw [if_neg fun h => hother (Option.some.inj h), if_neg nofun]
      exact Names.lookup_filter_ne fun h => hother h.symm
  | none =>
    rw [if_neg nofun]
    cases s.target with
    | none =>
      rw [if_neg nofun]
    -- The `let` is for this name or for another, and it may have had nothing to give.
    | some other =>
      by_cases hother : other = name
      · rw [if_pos (congrArg some hother), hother]
        cases found with
        | none => rfl
        | some v => exact Names.get?_put_self names name v
      · rw [if_neg fun h => hother (Option.some.inj h)]
        cases found with
        | none => rfl
        | some v => exact Names.get?_put_of_ne fun h => hother h.symm

end Step

namespace Interpreter

/-! ## Names left alone

  Most parts of a step have nothing to do with names; their lemma is that they keep them. -/

/-- An action that leaves names alone. -/
def KeepsNames (α : Type) (x : StepAct α) : Prop :=
  ∀ h, (leftBy (x h)).own.names = h.own.names

variable {α β : Type} {h h' t : Host Interpreter}

/-- Two actions that keep the names keep them together. -/
theorem KeepsNames.bind {x : StepAct α} {k : α → StepAct β} (hx : KeepsNames α x)
    (hk : ∀ a, KeepsNames β (k a)) : KeepsNames β (x >>= k) :=
  leftBy_bind (fun h t : Host Interpreter => t.own.names = h.own.names)
    (fun hfirst hrest => hrest.trans hfirst) hx hk

/-- What keeps the names and succeeds leaves them as they were. -/
theorem KeepsNames.run {x : StepAct α} (hx : KeepsNames α x) {a : α} (hrun : x h = .ok a t) :
    t.own.names = h.own.names := by
  have hkeeps := hx h
  rw [hrun] at hkeeps
  exact hkeeps

/-- Using up a handle keeps the names. -/
theorem keepsNames_consuming (v : Handle) {work : StepAct α} (hwork : KeepsNames α work) :
    KeepsNames α (consuming v work) := by
  intro h
  rw [leftBy_consuming]
  exact hwork h

theorem keepsNames_lookup (name : String) : KeepsNames Handle (lookup name) := by
  intro h
  cases hv : h.own.names.get? name with
  | some v => rw [run_lookup hv, leftBy]
  | none => rw [run_lookup_none hv, leftBy]

theorem keepsNames_write (s : String) : KeepsNames Unit (write s) := by
  intro h
  cases hs : (h.own.out.write s).1 with
  | none => rw [run_write hs, leftBy]
  | some reason => rw [run_write_refused hs, leftBy]

/-- Only giving and freeing names changes them. -/
theorem passes_keepsNames : Passes KeepsNames where
  pure _ _ := rfl
  bind := KeepsNames.bind
  consuming := keepsNames_consuming
  on op h := congrArg Interpreter.names (own_on _ op h)
  defaultHint _ := rfl
  lookup := keepsNames_lookup
  write := keepsNames_write
  remark _ _ _ := rfl

/-! ## Products

  A step without its name: what it makes or finds. -/

/-- What a step makes or finds, a name for it or none. -/
def product : Step → StepAct (Option Handle)
  | .setNew _ tag => some <$> on (Machine.newSet (tag.getD .none))
  | .mapNew _ tag => some <$> on (Machine.newMap (tag.getD .none))
  | .listNew _ hint => do
    some <$> on (Machine.newList (hint.getD (← get).own.defaultSizeHint))
  | .box _ value => some <$> handleOf value
  | .listGet _ list index => do on (Machine.listGet (← lookup list) index)
  | .indexOf _ collection key =>
    holding key fun k => do some <$> on (Machine.indexOf (← lookup collection) k)
  | .lengthOf _ collection => do some <$> on (Machine.lengthOf (← lookup collection))
  | .setAdd .. | .mapAdd .. | .listAppend .. | .print _ | .release .. => pure none

/-- The list under a name has no element at the position. -/
def PastEnd (list : String) (index : Nat) (h : Host Interpreter) : Prop :=
  ∃ v slots, h.own.names.get? list = some v ∧
    h.machine.heap.content? v.id = some (.list slots) ∧ slots.size ≤ index

/-! ## Steps

  A step that completes has made its product, and has named it if it has a name. -/

theorem keepsNames_printed (v : Handle) : KeepsNames Unit (consuming v (printBox v)) :=
  keepsNames_consuming v (passes_keepsNames.printBox v)

/-- What comes of the work is given the name, if there is one. -/
theorem names_bindOrPrint {target : Option String} {v : Handle}
    (hrun : bindOrPrint target v h = .ok () h') :
    h'.own.names = target.elim h.own.names fun name => h.own.names.put name v := by
  cases target with
  | none => exact (keepsNames_printed v).run hrun
  | some name =>
    have hbind : bind name v h = .ok () h' := hrun
    rw [run_bindName] at hbind
    obtain ⟨-, rfl⟩ := EStateM.Result.ok.inj hbind
    rfl

/-- Something is made or found, and then named or printed. -/
theorem named_of_make {make : StepAct Handle} (target : Option String)
    (hkeeps : KeepsNames Handle make) (hrun : (make >>= bindOrPrint target) h = .ok () h') :
    ∃ v t, (some <$> make) h = .ok (some v) t ∧
      h'.own.names = target.elim h.own.names fun name => h.own.names.put name v := by
  obtain ⟨v, t, hmake, hgive⟩ := between_of_run hrun
  refine ⟨v, t, run_map hmake some, ?_⟩
  rw [← hkeeps.run hmake]
  exact names_bindOrPrint hgive

/-- The handle is given up once the work is done. -/
theorem run_of_consuming {v : Handle} {work : StepAct α} {a : α}
    (hrun : consuming v work h = .ok a h') : ∃ t, work h = .ok a t ∧ h' = giveUp v t := by
  cases hwork : work h with
  | ok a' t =>
    rw [run_consuming hwork] at hrun
    obtain ⟨rfl, rfl⟩ := EStateM.Result.ok.inj hrun
    exact ⟨t, rfl, rfl⟩
  | error e t =>
    rw [run_consuming_error hwork] at hrun
    cases hrun

/-- **A step gives its name to its product.** -/
theorem named_of_step {s : Step} (hstep : step s h = .ok () h') :
    ∃ found t, product s h = .ok found t ∧ h'.own.names = s.named found h.own.names := by
  have hkeep := passes_keepsNames
  cases s with
  | setNew name tag =>
    obtain ⟨v, t, hmake, hnames⟩ := named_of_make (some name) (hkeep.on _) hstep
    exact ⟨some v, t, hmake, hnames⟩
  | mapNew name tag =>
    obtain ⟨v, t, hmake, hnames⟩ := named_of_make (some name) (hkeep.on _) hstep
    exact ⟨some v, t, hmake, hnames⟩
  | listNew name hint =>
    obtain ⟨v, t, hmake, hnames⟩ := named_of_make (some name) (hkeep.on _) hstep
    exact ⟨some v, t, hmake, hnames⟩
  | box name value =>
    obtain ⟨v, t, hmake, hnames⟩ :=
      named_of_make (some name) (hkeep.handleOf _) hstep
    exact ⟨some v, t, hmake, hnames⟩
  | setAdd name value =>
    have hkeeps : KeepsNames Unit (step (.setAdd name value)) :=
      hkeep.holding value fun v => hkeep.bind (hkeep.lookup name) fun _ => hkeep.on _
    exact ⟨none, h, rfl, hkeeps.run hstep⟩
  | mapAdd name key value =>
    have hkeeps : KeepsNames Unit (step (.mapAdd name key value)) :=
      hkeep.holding key fun k => hkeep.holding value fun v =>
        hkeep.bind (hkeep.lookup name) fun _ => hkeep.on _
    exact ⟨none, h, rfl, hkeeps.run hstep⟩
  | listAppend name value =>
    have hkeeps : KeepsNames Unit (step (.listAppend name value)) :=
      hkeep.holding value fun v => hkeep.bind (hkeep.lookup name) fun _ => hkeep.on _
    exact ⟨none, h, rfl, hkeeps.run hstep⟩
  | print value =>
    have hkeeps : KeepsNames Unit (step (.print value)) :=
      hkeep.holding value fun v => hkeep.printBox v
    exact ⟨none, h, rfl, hkeeps.run hstep⟩
  | listGet target list index =>
    obtain ⟨v, mid, hlist, hrest⟩ := between_of_run hstep
    obtain ⟨found, t, hget, hgive⟩ := between_of_run hrest
    have hproduct : product (.listGet target list index) h = .ok found t :=
      (run_bind hlist _).trans hget
    have hnames : t.own.names = h.own.names :=
      ((hkeep.on _).run hget).trans ((hkeep.lookup list).run hlist)
    refine ⟨found, t, hproduct, ?_⟩
    rw [← hnames]
    cases found with
    | some v' => cases target <;> exact names_bindOrPrint hgive
    | none =>
      cases target with
      | some name => exact (hkeep.remark _ _).run hgive
      | none => exact (hkeep.write _).run hgive
  | indexOf target collection key =>
    -- the key is given up at the end, after the name is given
    obtain ⟨k, mid, hkey, hrest⟩ := between_of_run hstep
    obtain ⟨last, hwork, rfl⟩ := run_of_consuming hrest
    obtain ⟨v, mid', hcollection, hfind⟩ := between_of_run hwork
    obtain ⟨found, t, hindex, hnames⟩ := named_of_make target (hkeep.on _) hfind
    refine ⟨some found, giveUp k t, ?_, ?_⟩
    · refine (run_bind hkey _).trans (run_consuming ?_)
      exact (run_bind hcollection _).trans hindex
    · have hbefore := ((hkeep.lookup collection).run hcollection).trans
        ((hkeep.handleOf key).run hkey)
      rw [hbefore] at hnames
      cases target <;> exact hnames
  | lengthOf target collection =>
    obtain ⟨v, mid, hcollection, hfind⟩ := between_of_run hstep
    obtain ⟨found, t, hlength, hnames⟩ := named_of_make target (hkeep.on _) hfind
    refine ⟨some found, t, (run_bind hcollection _).trans hlength, ?_⟩
    rw [(hkeep.lookup collection).run hcollection] at hnames
    cases target <;> exact hnames
  | release name deep =>
    obtain ⟨v, mid, htake, hrest⟩ := between_of_run hstep
    obtain ⟨remaining, t, hrelease, hremark⟩ := between_of_run hrest
    obtain ⟨v', mid', hlookup, herase⟩ := between_of_run htake
    refine ⟨none, h, rfl, ?_⟩
    rw [(hkeep.remark _ _).run hremark, (hkeep.on _).run hrelease]
    obtain ⟨-, rfl⟩ := EStateM.Result.ok.inj herase
    exact congrArg (Names.erase · name) ((hkeep.lookup name).run hlookup)

/-- A name that is found denotes a box, and nothing changes. -/
theorem run_of_lookup {name : String} {v : Handle} (hrun : lookup name h = .ok v t) :
    h.own.names.get? name = some v ∧ h = t := by
  cases hv : h.own.names.get? name with
  | some v' =>
    rw [run_lookup hv] at hrun
    obtain ⟨rfl, rfl⟩ := EStateM.Result.ok.inj hrun
    exact ⟨rfl, rfl⟩
  | none =>
    rw [run_lookup_none hv] at hrun
    cases hrun

/-- A list that has nothing at a position ends before it. -/
theorem size_of_listGet {v : Handle} {index : Nat}
    (hget : on (Machine.listGet v index) h = .ok none t) :
    ∃ slots, h.machine.heap.content? v.id = some (.list slots) ∧ slots.size ≤ index := by
  have hdoes := Machine.does_listGet (m := h.machine) v index
  -- It has succeeded, so there is a list.
  cases hlist : h.machine.heap.listOf "list_get" v with
  | error f =>
    rw [Plan.listGet, hlist] at hdoes
    rw [run_on_error hdoes] at hget
    cases hget
  | ok slots =>
    rw [Plan.listGet, hlist] at hdoes
    obtain ⟨m, hok⟩ := Machine.Does.succeeds (r := Plan.pick slots index) hdoes
    rw [run_on hok] at hget
    obtain ⟨hnone, -⟩ := EStateM.Result.ok.inj hget
    refine ⟨slots, Heap.content?_of_listOf hlist, ?_⟩
    -- What was found is what stands at the position.
    cases hfound : slots.get? index with
    | none => exact Array.getElem?_eq_none_iff.mp hfound
    | some v' =>
      rw [Machine.pick_of_get? hfound] at hnone
      cases hnone

/-- Every step that has a name has a product to give it, but for reading a list past its end. -/
theorem pastEnd_of_product {s : Step} {name : String} (hname : s.target = some name)
    (hproduct : product s h = .ok none t) :
    ∃ list index, s = .listGet (some name) list index ∧ PastEnd list index h := by
  -- A step that ends in `some` cannot have come to nothing.
  have hsome : ∀ {x : StepAct Handle} {h t : Host Interpreter}, (some <$> x) h ≠ .ok none t := by
    intro x h t hmap
    cases hx : x h with
    | ok v mid =>
      rw [run_map hx] at hmap
      cases hmap
    | error e mid =>
      rw [run_map_error hx] at hmap
      cases hmap
  -- All producers but one end so; the one that does not is the reading of a list.
  cases s with
  | setNew _ tag => exact (hsome hproduct).elim
  | mapNew _ tag => exact (hsome hproduct).elim
  | listNew _ hint => exact (hsome hproduct).elim
  | box _ value => exact (hsome hproduct).elim
  -- An operand is held meanwhile, so the search is found under two layers.
  | indexOf _ collection key =>
    obtain ⟨k, mid, -, hrest⟩ := between_of_run hproduct
    obtain ⟨last, hwork, -⟩ := run_of_consuming hrest
    obtain ⟨v, mid', -, hfind⟩ := between_of_run hwork
    exact (hsome hfind).elim
  | lengthOf _ collection =>
    obtain ⟨v, mid, -, hfind⟩ := between_of_run hproduct
    exact (hsome hfind).elim
  | listGet target list index =>
    obtain ⟨v, mid, hlist, hget⟩ := between_of_run hproduct
    obtain ⟨hv, rfl⟩ := run_of_lookup hlist
    obtain ⟨slots, hslots, hsize⟩ := size_of_listGet hget
    exact ⟨list, index, congrArg (Step.listGet · list index) hname, v, slots, hv, hslots, hsize⟩
  | _ => cases hname

/-! ## Runs

  By induction over the steps that completed, the last product first. -/

/-- The steps complete one after another, each with its product, and the last leaves the second
host. -/
inductive Yields : List (Step × Option Handle) → Host Interpreter → Host Interpreter → Prop where
  | nil (h : Host Interpreter) : Yields [] h h
  | cons {s : Step} {found : Option Handle} {rest : List (Step × Option Handle)}
      {h t mid h' : Host Interpreter} : product s (begun h) = .ok found t →
      step s (begun h) = .ok () mid → Yields rest mid h' → Yields ((s, found) :: rest) h h'

/-- Steps that complete have a product each, or none. -/
theorem yields_of_completes {steps : List Step} (hall : Completes steps h h') :
    ∃ trace, trace.map Prod.fst = steps ∧ Yields trace h h' := by
  induction hall with
  | nil h => exact ⟨[], rfl, .nil h⟩
  | @cons s rest h mid h' hstep _ ih =>
    obtain ⟨found, t, hproduct, -⟩ := named_of_step hstep
    obtain ⟨trace, hsteps, hyields⟩ := ih
    exact ⟨(s, found) :: trace, congrArg (s :: ·) hsteps, .cons hproduct hstep hyields⟩

/-- A product that was computed is the product of the step. -/
theorem names_of_step {s : Step} {found : Option Handle} (hproduct : product s h = .ok found t)
    (hstep : step s h = .ok () h') : h'.own.names = s.named found h.own.names := by
  obtain ⟨found', t', hproduct', hnames⟩ := named_of_step hstep
  obtain ⟨rfl, -⟩ := EStateM.Result.ok.inj (hproduct.symm.trans hproduct')
  exact hnames

/-- **What a name denotes after a run can be read off the steps and their products.** -/
theorem denoted_of_yields {trace : List (Step × Option Handle)} (hyields : Yields trace h h')
    (name : String) : h'.own.names.get? name = denoted name trace (h.own.names.get? name) := by
  induction hyields with
  | nil h => rfl
  | @cons s found rest h t mid h' hproduct hstep _ ih =>
    have hnames : mid.own.names = s.named found h.own.names :=
      names_of_step (h := begun h) hproduct hstep
    rw [ih, denoted, hnames, Step.get?_named]

/-- What a name denotes after a step with this name and product, when the steps and products before
it are known. -/
structure LetAccount (name : String) (s : Step) (found : Option Handle)
    (trace : List (Step × Option Handle)) (h mid h' : Host Interpreter) : Prop where
  /-- The name denotes the product of the step. -/
  given : ∀ v, found = some v → h'.own.names.get? name = some v
  /-- There is always a product, unless the step reads a list past its end. -/
  missing : found = none →
    ∃ list index, s = .listGet (some name) list index ∧ PastEnd list index mid
  /-- Without a product the name denotes what it was given last, unless it was freed since. -/
  kept : found = none → h'.own.names.get? name = denoted name trace (h.own.names.get? name)

/-- **The name of a step denotes its product, if it has one.** -/
theorem let_account {before : List Step} {s : Step} {name : String} {h mid h' : Host Interpreter}
    (hbefore : Completes before h mid) (hstep : step s (begun mid) = .ok () h')
    (hname : s.target = some name) :
    ∃ trace found t, trace.map Prod.fst = before ∧ Yields trace h mid ∧
      product s (begun mid) = .ok found t ∧ LetAccount name s found trace h mid h' := by
  obtain ⟨trace, hsteps, hyields⟩ := yields_of_completes hbefore
  obtain ⟨found, t, hproduct, hnames⟩ := named_of_step hstep
  refine ⟨trace, found, t, hsteps, hyields, hproduct, ?_⟩
  -- A step that gives a name takes none.
  have hreleased : s.released ≠ some name := by
    intro hreleased
    rw [Step.target_of_released hreleased] at hname
    cases hname
  have hdenoted : h'.own.names.get? name = found.or (mid.own.names.get? name) := by
    rw [hnames, Step.get?_named, if_neg hreleased, if_pos hname]
    rfl
  -- Before the step the name denoted what the steps before it had left there.
  rw [denoted_of_yields hyields] at hdenoted
  refine ⟨fun v hv => ?_, fun hnone => ?_, fun hnone => ?_⟩
  · rw [hdenoted, hv, Option.some_or]
  · rw [hnone] at hproduct
    exact pastEnd_of_product (h := begun mid) hname hproduct
  · rw [hdenoted, hnone, Option.none_or]

/-- A name that was in use denotes the length that it is given. -/
theorem let_account_length : ∃ mid h' v,
    Completes [.listNew "l" none, .box "x" (.text "old")] (start {} {} 0) mid ∧
      step (.lengthOf (some "x") "l") (begun mid) = .ok () h' ∧
      h'.own.names.get? "x" = some v ∧ v.text = "0" := by
  refine ⟨_, _, ⟨3, .int 0⟩, .cons rfl (.cons rfl (.nil _)), rfl, ?_, by decide⟩
  have hname : (Step.lengthOf (some "x") "l").target = some "x" := rfl
  obtain ⟨trace, found, t, -, -, hproduct, haccount⟩ :=
    let_account (h := start {} {} 0) (.cons (s := .listNew "l" none) rfl
      (.cons (s := .box "x" (.text "old")) rfl (.nil _))) rfl hname
  have hfound : found = some ⟨3, .int 0⟩ := (EStateM.Result.ok.inj hproduct).1.symm
  exact haccount.given _ hfound

/-- A list has nothing at position zero, and the name for it still denotes what it did before.  The
next step finds the older box under it. -/
theorem stale_name : ∃ mid h' t v,
    Completes [.listNew "l" none, .box "x" (.text "old")] (start {} {} 0) mid ∧
      step (.listGet (some "x") "l" 0) (begun mid) = .ok () h' ∧
      product (.listGet (some "x") "l" 0) (begun mid) = .ok none t ∧
      lookup "x" (begun h') = .ok v (begun h') ∧ v.text = "old" :=
  ⟨_, _, _, ⟨2, .string "old"⟩, .cons rfl (.cons rfl (.nil _)), rfl, rfl, rfl, by decide⟩

end Interpreter

end BoxRuntime
