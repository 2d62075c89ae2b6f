/-
  Refused calls.

  A call that fails leaves the machine exactly as it was: no content of a list, set or map, no
  count, no box, no number to come and no record in the log is different afterwards.  This holds on
  every machine and for all arguments (`Call.restores`).  For most operations it is plain, since
  they fail before they do anything.  Those that add to a container have made handles by then, and
  what is shown of them in `Machine.Plan` is used here: a container that refuses is left as it was,
  and giving the handles back undoes the making of them.

  What a client holds is different only after a release that failed.  The client has given the
  handle away, and nobody counted it down.  So the box stays live for good, with the one count that
  the lost handle stands for (`Reachable.refused`).
-/
import BoxRuntime.Proofs.Machine.Client

namespace BoxRuntime

namespace Machine

variable {α β : Type} {m m' : Machine} {f : Fault}

/-- An operation that leaves the machine as it was if it fails. -/
def Restores (op : Op α) : Prop :=
  ∀ m f m', op m = .error f m' → m' = m

/-- An operation that does what is planned leaves the machine alone if the plan fails. -/
theorem Does.restores {op : Op α} {plan : Except Fault (α × Patch)} (hd : m.Does op plan)
    (hfail : op m = .error f m') : m' = m := by
  cases plan with
  | ok r =>
    obtain ⟨logger, hok⟩ := hd
    rw [hok] at hfail
    cases hfail
  | error g =>
    have hsame : op m = .error g m := hd
    rw [hsame] at hfail
    exact (EStateM.Result.error.inj hfail).2.symm

theorem Boxes.restores {op : Op Handle} {plan : Except Fault (Datum × Content)}
    (hd : m.Boxes op plan) (hfail : op m = .error f m') : m' = m := by
  cases plan with
  | ok r =>
    have hok : op m = .ok _ _ := hd
    rw [hok] at hfail
    cases hfail
  | error g =>
    have hsame : op m = .error g m := hd
    rw [hsame] at hfail
    exact (EStateM.Result.error.inj hfail).2.symm

/-- What has a plan for every machine restores. -/
theorem restores_of_does {op : Op α} {plan : Machine → Except Fault (α × Patch)}
    (hd : ∀ m : Machine, m.Does op (plan m)) : Restores op :=
  fun m _ _ hfail => (hd m).restores hfail

theorem restores_of_boxes {op : Op Handle} {plan : Machine → Except Fault (Datum × Content)}
    (hd : ∀ m : Machine, m.Boxes op (plan m)) : Restores op :=
  fun m _ _ hfail => (hd m).restores hfail

/-- What is made of the result has no part in a failure. -/
theorem Restores.map {op : Op α} (hop : Restores op) (g : α → β) : Restores (g <$> op) := by
  intro m f m' hfail
  cases hrun : op m with
  | ok a m₁ =>
    rw [run_map hrun] at hfail
    cases hfail
  | error e m₁ =>
    rw [run_map_error hrun] at hfail
    obtain ⟨rfl, rfl⟩ := EStateM.Result.error.inj hfail
    exact hop m e m₁ hrun

end Machine

open Machine in
/-- A call that fails leaves the machine as it was. -/
theorem Call.restores (call : Call) : Restores call.perform := by
  -- Each has a plan for every machine, for what is there or for what is made.
  cases call with
  | boxString text => exact (restores_of_boxes fun _ => boxes_newBox _ _).map _
  | boxInt n => exact (restores_of_boxes fun _ => boxes_newBox _ _).map _
  | emptyBox tag => exact (restores_of_boxes fun _ => boxes_emptyBox tag).map _
  | newList hint => exact (restores_of_boxes fun _ => boxes_newList hint).map _
  | newSet elementType => exact (restores_of_boxes fun _ => boxes_newBox _ _).map _
  | newMap keyType => exact (restores_of_boxes fun _ => boxes_newBox _ _).map _
  | retain v => exact (restores_of_does fun _ => does_retain v).map _
  | drop v => exact (restores_of_does fun _ => does_drop v).map _
  | release v deep => exact (restores_of_does fun _ => does_release v deep).map _
  | upgrade v => exact (restores_of_does fun _ => does_upgrade v).map _
  | listAppend list v => exact (restores_of_does fun _ => does_listAppend list v).map _
  | listGet list i => exact (restores_of_does fun _ => does_listGet list i).map _
  | setAdd set v => exact (restores_of_does fun _ => does_setAdd set v).map _
  | setContains set v => exact (restores_of_does fun _ => does_setContains set v).map _
  | setElements set => exact (restores_of_does fun _ => does_setElements set).map _
  | mapAdd map key value => exact (restores_of_does fun _ => does_mapAdd map key value).map _
  | mapGet map key => exact (restores_of_does fun _ => does_mapGet map key).map _
  | mapEntries map => exact (restores_of_does fun _ => does_mapEntries map).map _
  | indexOf collection key => exact (restores_of_does fun _ => does_indexOf collection key).map _
  | lengthOf v => exact (restores_of_boxes fun _ => boxes_lengthOf v).map _
  | treeStats v => exact (restores_of_does fun _ => does_treeStats v).map _

/-- Giving up a handle in silence never fails. -/
theorem Call.drop_ne_error (v : Handle) (m m' : Machine) (f : Fault) :
    (Call.drop v).perform m ≠ .error f m' := by
  intro hfail
  cases hfail

/-- The only release that fails is a deep one, of the last handle of a container. -/
theorem Call.release_error {v : Handle} {deep : Bool} {m m' : Machine} {f : Fault}
    (hfail : (Call.release v deep).perform m = .error f m') :
    deep = true ∧ f = .unsupported "release" v.tag ∧ m.heap.count v.id ≤ 1 := by
  have hdoes := Machine.does_release (m := m) v deep
  -- The plan decides, and it fails in one case only.
  cases hplan : Plan.release m.heap v deep with
  | ok r =>
    rw [hplan] at hdoes
    obtain ⟨logger, hok⟩ := hdoes
    have hperform := run_map hok fun _ => ([] : List Handle)
    have hboth := hperform.symm.trans hfail
    cases hboth
  | error g =>
    rw [hplan] at hdoes
    have hperform := run_map_error hdoes fun _ => ([] : List Handle)
    obtain ⟨rfl, -⟩ := EStateM.Result.error.inj (hperform.symm.trans hfail)
    obtain ⟨hdeep, hfault⟩ := Plan.release_eq_error hplan
    refine ⟨hdeep, hfault, ?_⟩
    unfold Plan.release at hplan
    split at hplan
    · rename_i hlast
      have hnone : m.heap.count v.id - 1 = 0 := hlast.1
      omega
    · cases hplan

namespace Client

/-- What a call that failed with a fault did to a client and its machine. -/
structure Refused (c : Client) (call : Call) (f : Fault) : Prop where
  /-- Contents, counts, boxes, the next number and the log are those from before. -/
  machine_eq : (c.step call).machine = c.machine
  /-- Unless it was a release, the client has what it had. -/
  kept : (∀ v deep, call ≠ .release v deep) →
    (c.step call).held = c.held ∧ (c.step call).lost = c.lost
  /-- A release took the handle, which is lost: its box is live and counts it still. -/
  released : ∀ v deep, call = .release v deep → v ∈ c.held →
    deep = true ∧ f = .unsupported "release" v.tag ∧
      c.held.Perm (v :: (c.step call).held) ∧ (c.step call).lost = v :: c.lost ∧
      (c.step call).machine.heap.count v.id = 1 ∧ (c.step call).isLive v.id = true

variable {c : Client} {call : Call} {f : Fault} {m : Machine}

/-- A call that fails gives the client nothing. -/
theorem step_of_error (hfail : call.perform c.machine = .error f m) :
    c.step call =
      { machine := m, held := c.kept call, lost := call.lost f ++ c.lost, known := c.known } := by
  unfold step
  rw [hfail]

/-- **A call that fails changes nothing.**  In every state that a client can reach, whatever the
operation and its arguments, the machine is afterwards what it was before.  The client has what it
had, but for a handle that it tried to release: that one is lost, and its box is never freed. -/
theorem Reachable.refused (hr : Reachable c) (hfail : call.perform c.machine = .error f m) :
    c.Refused call f := by
  have hmachine : m = c.machine := call.restores c.machine f m hfail
  have hstep := step_of_error hfail
  refine ⟨?_, ?_, ?_⟩
  · rw [hstep]
    exact hmachine
  · intro hother
    rw [hstep]
    cases call with
    | release v deep => exact absurd rfl (hother v deep)
    | drop v => exact absurd hfail (Call.drop_ne_error v c.machine m f)
    | _ => exact ⟨rfl, rfl⟩
  · rintro v deep rfl hheld
    obtain ⟨rfl, rfl, hle⟩ := Call.release_error hfail
    -- the box is live, as the client holds a handle, so the count is one
    have haccounted := hr.accounted
    have hlive : c.isLive v.id = true := haccounted.held_live v hheld
    have hpositive := (haccounted.live_iff v.id).mp hlive
    rw [← haccounted.count_eq v.id hlive] at hpositive
    rw [hstep, hmachine]
    refine ⟨rfl, rfl, List.perm_cons_erase hheld, rfl, ?_, hlive⟩
    show c.machine.heap.count v.id = 1
    omega

/-- A client that offers a string to a set of numbers and has it back, and then asks for the content
of its only list and loses the list. -/
theorem refused_string_and_release : ∃ c : Client, Reachable c ∧
    (∃ m, (Call.setAdd ⟨2, .set⟩ ⟨3, .string "a"⟩).perform c.machine =
        .error (.elementMismatch .int .string) m ∧
      c.Refused (.setAdd ⟨2, .set⟩ ⟨3, .string "a"⟩) (.elementMismatch .int .string)) ∧
    ∃ m, (Call.release ⟨1, .list⟩ true).perform c.machine =
        .error (.unsupported "release" .list) m ∧
      c.Refused (.release ⟨1, .list⟩ true) (.unsupported "release" .list) := by
  let made := ((({ machine := {} } : Client).step (.newList 0)).step (.newSet .int)).step
    (.boxString "a")
  have hstart : Reachable { machine := {} } := Reachable.start {} .silent (1 <<< 50)
  have hmade : Reachable made :=
    ((hstart.step ⟨by decide, by decide⟩).step ⟨by decide, by decide⟩).step
      ⟨by decide, by decide⟩
  -- the set has a handle of the string before it finds that it wants a number
  have hadd : (Call.setAdd ⟨2, .set⟩ ⟨3, .string "a"⟩).perform made.machine =
      .error (.elementMismatch .int .string) made.machine := by
    have hdoes := Machine.does_setAdd (m := made.machine) ⟨2, .set⟩ ⟨3, .string "a"⟩
    exact run_map_error hdoes fun _ => []
  have hrelease : (Call.release ⟨1, .list⟩ true).perform made.machine =
      .error (.unsupported "release" .list) made.machine := rfl
  exact ⟨made, hmade, ⟨_, hadd, Reachable.refused hmade hadd⟩,
    ⟨_, hrelease, Reachable.refused hmade hrelease⟩⟩

end Client

end BoxRuntime
