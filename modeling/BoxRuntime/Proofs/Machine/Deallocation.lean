/-
  Which freed boxes the log tells of.

  A box is freed in several ways.  Its last handle is released or dropped, a container that had its
  last handle is freed, or it was the value under a key that gets another.  If boxes are traced, the
  log tells of the first way and of no other: a release says that it frees the box of its own
  handle, and nothing is said by the cascade that frees what that box owned.

  So a record of a freed box is true, and there are no two for one box (`deallocations_logged`), but
  not every freed box has one (`freed_in_silence`).

  The argument is that a call says that a box is freed exactly when it is a release that frees it
  (`notesOn_freed_step`), and that a box that is freed stays so.
-/
import BoxRuntime.Proofs.Machine.Logging

namespace BoxRuntime

/-- Giving up a handle frees its box if that is the last one. -/
theorem Heap.isLive_dropAll_self {h : Heap} {v : Handle} {cell : Cell}
    (hcell : h.cell? v.id = some cell) :
    (h.dropAll [v]).isLive v.id = false ↔ cell.others = 0 := by
  by_cases hlast : cell.others = 0
  · refine iff_of_true ?_ hlast
    rw [dropAll_last hcell hlast, ← Bool.not_eq_true]
    intro hstill
    -- it cannot have outlived the cascade, as it was not there any more
    obtain ⟨cell', hcell'⟩ := isLive_iff.mp hstill
    have hbefore := content?_dropAll (content?_eq_some.mpr ⟨cell', hcell', rfl⟩)
    rw [content?, cell?_free, if_pos rfl] at hbefore
    cases hbefore
  · refine iff_of_false (fun hfreed => ?_) hlast
    rw [dropAll_other hcell hlast, dropAll_nil, countDown, isLive, cell?_update, if_pos rfl,
      hcell] at hfreed
    cases hfreed

/-- What is said when a call frees the box with a number: the box of the handle is told of by a
release. -/
def Call.farewell (id : Nat) : Call → List Note
  | release v deep => if v.id = id then [.freed v deep] else []
  | _ => []

namespace Client

variable {c : Client} {call : Call} {calls : List Call} {id : Nat}

/-! ## One call

  Of all calls only a release speaks of a box that is freed, and only of the one that it was called
  with. -/

/-- A release frees the box of its handle if that is the last one, unless it fails. -/
theorem frees_release (hr : Reachable c) {v : Handle} {deep : Bool}
    (hallow : c.Allows (.release v deep)) :
    c.Frees (.release v deep) v.id ↔
      c.machine.heap.count v.id - 1 = 0 ∧ ¬(deep ∧ v.tag.isContainer) := by
  have hlive : c.isLive v.id = true := hr.accounted.held_live v (hallow.1 v List.mem_cons_self)
  obtain ⟨cell, hcell⟩ := Heap.isLive_iff.mp hlive
  have hcount : c.machine.heap.count v.id = cell.count := Heap.count_of_cell? hcell
  have hdoes := Machine.does_release (m := c.machine) v deep
  rw [Frees, and_iff_right hlive, isLive, machine_step, hcount]
  unfold Plan.release at hdoes
  rw [hcount] at hdoes
  by_cases hlost : cell.count - 1 = 0 ∧ deep ∧ v.tag.isContainer
  · -- it fails, and the machine is what it was
    rw [if_pos hlost] at hdoes
    have hsame : leftBy ((Call.release v deep).perform c.machine) = c.machine := by
      rw [Call.perform, run_map_error hdoes]
      rfl
    rw [hsame]
    exact iff_of_false (fun hfreed => Bool.false_ne_true (hfreed.symm.trans hlive))
      fun h => h.2 hlost.2
  rw [if_neg hlost] at hdoes
  obtain ⟨logger, hok⟩ := hdoes
  have hheap : (leftBy ((Call.release v deep).perform c.machine)).heap =
      c.machine.heap.dropAll [v] := by
    rw [Call.perform, run_map hok]
    rfl
  have hothers : cell.count - 1 = cell.others := rfl
  rw [hothers] at hlost
  rw [hheap, Heap.isLive_dropAll_self hcell, hothers]
  exact ⟨fun hlast => ⟨hlast, fun hdeep => hlost ⟨hlast, hdeep⟩⟩, And.left⟩

/-- **A call says that a box is freed exactly if it is a release that frees it.** -/
theorem notesOn_freed_step (hr : Reachable c) (hallow : c.Allows call)
    (htrace : c.machine.config.debug.traceBoxes = true) (id : Nat) :
    notesOn .freed id (call.notes c.machine) =
      if c.Frees call id then call.farewell id else [] := by
  -- Notes on what is added are on another topic.
  have hadding : ∀ {v : Handle} {call' : Call},
      notesOn .freed id (c.machine.saidOf v call') = [] := by
    intro v call'
    refine notesOn_eq_nil.mpr fun n hn hfreed => ?_
    exact absurd hfreed (Machine.ofAdding_saidOf hn).topic_ne
  cases call with
  | release v deep =>
    rw [Call.notes, Call.farewell]
    -- A release speaks of its own box alone, and only if it frees it.
    by_cases hid : v.id = id
    · subst hid
      by_cases hfrees : c.Frees (.release v deep) v.id
      · obtain ⟨hlast, hdone⟩ := (frees_release hr hallow).mp hfrees
        -- It holds the last handle, traces, and is done.
        rw [if_pos hfrees, if_pos rfl, if_pos ⟨hlast, htrace, hdone⟩]
        exact List.filter_cons_of_pos (decide_eq_true ⟨rfl, rfl⟩)
      · rw [if_neg hfrees, if_neg fun h => hfrees ((frees_release hr hallow).mpr ⟨h.1, h.2.2⟩)]
        rfl
    · rw [if_neg hid, ite_self]
      refine notesOn_eq_nil.mpr fun n hn _ => ?_
      split at hn
      · rwa [List.mem_singleton.mp hn]
      · exact absurd hn List.not_mem_nil
  | listAppend list v => exact hadding.trans (ite_self []).symm
  | setAdd set v => exact hadding.trans (ite_self []).symm
  | mapAdd map key value => exact hadding.trans (ite_self []).symm
  | _ => exact (ite_self []).symm

/-! ## Runs

  Numbers are not used again, so what is said of a box in one call is all that is ever said of its
  end. -/

/-- What a run says of a freed box, one of its releases said that freed the box. -/
theorem release_of_notesOn (hr : Reachable c) (hallow : c.AllowsAll calls)
    (htrace : c.machine.config.debug.traceBoxes = true)
    (hsaid : notesOn .freed id (c.notes calls) ≠ []) :
    ∃ before v deep later, calls = before ++ .release v deep :: later ∧ v.id = id ∧
      (c.after before).Frees (.release v deep) id := by
  induction calls generalizing c with
  | nil => exact absurd rfl hsaid
  -- Where the first call says nothing, the note comes later; else it is that call.
  | cons call calls ih =>
    rw [notes, notesOn_append, notesOn_freed_step hr hallow.1 htrace] at hsaid
    -- The note comes later.
    by_cases hfirst : (if c.Frees call id then call.farewell id else []) = []
    · rw [hfirst, List.nil_append] at hsaid
      obtain ⟨before, v, deep, later, rfl, hid, hfrees⟩ :=
        ih (hr.step hallow.1) hallow.2 (by rwa [config_step]) hsaid
      exact ⟨call :: before, v, deep, later, rfl, hid, hfrees⟩
    · -- The first call speaks, so it frees the box, and of all calls only a release speaks of that.
      have hfrees : c.Frees call id := by
        by_contra hnot
        exact hfirst (if_neg hnot)
      rw [if_pos hfrees] at hfirst
      cases call with
      | release v deep =>
        have hid : v.id = id := by
          by_contra hother
          exact hfirst (if_neg hother)
        exact ⟨[], v, deep, calls, rfl, hid, hfrees⟩
      | _ => exact absurd rfl hfirst

/-- Nothing is said of a box that is live in the end. -/
theorem notesOn_freed_of_live (hr : Reachable c) (hallow : c.AllowsAll calls)
    (htrace : c.machine.config.debug.traceBoxes = true)
    (hlive : (c.after calls).isLive id = true) : notesOn .freed id (c.notes calls) = [] := by
  by_contra hsaid
  obtain ⟨before, v, deep, later, rfl, -, hthen, hfreed⟩ :=
    release_of_notesOn hr hallow htrace hsaid
  -- the box was freed on the way, and would still be
  obtain ⟨hbefore, hrest⟩ := allowsAll_append.mp hallow
  have hdead := (hr.after hbefore).freed_after hrest ⟨hthen, hfreed⟩
  rw [after_append, after_cons, hdead] at hlive
  cases hlive

/-- What the records of a run have to do with the boxes that it freed. -/
structure FreedAccount (c : Client) (calls : List Call) (rs : List Record) : Prop where
  /-- Of a box that a call frees there is one record, if the call released a handle of it, and no
  record otherwise. -/
  freed : ∀ before call later id, calls = before ++ call :: later →
    (c.after before).Frees call id →
      onTopic .freed id rs = (call.farewell id).map (Note.record c.machine.logger)
  /-- There is no record of a box that is live. -/
  live : ∀ id, (c.after calls).isLive id = true → onTopic .freed id rs = []
  /-- A record is of a release, and this has freed the box. -/
  told : ∀ id, onTopic .freed id rs ≠ [] →
    ∃ before v deep later, calls = before ++ .release v deep :: later ∧ v.id = id ∧
      (c.after before).Frees (.release v deep) id

/-- **What the log tells of freed boxes**, if boxes are traced and all levels are logged: of a box
that is freed by releasing its last handle once, of all others never. -/
theorem Reachable.deallocations_logged (hr : Reachable c)
    (htrace : c.machine.config.debug.traceBoxes = true)
    (hlevel : c.machine.logger.level = .trace) (hallow : c.AllowsAll calls) :
    ∃ rs, c.machine.logger.Got rs (c.after calls).machine.logger ∧ FreedAccount c calls rs := by
  refine ⟨_, got_after hlevel calls, ?_, ?_, ?_⟩
  · -- A freed box was live before the call and stays freed, so it is spoken of at the call or
    -- never.
    rintro before call later id rfl hfrees
    obtain ⟨hbefore, hnow, hlater⟩ := allowsAll_append.mp hallow
    have hthere := hr.after hbefore
    have hstill : (c.after before).machine.config.debug.traceBoxes = true := by
      rwa [config_after]
    have hid := Nat.lt_of_lt_of_le (lt_nextId_of_isLive hfrees.1)
      (hthere.healthy.step hnow).2.nextId_le
    rw [onTopic_records, notes_append, notes, notesOn_append, notesOn_append,
      notesOn_freed_of_live hr hbefore htrace hfrees.1,
      notesOn_freed_step hthere hnow hstill, if_pos hfrees,
      (hthere.step hnow).notesOn_of_freed hlater hid hfrees.2,
      List.nil_append, List.append_nil]
  · -- Of a live box nothing is said.
    intro id hlive
    rw [onTopic_records, notesOn_freed_of_live hr hallow htrace hlive]
    rfl
  · intro id hrecords
    rw [onTopic_records] at hrecords
    exact release_of_notesOn hr hallow htrace fun hnone => hrecords (congrArg _ hnone)

/-- A number that is released, in the log of a ring buffer. -/
theorem deallocations_logged_number :
    let c : Client :=
      { machine :=
          { config := { debug := { traceBoxes := true } }
            logger := { level := .trace, sinks := [.ring (.empty ⟨4, by decide⟩)] } } }
    let calls : List Call := [.boxInt 7, .release ⟨1, .int 7⟩ false]
    Reachable c ∧ c.machine.config.debug.traceBoxes = true ∧ c.machine.logger.level = .trace ∧
      c.AllowsAll calls ∧
      ∃ rs, c.machine.logger.Got rs (c.after calls).machine.logger ∧ FreedAccount c calls rs := by
  intro c calls
  have hr : Reachable c := Reachable.start _ _ _
  have hallow : c.AllowsAll calls := by
    decide +kernel
  exact ⟨hr, rfl, rfl, hallow, Reachable.deallocations_logged hr rfl rfl hallow⟩

/-- A list that is released, and the number in it that is freed with it.  The log of the run has one
record of the list, and none of the number. -/
theorem freed_in_silence :
    let c : Client :=
      { machine :=
          { config := { debug := { traceBoxes := true } }
            logger := { level := .trace, sinks := [.ring (.empty ⟨16, by decide⟩)] } } }
    let before : List Call :=
      [.newList 0, .boxInt 7, .listAppend ⟨1, .list⟩ ⟨2, .int 7⟩, .drop ⟨2, .int 7⟩]
    let call : Call := .release ⟨1, .list⟩ false
    c.AllowsAll (before ++ [call]) ∧ (c.after before).Frees call 2 ∧
      ∃ ring, (c.after (before ++ [call])).machine.logger.ring? 0 = some ring ∧ ring.dropped = 0 ∧
        onTopic .freed 2 ring.records.toList = [] ∧
        (onTopic .freed 1 ring.records.toList).map Record.message =
          ["deallocating box #1 (list, deep = false)"] := by
  intro c before call
  have hallow : c.AllowsAll (before ++ [call]) := by
    decide +kernel
  have hfrees : (c.after before).Frees call 2 := by
    decide +kernel
  have hring : ((c.after (before ++ [call])).machine.logger.ring? 0).any fun ring =>
      ring.dropped = 0 ∧ onTopic .freed 2 ring.records.toList = [] ∧
        (onTopic .freed 1 ring.records.toList).map Record.message =
          ["deallocating box #1 (list, deep = false)"] := by
    decide +kernel
  obtain ⟨ring, hsome, hholds⟩ := (Option.any_eq_true _ _).mp hring
  exact ⟨hallow, hfrees, ring, hsome, of_decide_eq_true hholds⟩

end Client

end BoxRuntime
