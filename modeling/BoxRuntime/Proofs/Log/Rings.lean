/-
  What ring buffers hold.

  A logger can have any number of ring buffers among its sinks; more can be added at any time, and
  each can be emptied at any time.  This module says what each of them holds after any list of
  events, in terms of the events alone: `due` lists the records that are due, one for each message
  that is as grave as the level that was set last, with the number of the span that was entered last
  among those whose guards are held.

  The main result, `rings_account`, is that a ring buffer holds the last of the records that were
  due since it was attached or emptied, as many as it has room for, and has counted the others.  All
  ring buffers take the same records.

  There are two invariants behind it.  One is about a ring buffer by itself (`HoldsLast`), and every
  record that is pushed keeps it; the queue and the counter change in different branches, so it ties
  both to the list of all records pushed.  The other is about the place of the ring buffer among the
  sinks: sinks are added behind it and it is never removed, so it is fed by every event
  (`ring?_act`) from when it was new.
-/
import BoxRuntime.Log.Setup
import BoxRuntime.Proofs.Log.Guards
import Mathlib.Data.List.Induction

namespace BoxRuntime

/-! ## One ring buffer

  The invariant ties the queue, the capacity and the counter to the list of all that was pushed. -/

namespace Ring

/-- Of these records the ring buffer holds the last ones, as many as it has room for, and has
counted the others. -/
structure HoldsLast (ring : Ring) (capacity : RingSize) (rs : List Record) : Prop where
  capacity_eq : ring.capacity = capacity
  records : ring.records.toList = rs.drop (rs.length - min capacity.slots rs.length)
  size_eq : ring.size = min capacity.slots rs.length
  dropped : ring.dropped = rs.length - ring.size

/-- A new ring buffer holds the last of no records. -/
theorem holdsLast_empty (capacity : RingSize) : (empty capacity).HoldsLast capacity [] :=
  ⟨rfl, List.drop_nil.symm, (Nat.min_zero _).symm, rfl⟩

/-- **One record more**, whether there is room for it, room for none at all, or an old record has to
make room. -/
theorem HoldsLast.push {ring : Ring} {capacity : RingSize} {rs : List Record}
    (h : ring.HoldsLast capacity rs) (r : Record) : (ring.push r).HoldsLast capacity (rs ++ [r]) := by
  obtain ⟨rfl, hrecords, hsize, hdropped⟩ := h
  have hlength : (rs ++ [r]).length = rs.length + 1 := List.length_append
  unfold Ring.size at hsize hdropped
  rcases Nat.eq_zero_or_pos ring.capacity.slots with hnone | hsome
  · -- without any room the new record is counted, and that is all
    have hpush : ring.push r = { ring with dropped := ring.dropped + 1 } := if_pos hnone
    have hempty : ring.records.toList = [] := by
      rw [hrecords, hnone, Nat.zero_min, Nat.sub_zero, List.drop_length]
    rw [hpush]
    refine ⟨rfl, ?_, ?_, ?_⟩
    · show ring.records.toList = _
      rw [hempty, hnone, Nat.zero_min, Nat.sub_zero, List.drop_length]
    · show ring.records.size = _
      omega
    · show ring.dropped + 1 = _ - ring.records.size
      omega
  rcases Nat.lt_or_ge rs.length ring.capacity.slots with hroom | hfull
  · have hwhole : ring.records.toList = rs := by
      have hall : rs.length - min ring.capacity.slots rs.length = 0 := by omega
      rw [hrecords, hall, List.drop_zero]
    rw [push_of_room (by omega)]
    have hnew : (ring.records.push r).size = ring.records.size + 1 := Array.size_push r
    refine ⟨rfl, ?_, ?_, ?_⟩
    · have hall : (rs ++ [r]).length - min ring.capacity.slots (rs ++ [r]).length = 0 := by omega
      show (ring.records.push r).toList = _
      rw [hall, List.drop_zero, Array.toList_push, hwhole]
    · show (ring.records.push r).size = _
      omega
    · show ring.dropped = _ - (ring.records.push r).size
      omega
  · have hpush : ring.push r = { ring with
        records := (ring.records.extract 1 ring.records.size).push r
        dropped := ring.dropped + 1 } := by
      have hnoroom : ¬ring.records.size < ring.capacity.slots := by omega
      rw [Ring.push, if_neg (Nat.ne_of_gt hsome), if_neg hnoroom]
    have hnew : ((ring.records.extract 1 ring.records.size).push r).size = ring.records.size := by
      rw [Array.size_push, Array.size_extract]
      omega
    rw [hpush]
    refine ⟨rfl, ?_, ?_, ?_⟩
    · -- the oldest record makes room, so the ring buffer begins one record later
      have hlater : (rs ++ [r]).length - min ring.capacity.slots (rs ++ [r]).length =
          rs.length - min ring.capacity.slots rs.length + 1 := by omega
      have hinside : rs.length - min ring.capacity.slots rs.length + 1 ≤ rs.length := by omega
      show ((ring.records.extract 1 ring.records.size).push r).toList = _
      rw [Array.toList_push, Array.toList_extract, List.extract_eq_take_drop, hrecords, hlater,
        List.drop_append_of_le_length hinside, List.drop_drop, List.take_of_length_le]
      rw [List.length_drop]
      omega
    · show ((ring.records.extract 1 ring.records.size).push r).size = _
      omega
    · show ring.dropped + 1 = _ - ((ring.records.extract 1 ring.records.size).push r).size
      omega

/-- **Any run of records**, by the step above. -/
theorem HoldsLast.pushAll {ring : Ring} {capacity : RingSize} {rs : List Record}
    (h : ring.HoldsLast capacity rs) (new : List Record) :
    (ring.pushAll new).HoldsLast capacity (rs ++ new) := by
  induction new generalizing ring rs with
  | nil =>
    rw [List.append_nil]
    exact h
  | cons r new ih =>
    have hrest := ih (h.push r)
    rw [List.append_assoc] at hrest
    exact hrest

@[simp] theorem capacity_pushAll (ring : Ring) (rs : List Record) :
    (ring.pushAll rs).capacity = ring.capacity := by
  induction rs generalizing ring with
  | nil => rfl
  | cons r rs ih => rw [pushAll_cons, ih, capacity_push]

end Ring

namespace Logger

/-! ## Records that are due

  Read off the events, without a logger: level, time and innermost span are those that the events
  before have left. -/

/-- The level that was set last. -/
def levelAfter (level : Level) : List LogEvent → Level
  | [] => level
  | .setLevel new :: es => levelAfter new es
  | _ :: es => levelAfter level es

/-- The time that the clock showed last. -/
def timeAfter (now : Nat) : List LogEvent → Nat
  | [] => now
  | .pass new :: es => timeAfter new es
  | _ :: es => timeAfter now es

/-- The record that is due for an event on a new logger, after the events `before`. -/
def dueAt (l : Logger) (before : List LogEvent) : LogEvent → List Record
  | .record level target message =>
    if level.atLeast (levelAfter l.level before) then
      [{ time := timeAfter l.now before, level, target, message
         span := (Custody.after {} before).held.head?.map Span.id }]
    else []
  | _ => []

/-- The records that are due for events on a new logger, after the events `before`. -/
def due (l : Logger) (before : List LogEvent) : List LogEvent → List Record
  | [] => []
  | e :: es => dueAt l before e ++ due l (before ++ [e]) es

variable {l : Logger} {es : List LogEvent}

/-- The level in force is the one that was set last. -/
theorem level_after (l : Logger) (es : List LogEvent) :
    (l.after es).level = levelAfter l.level es := by
  induction es generalizing l with
  | nil => rfl
  | cons e es ih =>
    rw [after_cons, ih]
    cases e with
    | record level target message =>
      rw [level_act (e := .record level target message) trivial]
      rfl
    | _ => rfl

/-- The time is the one that the clock showed last. -/
theorem now_after (l : Logger) (es : List LogEvent) : (l.after es).now = timeAfter l.now es := by
  induction es generalizing l with
  | nil => rfl
  | cons e es ih =>
    rw [after_cons, ih]
    cases e with
    | record level target message =>
      show timeAfter (l.log level target message).now es = timeAfter l.now es
      rw [(sameSpans_log l level target message).now]
    | _ => rfl

/-- A logger on which nothing has happened yet. -/
structure New (l : Logger) : Prop where
  spans : l.spans = []
  nextSpan : l.nextSpan = 1

/-- On a new logger no spans are open and no guards are held. -/
theorem New.counts (hl : l.New) : l.Counts {} :=
  ⟨List.pairwise_singleton _ _, hl.nextSpan, congrArg List.length hl.spans⟩

/-- With guards given up in order, a logger writes the records that are due. -/
theorem made_eq_dueAt (hl : l.New) {before : List LogEvent} (hbefore : Custody.WellNested {} before)
    (e : LogEvent) : (l.after before).made e = dueAt l before e := by
  cases e with
  | record level target message =>
    rw [made_record, isEnabled, recordOf, level_after, now_after,
      spans_of_wellNested hl.counts hl.spans hbefore]
    rfl
  | _ => rfl

/-- What is written from some event on is what is due from there on. -/
theorem written_eq_due (hl : l.New) {before : List LogEvent}
    (hes : Custody.WellNested {} (before ++ es)) :
    (l.after before).written es = due l before es := by
  induction es generalizing before with
  | nil => rfl
  | cons e es ih =>
    have hbefore := (Custody.throughout_append.mp hes).1
    have hrest : Custody.WellNested {} ((before ++ [e]) ++ es) := by
      rw [List.append_assoc]
      exact hes
    have hnext : (l.after before).act e = l.after (before ++ [e]) := (after_append l before [e]).symm
    rw [written, due, made_eq_dueAt hl hbefore, hnext, ih hrest]

/-! ## Ring buffers among the sinks

  A sink never changes its position, so a ring buffer can be followed through a run by it. -/

/-- The event does not empty the ring buffer at this position. -/
def Leaves (position : Nat) (e : LogEvent) : Prop :=
  e ≠ .clear position

/-- A ring buffer stands at its position among the sinks. -/
theorem ring?_eq_some {position : Nat} {ring : Ring} :
    l.ring? position = some ring ↔ l.sinks[position]? = some (.ring ring) := by
  unfold ring?
  rcases l.sinks[position]? with _ | sink
  · simp
  · cases sink <;> simp

/-- Changing the ring buffer at one position leaves the others alone. -/
theorem ring?_updateRing (l : Logger) (position other : Nat) (f : Ring → Ring) :
    (l.updateRing other f).ring? position =
      (l.ring? position).map fun ring => if other = position then f ring else ring := by
  unfold updateRing ring?
  dsimp only
  rw [List.getElem?_modify]
  rcases l.sinks[position]? with _ | sink
  · rfl
  · by_cases hsame : other = position <;> cases sink <;> simp [hsame]

theorem lt_of_ring? {position : Nat} {ring : Ring} (hring : l.ring? position = some ring) :
    position < l.sinks.length :=
  (List.getElem?_eq_some_iff.mp (ring?_eq_some.mp hring)).1

/-- **A ring buffer takes what is written**, whatever happens, unless it is emptied itself. -/
theorem ring?_act {position : Nat} {ring : Ring} (hring : l.ring? position = some ring)
    {e : LogEvent} (he : Leaves position e) :
    (l.act e).ring? position = some (ring.pushAll (l.made e)) := by
  have hsink := ring?_eq_some.mp hring
  -- Only a record reaches the ring: sinks are added at the end, and a clearing was excluded.
  cases e with
  | setLevel level => exact hring
  | addSink sink =>
    refine ring?_eq_some.mpr ?_
    show (l.sinks ++ [sink])[position]? = _
    rw [List.getElem?_append_left (lt_of_ring? hring)]
    exact hsink
  | clear other =>
    have hother : ¬other = position := fun heq => he (heq ▸ rfl)
    show (l.updateRing other Ring.clear).ring? position = _
    rw [ring?_updateRing, hring, Option.map_some, if_neg hother]
    rfl
  | record level target message =>
    rw [(got_act (e := .record level target message) trivial l).ring?, hring]
    rfl
  | _ => exact hring

/-- **Any run of events** that leave it alone gives it the records that are written. -/
theorem ring?_after {position : Nat} {ring : Ring} (hring : l.ring? position = some ring)
    (hes : ∀ e ∈ es, Leaves position e) :
    (l.after es).ring? position = some (ring.pushAll (l.written es)) := by
  induction es generalizing l ring with
  | nil => exact hring
  | cons e es ih =>
    obtain ⟨he, hrest⟩ := List.forall_mem_cons.mp hes
    rw [after_cons, ih (ring?_act hring he) hrest, written, Ring.pushAll, Ring.pushAll,
      Ring.pushAll, List.foldl_append]

/-- A ring buffer that is added stands behind all others. -/
theorem ring?_addSink (l : Logger) (ring : Ring) :
    (l.act (.addSink (.ring ring))).ring? l.sinks.length = some ring := by
  refine ring?_eq_some.mpr ?_
  show (l.sinks ++ [Sink.ring ring])[l.sinks.length]? = _
  rw [List.getElem?_append_right (Nat.le_refl _), Nat.sub_self]
  rfl

/-- One that is emptied is as new, and as large as before. -/
theorem ring?_clear {position : Nat} {ring : Ring} (hring : l.ring? position = some ring) :
    (l.act (.clear position)).ring? position = some (.empty ring.capacity) := by
  show (l.updateRing position Ring.clear).ring? position = _
  rw [ring?_updateRing, hring, Option.map_some, if_pos rfl]
  rfl

/-- The ring buffer at this position is new after these events, and has this capacity: the logger
was made with it, or it has just been attached, or it has just been emptied. -/
inductive Fresh (l : Logger) (position : Nat) (capacity : RingSize) : List LogEvent → Prop where
  | configured : l.ring? position = some (.empty capacity) → Fresh l position capacity []
  | attached (before : List LogEvent) : (l.after before).sinks.length = position →
      Fresh l position capacity (before ++ [.addSink (.ring (.empty capacity))])
  | cleared (before : List LogEvent) (ring : Ring) :
      (l.after before).ring? position = some ring → ring.capacity = capacity →
      Fresh l position capacity (before ++ [.clear position])

/-- Whichever way it came to be new, it is there and empty. -/
theorem Fresh.ring? {position : Nat} {capacity : RingSize} {before : List LogEvent}
    (h : l.Fresh position capacity before) :
    (l.after before).ring? position = some (.empty capacity) := by
  cases h with
  | configured hring => exact hring
  | attached before hposition =>
    rw [after_append, ← hposition]
    exact ring?_addSink _ _
  | cleared before ring hring hcapacity =>
    rw [after_append, ← hcapacity]
    exact ring?_clear hring

/-- An event leaves a ring buffer where one was, or attaches one. -/
theorem ring?_before {position : Nat} {ring : Ring} {e : LogEvent}
    (hring : (l.act e).ring? position = some ring) :
    (∃ old, l.ring? position = some old ∧ old.capacity = ring.capacity) ∨
      (e = .addSink (.ring ring) ∧ l.sinks.length = position) := by
  have hsink := ring?_eq_some.mp hring
  rcases hold : l.ring? position with _ | old
  · -- no event turns something else into a ring buffer
    refine Or.inr ?_
    have hnone : ∀ ring', l.sinks[position]? ≠ some (.ring ring') := by
      intro ring' hsome
      rw [ring?_eq_some.mpr hsome] at hold
      cases hold
    cases e with
    | addSink sink =>
      have hmore : (l.sinks ++ [sink])[position]? = some (.ring ring) := hsink
      rcases Nat.lt_or_ge position l.sinks.length with hlow | hhigh
      · rw [List.getElem?_append_left hlow] at hmore
        exact absurd hmore (hnone ring)
      · rw [List.getElem?_append_right hhigh] at hmore
        obtain ⟨hlast, hsame⟩ := List.getElem?_eq_some_iff.mp hmore
        have hzero : position - l.sinks.length = 0 := by
          rw [List.length_singleton] at hlast
          omega
        simp only [hzero, List.getElem_cons_zero] at hsame
        exact ⟨by rw [hsame], by omega⟩
    | clear other =>
      have hcleared : (l.updateRing other Ring.clear).ring? position = some ring := hring
      rw [ring?_updateRing, hold] at hcleared
      cases hcleared
    | record level target message =>
      have hgot := (got_act (e := .record level target message) trivial l).ring? position
      rw [hring, hold] at hgot
      cases hgot
    | _ => exact absurd hsink (hnone ring)
  · refine Or.inl ⟨old, rfl, ?_⟩
    by_cases hclear : e = .clear position
    · subst hclear
      have hempty : Ring.empty old.capacity = ring :=
        Option.some.inj ((ring?_clear hold).symm.trans hring)
      rw [← hempty]
      rfl
    · rw [ring?_act hold hclear] at hring
      rw [← Option.some.inj hring, Ring.capacity_pushAll]

/-- Ring buffers are attached when they are new. -/
def AttachesNew (es : List LogEvent) : Prop :=
  ∀ ring, LogEvent.addSink (.ring ring) ∈ es → ring = .empty ring.capacity

/-- Every ring buffer was new once, and has not been emptied since. -/
theorem exists_fresh (hinit : ∀ position ring, l.ring? position = some ring →
      ring = .empty ring.capacity) (hes : AttachesNew es) {position : Nat} {ring : Ring}
    (hring : (l.after es).ring? position = some ring) :
    ∃ before since, es = before ++ since ∧ l.Fresh position ring.capacity before ∧
      ∀ e ∈ since, Leaves position e := by
  -- from the last event backwards, until the ring buffer is new
  induction es using List.reverseRecOn generalizing ring with
  | nil =>
    refine ⟨[], [], rfl, .configured ?_, List.forall_mem_nil _⟩
    rw [← hinit position ring hring]
    exact hring
  | append_singleton early e ih =>
    have hearly : AttachesNew early := fun ring' hin => hes ring' (List.mem_append_left _ hin)
    rw [after_append] at hring
    rcases ring?_before hring with ⟨old, hold, hcapacity⟩ | ⟨rfl, hposition⟩
    · by_cases hclear : e = .clear position
      · subst hclear
        refine ⟨early ++ [.clear position], [], (List.append_nil _).symm, ?_, List.forall_mem_nil _⟩
        exact .cleared early old hold hcapacity
      · obtain ⟨before, since, rfl, hfresh, hsince⟩ := ih hearly hold
        rw [hcapacity] at hfresh
        refine ⟨before, since ++ [e], List.append_assoc before since [e], hfresh, ?_⟩
        intro e' he'
        rcases List.mem_append.mp he' with hin | hlast
        · exact hsince e' hin
        · rw [List.mem_singleton.mp hlast]
          exact hclear
    · have hnew := hes ring (List.mem_append_right _ List.mem_cons_self)
      refine ⟨early ++ [.addSink (.ring ring)], [], (List.append_nil _).symm, ?_,
        List.forall_mem_nil _⟩
      rw [hnew]
      exact .attached early hposition

end Logger

/-! ## Setups

  A setup makes its sinks in the order of its outputs, leaves out files that do not open, and
  remembers the last ring buffer. -/

namespace LogSetup

variable {places : String → Option Place}

/-- Whatever files can be opened, the logger of a setup is new. -/
theorem new_init (s : LogSetup) (places : String → Option Place) : (s.init places).1.New :=
  ⟨rfl, rfl⟩

/-- The last ring buffer is the last sink that is one. -/
theorem lastRing?_concat (sinks : List Sink) (sink : Sink) :
    lastRing? (sinks ++ [sink]) =
      match sink with
      | .ring _ => some sinks.length
      | .outlet _ => lastRing? sinks := by
  unfold lastRing?
  rw [List.zipIdx_append, List.foldl_append, Nat.zero_add]
  cases sink <;> rfl

/-- Outlets behind it do not change which is the last ring buffer. -/
theorem lastRing?_append_outlets {sinks more : List Sink}
    (hmore : ∀ s ∈ more, ∃ o, s = .outlet o) : lastRing? (sinks ++ more) = lastRing? sinks := by
  induction more generalizing sinks with
  | nil => rw [List.append_nil]
  | cons s more ih =>
    obtain ⟨⟨o, rfl⟩, hrest⟩ := List.forall_mem_cons.mp hmore
    rw [← List.singleton_append, ← List.append_assoc, ih hrest, lastRing?_concat]

/-- Only a ring buffer as an output makes a ring buffer among the sinks, and a new one. -/
theorem sink?_eq_ring {o : LogOutput} {ring : Ring} (h : sink? places o = some (.ring ring)) :
    o = .ring ring.capacity ∧ ring = .empty ring.capacity := by
  cases o with
  | ring capacity =>
    have hring : Ring.empty capacity = ring := Sink.ring.inj (Option.some.inj h)
    rw [← hring]
    exact ⟨rfl, rfl⟩
  | file path =>
    obtain ⟨place, -, hplace⟩ := Option.map_eq_some_iff.mp h
    cases hplace
  | stdout => cases h
  | stderr => cases h

/-- Without a ring buffer among the outputs there is none among the sinks. -/
theorem outlets_of_no_ring (places : String → Option Place) {outputs : List LogOutput}
    (hnone : ∀ c, LogOutput.ring c ∉ outputs) :
    ∀ s ∈ outputs.filterMap (sink? places), ∃ o, s = Sink.outlet o := by
  intro s hs
  obtain ⟨o, ho, hsink⟩ := List.mem_filterMap.mp hs
  cases s with
  | outlet outlet => exact ⟨outlet, rfl⟩
  | ring ring =>
    obtain ⟨rfl, -⟩ := sink?_eq_ring hsink
    exact absurd ho (hnone _)

/-- The ring buffers of a setup are new. -/
theorem ring?_init {s : LogSetup} {position : Nat} {ring : Ring}
    (hring : (s.init places).1.ring? position = some ring) : ring = .empty ring.capacity := by
  have hin : Sink.ring ring ∈ s.outputs.filterMap (sink? places) :=
    List.mem_of_getElem? (Logger.ring?_eq_some.mp hring)
  obtain ⟨o, -, hsink⟩ := List.mem_filterMap.mp hin
  exact (sink?_eq_ring hsink).2

/-- The ring buffer that a setup gives is the last one among its outputs, and it is attached. -/
theorem init_of_last (s : LogSetup) (places : String → Option Place)
    {before after : List LogOutput} {capacity : RingSize}
    (houtputs : s.outputs = before ++ .ring capacity :: after)
    (hlast : ∀ c, LogOutput.ring c ∉ after) :
    ∃ position, (s.init places).2 = some position ∧
      (s.init places).1.ring? position = some (.empty capacity) := by
  -- The ring stands behind the sinks from before it, files that do not open not counted.
  have hsinks : (s.init places).1.sinks =
      (before.filterMap (sink? places) ++ [.ring (.empty capacity)]) ++
        after.filterMap (sink? places) := by
    show s.outputs.filterMap (sink? places) = _
    rw [houtputs, List.filterMap_append, List.append_assoc]
    rfl
  refine ⟨(before.filterMap (sink? places)).length, ?_, ?_⟩
  · show lastRing? (s.init places).1.sinks = _
    -- What comes after is no ring, so this is the last one.
    rw [hsinks, lastRing?_append_outlets (outlets_of_no_ring places hlast), lastRing?_concat]
  · refine Logger.ring?_eq_some.mpr ?_
    rw [hsinks, List.append_assoc, List.getElem?_append_right (Nat.le_refl _), Nat.sub_self]
    rfl

/-- Without a ring buffer among the outputs none is given. -/
theorem init_of_none (s : LogSetup) (places : String → Option Place)
    (hnone : ∀ c, LogOutput.ring c ∉ s.outputs) :
    (s.init places).2 = none := by
  have houtlets := outlets_of_no_ring places hnone
  have hinit : lastRing? ([] ++ s.outputs.filterMap (sink? places)) = none :=
    lastRing?_append_outlets houtlets
  exact hinit

end LogSetup

/-! ## All ring buffers of one logger

  For every position at which there is a ring buffer: it was fresh at some event, and took what was
  due from there on. -/

namespace Logger

/-- What the ring buffers of a logger hold after some events. -/
structure RingAccount (s : LogSetup) (places : String → Option Place) (es : List LogEvent) :
    Prop where
  /-- A ring buffer that was new after some of the events holds the last of the records that were
  due since then. -/
  holds : ∀ position capacity before since, es = before ++ since →
    (s.init places).1.Fresh position capacity before → (∀ e ∈ since, Leaves position e) →
    ∃ ring, ((s.init places).1.after es).ring? position = some ring ∧
      ring.HoldsLast capacity (due (s.init places).1 before since)
  /-- Every ring buffer was new after some of the events and was not emptied since. -/
  exists_fresh : ∀ position ring, ((s.init places).1.after es).ring? position = some ring →
    ∃ before since, es = before ++ since ∧ (s.init places).1.Fresh position ring.capacity before ∧
      ∀ e ∈ since, Leaves position e
  /-- All ring buffers that are there take the same records. -/
  together : ∀ before since, es = before ++ since → ∀ position ring,
    ((s.init places).1.after before).ring? position = some ring → (∀ e ∈ since, Leaves position e) →
    ((s.init places).1.after es).ring? position =
      some (ring.pushAll (due (s.init places).1 before since))
  /-- The setup gives the last ring buffer among its outputs, and that is attached. -/
  given : ∀ before capacity after, s.outputs = before ++ .ring capacity :: after →
    (∀ c, LogOutput.ring c ∉ after) → ∃ position, (s.init places).2 = some position ∧
      (s.init places).1.ring? position = some (.empty capacity)
  not_given : (∀ c, LogOutput.ring c ∉ s.outputs) → (s.init places).2 = none

/-- **What ring buffers hold.**  Whatever files can be opened and whatever happens to a logger, as
long as guards are given up in order and ring buffers are new when they are attached, each ring
buffer holds the last of the records that were due since it was attached or emptied, as many as it
has room for, and has counted the others. -/
theorem rings_account (s : LogSetup) (places : String → Option Place) (es : List LogEvent)
    (hes : Custody.WellNested {} es) (hnew : AttachesNew es) : RingAccount s places es := by
  have hl := s.new_init places
  refine ⟨?_, ?_, ?_, fun _ _ _ => s.init_of_last places,
    s.init_of_none places⟩
  · rintro position capacity before since rfl hfresh hsince
    refine ⟨_, ?_, (Ring.holdsLast_empty capacity).pushAll (due (s.init places).1 before since)⟩
    rw [after_append, ring?_after hfresh.ring? hsince, written_eq_due hl hes]
  · intro position ring hring
    exact exists_fresh (fun _ _ => LogSetup.ring?_init) hnew hring
  · rintro before since rfl position ring hring hsince
    rw [after_append, ring?_after hring hsince, written_eq_due hl hes]

/-- Two ring buffers, the second attached inside a span, with a change of the level, and the first
one overflowing and emptied in between. -/
theorem rings_account_two :
    ∃ es : List LogEvent, Custody.WellNested {} es ∧ AttachesNew es ∧
      es.length = 10 ∧ RingAccount { level := .info, outputs := [.stderr, .ring ⟨1, by decide⟩] }
        (fun _ => none) es := by
  let es : List LogEvent :=
    [.record .info "t" "a", .record .debug "t" "b", .enter "s", .record .warn "t" "c",
      .addSink (.ring (.empty ⟨2, by decide⟩)), .clear 1, .setLevel .debug, .record .debug "t" "d",
      .exit ⟨1⟩, .record .info "t" "e"]
  have hes : Custody.WellNested {} es :=
    ⟨trivial, trivial, trivial, trivial, trivial, trivial, trivial, trivial, rfl, trivial, trivial⟩
  have hnew : AttachesNew es := by
    intro ring hin
    simp only [es, List.mem_cons, reduceCtorEq, LogEvent.addSink.injEq, Sink.ring.injEq, false_or,
      or_false, List.not_mem_nil] at hin
    rw [hin]
    rfl
  exact ⟨es, hes, hnew, rfl, rings_account _ _ es hes hnew⟩

end Logger

end BoxRuntime
