/-
  What happens to a logger.

  Whoever works with a logger has few things to do to it: it logs messages, enters spans and gives
  up their guards, sets the level, adds sinks and empties ring buffers.  So a stretch of work is,
  for its logger, a list of events.  `Logger.after` is the logger after them, and `Logger.written`
  are the records that they made, which is what the log of that stretch says.

  Three things are said about such stretches, for all lists of events.

  * What the sinks got (`got_after`): all that was written, if no event meddles with level or sinks.
  * What a level leaves out (`written_eq_filter`): the records of a logger are those of a logger
    that takes everything, less the light ones.  Spans do not depend on the level, nor do their
    numbers.
  * What is open (`kept_open`): if the spans are in the end what they were in the beginning, the
    spans from the beginning were open all the time.  A program can close a span that is not its
    own, as a guard closes whatever is innermost, but then it cannot open that span again: numbers
    of spans are never used twice.
-/
import BoxRuntime.Log.Logger

namespace BoxRuntime

/-- Something that happens to a logger. -/
inductive LogEvent where
  | record (level : Level) (target message : String)
  | remark (level : Level) (message : String)
  | enter (name : String)
  | exit (guard : SpanGuard)
  | setLevel (level : Level)
  | addSink (sink : Sink)
  /-- A ring buffer among the sinks is emptied. -/
  | clear (position : Nat)
  /-- The clock goes on. -/
  | pass (now : Nat)

/-- The event leaves alone the level, and the sinks but for what it writes to them. -/
def LogEvent.Steady : LogEvent → Prop
  | .setLevel _ | .addSink _ | .clear _ => False
  | _ => True

namespace Ring

/-- Writes records, one after another. -/
def pushAll (ring : Ring) (rs : List Record) : Ring :=
  rs.foldl push ring

@[simp] theorem pushAll_cons (ring : Ring) (r : Record) (rs : List Record) :
    ring.pushAll (r :: rs) = (ring.push r).pushAll rs :=
  rfl

/-- Records do not change the capacity. -/
@[simp] theorem capacity_push (ring : Ring) (r : Record) :
    (ring.push r).capacity = ring.capacity := by
  unfold push
  split
  · rfl
  · split <;> rfl

/-- The count of records let go only grows. -/
theorem dropped_le_push (ring : Ring) (r : Record) : ring.dropped ≤ (ring.push r).dropped := by
  unfold push
  split
  · exact Nat.le_succ _
  · split
    · exact Nat.le_refl _
    · exact Nat.le_succ _

theorem dropped_le_pushAll (ring : Ring) (rs : List Record) :
    ring.dropped ≤ (ring.pushAll rs).dropped := by
  induction rs generalizing ring with
  | nil => exact Nat.le_refl _
  | cons r rs ih => exact Nat.le_trans (ring.dropped_le_push r) (ih (ring.push r))

/-- A ring buffer with room for one more record takes it and lets none go. -/
theorem push_of_room {ring : Ring} (hroom : ring.records.size < ring.capacity.slots) (r : Record) :
    ring.push r = { ring with records := ring.records.push r } := by
  have hsome : ring.capacity.slots ≠ 0 := by omega
  rw [push, if_neg hsome, if_pos hroom]

/-- One without lets a record go. -/
theorem dropped_push_of_full {ring : Ring} (hfull : ring.capacity.slots ≤ ring.records.size)
    (r : Record) : (ring.push r).dropped = ring.dropped + 1 := by
  have hnone : ¬ring.records.size < ring.capacity.slots := by omega
  rw [push, if_neg hnone]
  split <;> rfl

/-- A ring buffer that has room for all records has them afterwards, behind those it had. -/
theorem pushAll_of_room {ring : Ring} {rs : List Record}
    (hroom : ring.records.size + rs.length ≤ ring.capacity.slots) :
    (ring.pushAll rs).records.toList = ring.records.toList ++ rs ∧
      (ring.pushAll rs).dropped = ring.dropped := by
  -- On the records, for any ring: one push leaves room for the rest.
  induction rs generalizing ring with
  | nil => exact ⟨(List.append_nil _).symm, rfl⟩
  | cons r rs ih =>
    rw [List.length_cons] at hroom
    rw [pushAll_cons, push_of_room (by omega)]
    let next : Ring := { ring with records := ring.records.push r }
    have hsize : next.records.size = ring.records.size + 1 := Array.size_push r
    have hrest : next.records.size + rs.length ≤ next.capacity.slots := by
      show next.records.size + rs.length ≤ ring.capacity.slots
      omega
    obtain ⟨hrecords, hdropped⟩ := ih hrest
    refine ⟨?_, hdropped⟩
    rw [hrecords, Array.toList_push, List.append_assoc]
    rfl

/-- A ring buffer that let no record go had room for all of them. -/
theorem room_of_dropped {ring : Ring} {rs : List Record} (hsome : rs ≠ [])
    (hkept : (ring.pushAll rs).dropped = ring.dropped) :
    ring.records.size + rs.length ≤ ring.capacity.slots := by
  induction rs generalizing ring with
  | nil => exact absurd rfl hsome
  | cons r rs ih =>
    rw [pushAll_cons] at hkept
    rw [List.length_cons]
    rcases Nat.lt_or_ge ring.records.size ring.capacity.slots with hroom | hfull
    · rw [push_of_room hroom] at hkept
      rcases rs with _ | ⟨r', rs⟩
      · exact hroom
      · have hrest := ih (List.cons_ne_nil r' rs) hkept
        have hsize : (ring.records.push r).size = ring.records.size + 1 := Array.size_push r
        have hrest' : (ring.records.push r).size + (r' :: rs).length ≤ ring.capacity.slots := hrest
        omega
    · -- the first record was already one too many
      have hfirst := dropped_push_of_full hfull r
      have hlater := (ring.push r).dropped_le_pushAll rs
      omega

/-- What a ring buffer that let no record go has of some of the records. -/
theorem records_pushAll_filter {ring : Ring} {rs : List Record} (p : Record → Bool)
    (hkept : (ring.pushAll rs).dropped = ring.dropped) :
    (ring.pushAll (rs.filter p)).records.toList = ring.records.toList ++ rs.filter p ∧
      (ring.pushAll (rs.filter p)).dropped = ring.dropped := by
  by_cases hnone : rs = []
  · subst hnone
    exact ⟨(List.append_nil _).symm, rfl⟩
  · have hroom := room_of_dropped hnone hkept
    have hfewer := List.length_filter_le p rs
    exact pushAll_of_room (by omega)

end Ring

namespace Logger

/-! ## Events and what they write

  One function that does an event and one that says what it writes. A list of events does and
  writes one after another what each of them does and writes. -/

/-- The logger after an event. -/
def act (l : Logger) : LogEvent → Logger
  | .record level target message => l.log level target message
  | .remark level message => l.remark level message
  | .enter name => (l.enterSpan name).2
  | .exit guard => l.exitSpan guard
  | .setLevel level => l.setLevel level
  | .addSink sink => l.addSink sink
  | .clear position => l.updateRing position Ring.clear
  | .pass now => { l with now }

/-- The logger after some events. -/
def after (l : Logger) (es : List LogEvent) : Logger :=
  es.foldl act l

/-- What an event writes to the log: a record, if it is a message of a level that the logger takes.
-/
def made (l : Logger) : LogEvent → List Record
  | .record level target message =>
    if l.isEnabled level then [l.recordOf level target message] else []
  | _ => []

/-- What events write to the log. -/
def written (l : Logger) : List LogEvent → List Record
  | [] => []
  | e :: es => l.made e ++ (l.act e).written es

@[simp] theorem after_cons (l : Logger) (e : LogEvent) (es : List LogEvent) :
    l.after (e :: es) = (l.act e).after es :=
  rfl

theorem after_append (l : Logger) (es fs : List LogEvent) :
    l.after (es ++ fs) = (l.after es).after fs :=
  List.foldl_append

theorem written_append (l : Logger) (es fs : List LogEvent) :
    l.written (es ++ fs) = l.written es ++ (l.after es).written fs := by
  induction es generalizing l with
  | nil => rfl
  | cons e es ih =>
    rw [List.cons_append, written, written, after_cons, ih, List.append_assoc]

theorem written_singleton (l : Logger) (e : LogEvent) : l.written [e] = l.made e :=
  List.append_nil _

/-- A message makes one record, if the level lets it pass. -/
theorem made_record (l : Logger) (level : Level) (target message : String) :
    l.made (.record level target message) =
      if l.isEnabled level then [l.recordOf level target message] else [] :=
  rfl

/-- Only a record can be written, and it carries the number of the innermost open span. -/
theorem span_of_made {l : Logger} {e : LogEvent} {r : Record} (hr : r ∈ l.made e) :
    r.span = l.spans.head?.map Span.id := by
  cases e with
  | record level target message =>
    rw [made_record] at hr
    split at hr
    · rw [List.mem_singleton.mp hr]
      rfl
    · cases hr
  | _ => cases hr

/-! ## Sinks

  What a sink got is told by the records alone, for ring buffers by what they hold and for the
  others by what went out. -/

/-- Writes records to a sink, one after another. -/
def Sink.writeAll (rs : List Record) (s : Sink) : Sink :=
  rs.foldl (fun s r => Sink.write r s) s

/-- A sink can be given records in two parts. -/
theorem Sink.writeAll_append (rs rs' : List Record) (s : Sink) :
    Sink.writeAll (rs ++ rs') s = Sink.writeAll rs' (Sink.writeAll rs s) :=
  List.foldl_append

/-- A ring buffer keeps what it has room for. -/
theorem Sink.writeAll_ring (rs : List Record) (ring : Ring) :
    Sink.writeAll rs (.ring ring) = .ring (ring.pushAll rs) := by
  induction rs generalizing ring with
  | nil => rfl
  | cons r rs ih => exact ih (ring.push r)

/-- An outlet keeps nothing: what it gets is noted in the journal. -/
theorem Sink.writeAll_outlet (rs : List Record) (o : Outlet) :
    Sink.writeAll rs (.outlet o) = .outlet o := by
  induction rs with
  | nil => rfl
  | cons r rs ih => exact ih

/-- Only the one event changes the level. -/
theorem level_act {e : LogEvent} (he : e.Steady) (l : Logger) : (l.act e).level = l.level := by
  cases e with
  | record level target message =>
    show (l.log level target message).level = l.level
    unfold log
    split <;> rfl
  | setLevel | addSink | clear => exact he.elim
  | _ => rfl

/-- A steady event changes sinks only by what it writes to them. -/
theorem sinks_act {e : LogEvent} (he : e.Steady) (l : Logger) :
    (l.act e).sinks = l.sinks.map (Sink.writeAll (l.made e)) := by
  have hnone : l.sinks = l.sinks.map (Sink.writeAll []) := (List.map_id l.sinks).symm
  cases e with
  | record level target message =>
    show (l.log level target message).sinks = _
    rw [log, made_record]
    split
    · rfl
    · exact hnone
  | setLevel | addSink | clear => exact he.elim
  | _ => exact hnone

variable {es : List LogEvent}

/-- The record of a delivery, if it went to this outlet. -/
def recordTo (o : Outlet) : Delivery → Option Record
  | .record o' r => if o' = o then some r else none
  | .remark .. => none

/-- The records that were sent to an outlet. -/
def sent (l : Logger) (o : Outlet) : List Record :=
  l.journal.toList.filterMap (recordTo o)

/-- An outlet gets a record as often as it is among the sinks. -/
theorem filterMap_recordTo (o : Outlet) (r : Record) (os : List Outlet) :
    (os.map fun o' => Delivery.record o' r).filterMap (recordTo o) =
      List.replicate (os.count o) r := by
  induction os with
  | nil => rfl
  | cons o' os ih =>
    rw [List.map_cons, List.count_cons]
    by_cases hsame : o' = o
    · have hto : recordTo o (.record o' r) = some r := if_pos hsame
      rw [List.filterMap_cons_some hto, ih, if_pos (beq_iff_eq.mpr hsame), List.replicate_succ]
    · have hto : recordTo o (.record o' r) = none := if_neg hsame
      rw [List.filterMap_cons_none hto, ih, if_neg fun heq => hsame (beq_iff_eq.mp heq),
        Nat.add_zero]

/-- An outlet gets every record once for each time it stands among the sinks. -/
theorem sent_act {e : LogEvent} (he : e.Steady) (l : Logger) (o : Outlet) :
    (l.act e).sent o =
      l.sent o ++ (l.made e).flatMap fun r => List.replicate (l.outlets.count o) r := by
  -- An event other than a record sends nothing, and makes no record either.
  have hnone : l.sent o = l.sent o ++ [].flatMap fun r => List.replicate (l.outlets.count o) r :=
    (List.append_nil _).symm
  cases e with
  | record level target message =>
    show (l.log level target message).sent o = _
    rw [log, made_record]
    -- A record that is made goes to every outlet of the kind, as often as there are such.
    split
    · rw [sent, write, Array.toList_append, List.filterMap_append, filterMap_recordTo,
        List.flatMap_singleton]
      rfl
    · exact hnone
  | remark level message =>
    show (l.journal.push (.remark level message)).toList.filterMap (recordTo o) = _
    rw [Array.toList_push, List.filterMap_append]
    rfl
  | setLevel | addSink | clear => exact he.elim
  | _ => exact hnone

/-- From the first logger to the second, the sinks got these records and nothing else: each sink all
of them, and an outlet as often as it is among the sinks. -/
structure Got (l : Logger) (rs : List Record) (l' : Logger) : Prop where
  sinks : l'.sinks = l.sinks.map (Sink.writeAll rs)
  sent : ∀ o, l'.sent o = l.sent o ++ rs.flatMap fun r => List.replicate (l.outlets.count o) r

namespace Got

variable {l l' l'' : Logger} {rs rs' : List Record}

/-- Nothing was written if nothing happened. -/
theorem refl (l : Logger) : l.Got [] l :=
  ⟨(List.map_id l.sinks).symm, fun _ => (List.append_nil _).symm⟩

/-- Outlets stay, whatever is sent to them. -/
theorem outlets (hg : l.Got rs l') : l'.outlets = l.outlets := by
  unfold Logger.outlets
  rw [hg.sinks, List.filterMap_map]
  refine congrArg (List.filterMap · l.sinks) (funext fun s => ?_)
  cases s with
  | ring ring => rw [Function.comp_apply, Sink.writeAll_ring]
  | outlet o => rw [Function.comp_apply, Sink.writeAll_outlet]

/-- What was written in two parts was written. -/
theorem trans (hg : l.Got rs l') (hg' : l'.Got rs' l'') : l.Got (rs ++ rs') l'' := by
  refine ⟨?_, fun o => ?_⟩
  · rw [hg'.sinks, hg.sinks, List.map_map]
    exact List.map_congr_left fun s _ => (Sink.writeAll_append rs rs' s).symm
  · rw [hg'.sent, hg.sent, hg.outlets, List.flatMap_append, List.append_assoc]

/-- A ring buffer among the sinks takes the records, too. -/
theorem ring? (hg : l.Got rs l') (position : Nat) :
    l'.ring? position = (l.ring? position).map fun ring => ring.pushAll rs := by
  unfold Logger.ring?
  rw [hg.sinks, List.getElem?_map]
  rcases l.sinks[position]? with _ | sink
  · rfl
  · cases sink with
    | ring ring =>
      rw [Option.map_some, Sink.writeAll_ring]
      rfl
    | outlet o =>
      rw [Option.map_some, Sink.writeAll_outlet]
      rfl

end Got

/-- **A steady event gives all sinks the records it makes**, and nothing else. -/
theorem got_act {e : LogEvent} (he : e.Steady) (l : Logger) : l.Got (l.made e) (l.act e) :=
  ⟨sinks_act he l, sent_act he l⟩

/-- **The sinks get what is written**, if no event meddles with level or sinks. -/
theorem got_after (hs : ∀ e ∈ es, e.Steady) (l : Logger) : l.Got (l.written es) (l.after es) := by
  induction es generalizing l with
  | nil => exact .refl l
  | cons e es ih =>
    obtain ⟨he, hes⟩ := List.forall_mem_cons.mp hs
    exact (got_act he l).trans (ih hes (l.act e))

/-! ## Levels

  Two loggers that differ in level and sinks have the same spans at all times, so their records are
  the same where both make one. -/

/-- The loggers take messages for the same moment and the same span. -/
structure SameSpans (l l' : Logger) : Prop where
  spans : l'.spans = l.spans
  nextSpan : l'.nextSpan = l.nextSpan
  now : l'.now = l.now

/-- Whether a message is written makes no difference to spans. -/
theorem sameSpans_log (l : Logger) (level : Level) (target message : String) :
    SameSpans l (l.log level target message) := by
  unfold log
  split
  · exact ⟨rfl, rfl, rfl⟩
  · exact ⟨rfl, rfl, rfl⟩

/-- Loggers with the same spans keep them the same. -/
theorem SameSpans.act {l l' : Logger} (h : SameSpans l l') (e : LogEvent) :
    SameSpans (l.act e) (l'.act e) := by
  -- Events that open or close spans do the same to both stacks; a record does nothing to them.
  obtain ⟨hspans, hnext, hnow⟩ := h
  cases e with
  | record level target message =>
    have hl := sameSpans_log l level target message
    have hl' := sameSpans_log l' level target message
    constructor
    · exact hl'.spans.trans (hspans.trans hl.spans.symm)
    · exact hl'.nextSpan.trans (hnext.trans hl.nextSpan.symm)
    · exact hl'.now.trans (hnow.trans hl.now.symm)
  | enter name =>
    refine ⟨?_, congrArg (· + 1) hnext, hnow⟩
    show { id := l'.nextSpan, name } :: l'.spans = { id := l.nextSpan, name } :: l.spans
    rw [hspans, hnext]
  | exit guard => exact ⟨congrArg List.tail hspans, hnext, hnow⟩
  | pass now => exact ⟨hspans, hnext, rfl⟩
  | _ => exact ⟨hspans, hnext, hnow⟩

/-- Of a message, a logger writes the record that another one writes who takes everything, or
nothing if the record is too light. -/
theorem made_eq_filter {l l' : Logger} (h : SameSpans l l') (hall : l'.level = .trace)
    (e : LogEvent) : l.made e = (l'.made e).filter fun r => r.level.atLeast l.level := by
  cases e with
  | record level target message =>
    -- The other logger takes everything, with the same spans and at the same time.
    have henabled : l'.isEnabled level = true := by
      rw [isEnabled, hall]
      cases level <;> decide
    have hrecord : l'.recordOf level target message = l.recordOf level target message := by
      unfold recordOf
      rw [h.spans, h.now]
    rw [made_record, made_record, if_pos henabled, hrecord]
    rw [List.filter_cons, List.filter_nil]
    rfl
  | _ => rfl

/-- **What a level leaves out.**  Let a logger and one that takes everything go through the same
events, with the same spans open in the beginning.  Then the records of the first are the records of
the second whose level the first takes, in the same order and all else the same. -/
theorem written_eq_filter {l l' : Logger} (h : SameSpans l l') (hall : l'.level = .trace)
    (hs : ∀ e ∈ es, e.Steady) :
    l.written es = (l'.written es).filter fun r => r.level.atLeast l.level := by
  induction es generalizing l l' with
  | nil => rfl
  | cons e es ih =>
    obtain ⟨he, hes⟩ := List.forall_mem_cons.mp hs
    have hrest := ih (h.act e) ((level_act he l').trans hall) hes
    rw [level_act he l] at hrest
    rw [written, written, List.filter_append, ← made_eq_filter h hall e, ← hrest]

/-! ## Spans

  Numbers of spans only grow. So a span that is closed stays closed, and one that is open at the
  end was open all the time. -/

/-- All open spans have numbers that were given out. -/
def Numbered (l : Logger) : Prop :=
  ∀ s ∈ l.spans, s.id < l.nextSpan

/-- The spans that are open after an event: the same ones, a new one on top, or one less. -/
theorem spans_act (l : Logger) (e : LogEvent) :
    ((l.act e).spans = l.spans ∧ (l.act e).nextSpan = l.nextSpan) ∨
      (∃ name, (l.act e).spans = { id := l.nextSpan, name } :: l.spans ∧
        (l.act e).nextSpan = l.nextSpan + 1) ∨
      ((l.act e).spans = l.spans.tail ∧ (l.act e).nextSpan = l.nextSpan) := by
  cases e with
  | record level target message =>
    have hsame := sameSpans_log l level target message
    exact Or.inl ⟨hsame.spans, hsame.nextSpan⟩
  | enter name => exact Or.inr (Or.inl ⟨name, rfl, rfl⟩)
  | exit guard => exact Or.inr (Or.inr ⟨rfl, rfl⟩)
  | _ => exact Or.inl ⟨rfl, rfl⟩

/-- Spans keep their numbers, and a new one has a number of its own. -/
theorem Numbered.act {l : Logger} (h : l.Numbered) (e : LogEvent) : (l.act e).Numbered := by
  unfold Numbered
  rcases spans_act l e with ⟨hspans, hnext⟩ | ⟨name, hspans, hnext⟩ | ⟨hspans, hnext⟩
  · rw [hspans, hnext]
    exact h
  · rw [hspans, hnext]
    intro s hs
    rcases List.mem_cons.mp hs with rfl | hold
    · exact Nat.lt_succ_self _
    · exact Nat.lt_succ_of_lt (h s hold)
  · rw [hspans, hnext]
    exact fun s hs => h s (List.mem_of_mem_tail hs)

/-- After any events the open spans are numbered. -/
theorem Numbered.after {l : Logger} (h : l.Numbered) (es : List LogEvent) :
    (l.after es).Numbered := by
  induction es generalizing l with
  | nil => exact h
  | cons e es ih => exact ih (h.act e)

/-- Numbers are given out in order and never come back. -/
theorem nextSpan_le_act (l : Logger) (e : LogEvent) : l.nextSpan ≤ (l.act e).nextSpan := by
  rcases spans_act l e with ⟨-, hnext⟩ | ⟨name, -, hnext⟩ | ⟨-, hnext⟩ <;> omega

theorem nextSpan_le_after (l : Logger) (es : List LogEvent) :
    l.nextSpan ≤ (l.after es).nextSpan := by
  induction es generalizing l with
  | nil => exact Nat.le_refl _
  | cons e es ih => exact Nat.le_trans (nextSpan_le_act l e) (ih (l.act e))

/-- Of the spans `old` some are still open, and all that was opened on top of them has a number
from `n` on. -/
structure Above (n : Nat) (old : List Span) (l : Logger) (inner kept : List Span) : Prop where
  spans : l.spans = inner ++ kept
  suffix : kept <:+ old
  newer : ∀ s ∈ inner, n ≤ s.id
  bound : n ≤ l.nextSpan

/-- An event opens a span with a new number, or closes one, which may be an old one. -/
theorem Above.act {n : Nat} {old inner kept : List Span} {l : Logger}
    (h : Above n old l inner kept) (e : LogEvent) :
    ∃ inner' kept', Above n old (l.act e) inner' kept' ∧ kept' <:+ kept := by
  obtain ⟨hspans, hsuffix, hnewer, hbound⟩ := h
  -- The three things that an event can do to the stack.
  rcases spans_act l e with ⟨hsame, hnext⟩ | ⟨name, hnew, hnext⟩ | ⟨htail, hnext⟩
  · -- It stays as it is.
    refine ⟨inner, kept, ⟨hsame.trans hspans, hsuffix, hnewer, ?_⟩, List.suffix_rfl⟩
    omega
  · -- A span is opened, newer than all others, and lies above what is kept.
    refine ⟨{ id := l.nextSpan, name } :: inner, kept, ⟨?_, hsuffix, ?_, ?_⟩, List.suffix_rfl⟩
    · rw [hnew, hspans]
      rfl
    · intro s hs
      rcases List.mem_cons.mp hs with rfl | hold
      · exact hbound
      · exact hnewer s hold
    · omega
  · rw [hspans] at htail
    -- One is closed: the innermost of the new spans, or, if there is none, of those that are kept.
    rcases inner with _ | ⟨top, inner⟩
    · refine ⟨[], kept.tail, ⟨htail, ?_, List.forall_mem_nil _, ?_⟩, List.tail_suffix kept⟩
      · exact (List.tail_suffix kept).trans hsuffix
      · omega
    · refine ⟨inner, kept, ⟨htail, hsuffix, ?_, ?_⟩, List.suffix_rfl⟩
      · exact fun s hs => hnewer s (List.mem_cons_of_mem top hs)
      · omega

/-- What is above a span comes and goes; once the spans below are touched there is no way back. -/
theorem Above.after {n : Nat} {old inner kept : List Span} {l : Logger}
    (h : Above n old l inner kept) (es : List LogEvent) :
    ∃ inner' kept', Above n old (l.after es) inner' kept' ∧ kept' <:+ kept := by
  induction es generalizing l inner kept with
  | nil => exact ⟨inner, kept, h, List.suffix_rfl⟩
  | cons e es ih =>
    obtain ⟨inner₁, kept₁, h₁, hfewer₁⟩ := h.act e
    obtain ⟨inner₂, kept₂, h₂, hfewer₂⟩ := ih h₁
    exact ⟨inner₂, kept₂, h₂, hfewer₂.trans hfewer₁⟩

/-- **Spans are not opened twice.**  If after some events the same spans are open as before, then
these were open all along, below those that the events opened themselves. -/
theorem kept_open {l : Logger} (hl : l.Numbered) {before rest : List LogEvent}
    (hsame : (l.after (before ++ rest)).spans = l.spans) :
    ∃ inner, (l.after before).spans = inner ++ l.spans ∧ ∀ s ∈ inner, l.nextSpan ≤ s.id := by
  have hstart : Above l.nextSpan l.spans l [] l.spans :=
    ⟨rfl, List.suffix_rfl, List.forall_mem_nil _, Nat.le_refl _⟩
  obtain ⟨inner, kept, hmiddle, -⟩ := hstart.after before
  obtain ⟨inner', kept', hend, hfewer⟩ := hmiddle.after rest
  -- in the end none of the open spans is new, so all the old ones must be there
  rw [← after_append] at hend
  have hspans : l.spans = inner' ++ kept' := hsame.symm.trans hend.spans
  have hnothing : inner' = [] := by
    rcases inner' with _ | ⟨top, inner'⟩
    · rfl
    · have hold : top ∈ l.spans := by
        rw [hspans]
        exact List.mem_cons_self
      have hlow := hl top hold
      have hhigh := hend.newer top List.mem_cons_self
      omega
  rw [hnothing, List.nil_append] at hspans
  have hall : l.spans <:+ kept := hspans ▸ hfewer
  have hkept : kept = l.spans := hmiddle.suffix.eq_of_length_le hall.length_le
  refine ⟨inner, ?_, hmiddle.newer⟩
  rw [hmiddle.spans, hkept]

/-- A number that was given out, and that no open span has, is on no record any more. -/
theorem span_ne_of_closed {l : Logger} {n : Nat} (hclosed : ∀ s ∈ l.spans, s.id ≠ n)
    (hn : n < l.nextSpan) (es : List LogEvent) : ∀ r ∈ l.written es, r.span ≠ some n := by
  -- The number is gone for good, since those that come are greater.
  induction es generalizing l with
  | nil => exact List.forall_mem_nil _
  | cons e es ih =>
    intro r hr
    rcases List.mem_append.mp hr with hnow | hlater
    · rw [span_of_made hnow]
      intro hspan
      obtain ⟨s, hs, hid⟩ := Option.map_eq_some_iff.mp hspan
      exact hclosed s (List.mem_of_mem_head? hs) hid
    · refine ih ?_ ?_ r hlater
      · rcases spans_act l e with ⟨hspans, -⟩ | ⟨name, hspans, -⟩ | ⟨hspans, -⟩
        · rw [hspans]
          exact hclosed
        · rw [hspans]
          refine List.forall_mem_cons.mpr ⟨?_, hclosed⟩
          exact Nat.ne_of_gt hn
        · rw [hspans]
          exact fun s hs => hclosed s (List.mem_of_mem_tail hs)
      · exact Nat.lt_of_lt_of_le hn (nextSpan_le_act l e)

end Logger

end BoxRuntime
