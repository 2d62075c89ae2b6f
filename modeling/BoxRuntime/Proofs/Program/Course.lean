/-
  The course of a program.

  A program starts with a chain of callbacks that somebody else wrote, and all that is asked of them
  is that they are tidy: they use the logger as loggers are used, and leave the open spans as they
  found them.  What such a program does can then be told from outside (`Account`): which callbacks
  ran, and on which hosts; whether the main part ran; how the program ended; and what its log says,
  record by record.  That is also what the sinks got, unless a callback meddled with them or with
  the level (`Host.Wrote`).

  The account is built from turns.  A turn is one callback's share of the run: the program announces
  the callback and calls it, and if it fails reports that.  `Course` puts turns in a row, each on
  the host that the one before it left, up to the first that failed.

  Most of it is bookkeeping along the chain (`runFrom_course`).  The one point that needs thought is
  that the chain's span is open all through a turn.  A callback could close it by giving up a guard
  that is not its own, but it cannot open it again, and so would not be tidy (`Logger.kept_open`).
-/
import BoxRuntime.Program.Run
import BoxRuntime.Proofs.Heap.Cells
import BoxRuntime.Proofs.Log.Events
import BoxRuntime.Proofs.Triple

namespace BoxRuntime

variable {σ α : Type}

namespace Host

/-! ## The log of a host

  What was written between two hosts, and what of it came to the sinks. Stretches of work are put
  together by `Wrote.trans`. -/

/-- The host after a message of a component. -/
def note (h : Host σ) (level : Level) (component : Component) (message : String) : Host σ :=
  { h with machine.logger := h.machine.logger.log level component.target message }

theorem run_log {ε : Type} (h : Host σ) (level : Level) (component : Component) (message : String) :
    (InitChain.log level component message : EStateM ε (Host σ) Unit) h =
      .ok () (h.note level component message) :=
  rfl

/-- What the message writes to the log: one record, or none if its level is too low. -/
def noted (h : Host σ) (level : Level) (component : Component) (message : String) : List Record :=
  h.machine.logger.made (.record level component.target message)

/-- From the first host to the second, these records were written to the log.  Under the condition
`calm`, which is for nobody to meddle with level or sinks, they are what the sinks got. -/
structure Wrote (calm : Prop) (h : Host σ) (rs : List Record) (h' : Host σ) : Prop where
  events : ∃ es, h'.machine.logger = h.machine.logger.after es ∧ h.machine.logger.written es = rs
  got : calm → h.machine.logger.Got rs h'.machine.logger

variable {calm : Prop}

/-- Nothing was written if nothing happened. -/
theorem Wrote.refl (h : Host σ) : h.Wrote calm [] h :=
  ⟨⟨[], rfl, rfl⟩, fun _ => .refl _⟩

/-- What was written in two parts was written. -/
theorem Wrote.trans {h h' h'' : Host σ} {rs rs' : List Record} (hw : h.Wrote calm rs h')
    (hw' : h'.Wrote calm rs' h'') : h.Wrote calm (rs ++ rs') h'' := by
  refine ⟨?_, fun hcalm => (hw.got hcalm).trans (hw'.got hcalm)⟩
  obtain ⟨es, hlogger, rfl⟩ := hw.events
  obtain ⟨es', hlogger', rfl⟩ := hw'.events
  refine ⟨es ++ es', ?_, ?_⟩
  · rw [Logger.after_append, ← hlogger, hlogger']
  · rw [Logger.written_append, ← hlogger]

/-- A stronger condition can stand for a weaker one. -/
theorem Wrote.of_imp {calm' : Prop} {h h' : Host σ} {rs : List Record} (hw : h.Wrote calm rs h')
    (himp : calm' → calm) : h.Wrote calm' rs h' :=
  ⟨hw.events, fun hcalm => hw.got (himp hcalm)⟩

/-- Work of which the events are known. -/
theorem wrote_after {h h' : Host σ} {es : List LogEvent}
    (hlogger : h'.machine.logger = h.machine.logger.after es)
    (hsteady : calm → ∀ e ∈ es, e.Steady) : h.Wrote calm (h.machine.logger.written es) h' := by
  refine ⟨⟨es, hlogger, rfl⟩, fun hcalm => ?_⟩
  rw [hlogger]
  exact Logger.got_after (hsteady hcalm) h.machine.logger

/-- A steady event writes the records that it makes. -/
theorem wrote_act {h h' : Host σ} {e : LogEvent} (he : e.Steady)
    (hlogger : h'.machine.logger = h.machine.logger.act e) :
    h.Wrote calm (h.machine.logger.made e) h' := by
  rw [← Logger.written_singleton]
  exact wrote_after hlogger fun _ => List.forall_mem_singleton.mpr he

/-- A message of the program writes its record, if the level lets it pass. -/
theorem wrote_note (h : Host σ) (level : Level) (component : Component) (message : String) :
    h.Wrote calm (h.noted level component message) (h.note level component message) :=
  wrote_act (e := .record level component.target message) trivial rfl

/-- Nothing silences an error. -/
theorem noted_error (h : Host σ) (component : Component) (message : String) :
    h.noted .error component message =
      [h.machine.logger.recordOf .error component.target message] := by
  have henabled : h.machine.logger.isEnabled .error = true := by
    rw [Logger.isEnabled]
    cases h.machine.logger.level <;> decide
  rw [noted, Logger.made_record, if_pos henabled]

/-- A message opens no span and closes none. -/
theorem spans_note (h : Host σ) (level : Level) (component : Component) (message : String) :
    (h.note level component message).machine.logger.spans = h.machine.logger.spans :=
  (Logger.sameSpans_log h.machine.logger level component.target message).spans

theorem nextSpan_note (h : Host σ) (level : Level) (component : Component) (message : String) :
    (h.note level component message).machine.logger.nextSpan = h.machine.logger.nextSpan :=
  (Logger.sameSpans_log h.machine.logger level component.target message).nextSpan

/-- Whatever was written, the open spans are numbered. -/
theorem Wrote.numbered {h h' : Host σ} {rs : List Record} (hw : h.Wrote calm rs h')
    (hn : h.machine.logger.Numbered) : h'.machine.logger.Numbered := by
  obtain ⟨es, hlogger, -⟩ := hw.events
  rw [hlogger]
  exact hn.after es

/-- Numbers of spans do not come back. -/
theorem Wrote.nextSpan_le {h h' : Host σ} {rs : List Record} (hw : h.Wrote calm rs h') :
    h.machine.logger.nextSpan ≤ h'.machine.logger.nextSpan := by
  obtain ⟨es, hlogger, -⟩ := hw.events
  rw [hlogger]
  exact Logger.nextSpan_le_after _ es

/-- A message carries the number of the innermost open span. -/
theorem span_of_noted {h : Host σ} {span : Span} {outer : List Span} {level : Level}
    {component : Component} {message : String} (hspans : h.machine.logger.spans = span :: outer) :
    ∀ r ∈ h.noted level component message, r.span = some span.id := by
  intro r hr
  rw [Logger.span_of_made hr, hspans]
  rfl

end Host

/-- A callback that uses the logger in the ways there are, and leaves the open spans as it found
them. -/
structure Callback.Tidy (x : Callback σ α) : Prop where
  logs : ∀ h, ∃ es, (leftBy (x h)).machine.logger = h.machine.logger.after es
  spans : ∀ h, (leftBy (x h)).machine.logger.spans = h.machine.logger.spans

/-- The callback leaves the level alone, and the sinks but for what it writes to them. -/
def Callback.Calm (x : Callback σ α) : Prop :=
  ∀ h, ∃ es, (leftBy (x h)).machine.logger = h.machine.logger.after es ∧ ∀ e ∈ es, e.Steady

/-- What a tidy callback does to the logger of a host. -/
theorem Callback.Tidy.exists_events {x : Callback σ α} (hx : x.Tidy) (h : Host σ) :
    ∃ es, (leftBy (x h)).machine.logger = h.machine.logger.after es ∧
      (x.Calm → ∀ e ∈ es, e.Steady) := by
  by_cases hcalm : x.Calm
  · obtain ⟨es, hlogger, hsteady⟩ := hcalm h
    exact ⟨es, hlogger, fun _ => hsteady⟩
  · obtain ⟨es, hlogger⟩ := hx.logs h
    exact ⟨es, hlogger, fun h => absurd h hcalm⟩

/-! ## Turns

  A turn has happened if the callback had the result and the log that the turn says. What the
  program adds to that is an announcement, and a report if it failed. -/

/-- One initializer's share of a run. -/
structure Turn (σ : Type) where
  position : Nat
  initializer : Initializer σ
  /-- The host before the turn. -/
  before : Host σ
  /-- What the callback did to the logger. -/
  events : List LogEvent
  fault : Option Fault
  /-- The host that the callback left. -/
  left : Host σ

namespace Turn

/-- The text that announces an initializer. -/
def title (t : Turn σ) : String :=
  s!"running initializer #{t.position} '{t.initializer.name}'"

/-- The host on which the callback is called. -/
def start (t : Turn σ) : Host σ :=
  t.before.note .debug .init t.title

/-- The failure of the program, if the callback failed. -/
def failure? (t : Turn σ) : Option ProgramFailure :=
  t.fault.map (.init t.initializer.name)

/-- The host after the turn. -/
def finish (t : Turn σ) : Host σ :=
  match t.failure? with
  | none => t.left
  | some e => t.left.note .error .init e.message

/-- The record that announces the callback, if the level lets it pass. -/
def announced (t : Turn σ) : List Record :=
  t.before.noted .debug .init t.title

/-- The callback's own records. -/
def own (t : Turn σ) : List Record :=
  t.start.machine.logger.written t.events

/-- The record that says that the callback failed, if it did. -/
def reported (t : Turn σ) : List Record :=
  match t.failure? with
  | none => []
  | some e => [t.left.machine.logger.recordOf .error Component.init.target e.message]

def records (t : Turn σ) : List Record :=
  t.announced ++ t.own ++ t.reported

/-- The callback was called and did what the turn says. -/
structure Happened (t : Turn σ) : Prop where
  result : t.initializer.action t.start =
    match t.fault with
    | none => .ok () t.left
    | some f => .error f t.left
  logged : t.left.machine.logger = t.start.machine.logger.after t.events
  calm : t.initializer.action.Calm → ∀ e ∈ t.events, e.Steady
  spans : t.left.machine.logger.spans = t.start.machine.logger.spans

/-- All records of the turn are from inside a span: they carry its number, unless the callback has
opened spans of its own, of which they then carry the innermost. -/
structure Inside (t : Turn σ) (span : Span) (outer : List Span) : Prop where
  announced : ∀ r ∈ t.announced, r.span = some span.id
  own : ∀ past e rest, t.events = past ++ e :: rest →
    ∃ inner, (t.start.machine.logger.after past).spans = inner ++ span :: outer ∧
      ∀ r ∈ (t.start.machine.logger.after past).made e,
        r.span = some ((inner.head?.map Span.id).getD span.id)
  reported : ∀ r ∈ t.reported, r.span = some span.id

variable {t : Turn σ} {span : Span} {outer : List Span}

/-- A tidy callback gets its turn on whatever host. -/
theorem exists_of_tidy {i : Initializer σ} (hi : i.action.Tidy) (n : Nat) (h : Host σ) :
    ∃ t : Turn σ, t.position = n ∧ t.initializer = i ∧ t.before = h ∧ t.Happened := by
  let start := h.note .debug .init s!"running initializer #{n} '{i.name}'"
  obtain ⟨es, hlogger, hcalm⟩ := hi.exists_events start
  have hspans := hi.spans start
  -- A tidy callback has done something to the logger and has ended somehow: that makes the turn.
  cases hrun : i.action start with
  | ok a left =>
    rw [hrun] at hlogger hspans
    exact ⟨⟨n, i, h, es, none, left⟩, rfl, rfl, rfl, hrun, hlogger, hcalm, hspans⟩
  | error f left =>
    rw [hrun] at hlogger hspans
    exact ⟨⟨n, i, h, es, some f, left⟩, rfl, rfl, rfl, hrun, hlogger, hcalm, hspans⟩

/-- A turn is what the program makes of its initializer. -/
theorem Happened.runOne (ht : t.Happened) :
    InitChain.runOne t.position t.initializer t.before =
      match t.failure? with
      | none => .ok () t.finish
      | some e => .error e t.finish := by
  have hresult := ht.result
  rw [start] at hresult
  -- The turn is announced, and then the callback has the result that it had.
  refine (run_bind (t.before.run_log .debug .init t.title) _).trans ?_
  dsimp only
  rw [hresult]
  unfold finish failure?
  cases t.fault with
  | none => rfl
  | some f => rfl

/-- Before its turn an initializer is announced. -/
theorem wrote_start (calm : Prop) (t : Turn σ) : t.before.Wrote calm t.announced t.start :=
  t.before.wrote_note _ _ _

/-- **A turn writes its announcement, what the callback writes, and that it failed if it did.**. -/
theorem Happened.wrote {calm : Prop} (ht : t.Happened) (hcalm : calm → t.initializer.action.Calm) :
    t.before.Wrote calm t.records t.finish := by
  -- The announcement, what the callback wrote, and the report if there is one.
  have hown : t.start.Wrote calm t.own t.left :=
    Host.wrote_after ht.logged fun h => ht.calm (hcalm h)
  have hreport : t.left.Wrote calm t.reported t.finish := by
    unfold reported finish
    cases t.failure? with
    | none => exact .refl _
    | some e =>
      dsimp only
      rw [← Host.noted_error]
      exact t.left.wrote_note _ _ _
  exact ((t.wrote_start calm).trans hown).trans hreport

/-- The announcement is made under the spans that were open. -/
theorem spans_start (t : Turn σ) : t.start.machine.logger.spans = t.before.machine.logger.spans :=
  t.before.spans_note _ _ _

/-- The callback leaves these spans open. -/
theorem Happened.spans_left (ht : t.Happened) :
    t.left.machine.logger.spans = t.before.machine.logger.spans :=
  ht.spans.trans t.spans_start

theorem Happened.spans_finish (ht : t.Happened) :
    t.finish.machine.logger.spans = t.before.machine.logger.spans := by
  unfold finish
  cases t.failure? with
  | none => exact ht.spans_left
  | some e => exact (t.left.spans_note _ _ _).trans ht.spans_left

/-- A turn that begins inside a span is inside it. -/
theorem Happened.inside (ht : t.Happened) (hn : t.before.machine.logger.Numbered)
    (hspans : t.before.machine.logger.spans = span :: outer) : t.Inside span outer := by
  refine ⟨Host.span_of_noted hspans, ?_, ?_⟩
  · intro past e rest hevents
    have hstart : t.start.machine.logger.Numbered := (t.wrote_start True).numbered hn
    have hsame : (t.start.machine.logger.after (past ++ e :: rest)).spans =
        t.start.machine.logger.spans := by
      rw [← hevents, ← ht.logged]
      exact ht.spans
    -- The spans are back to what they were at the end of the turn, so at no time fewer were open.
    obtain ⟨inner, hopen, -⟩ := Logger.kept_open hstart hsame
    rw [t.spans_start, hspans] at hopen
    refine ⟨inner, hopen, ?_⟩
    intro r hr
    rw [Logger.span_of_made hr, hopen]
    cases inner with
    | nil => rfl
    | cons top inner => rfl
  · -- The report of a failure is written after that, in the span of the chain again.
    unfold reported
    cases t.failure? with
    | none => exact List.forall_mem_nil _
    | some e =>
      dsimp only
      rw [← Host.noted_error]
      exact Host.span_of_noted (ht.spans_left.trans hspans)

end Turn

/-! ## Courses

  Turns in a row. The statements are by induction over the course, with the span of the chain open
  all the while. -/

/-- The turns of initializers, the first of which has a given position.  Each turn begins on the
host that the one before it left, and one whose callback failed is the last. -/
inductive Course : Nat → List (Initializer σ) → Host σ → List (Turn σ) → Host σ → Prop where
  | done {n : Nat} {h : Host σ} : Course n [] h [] h
  | failed {t : Turn σ} {rest : List (Initializer σ)} : t.Happened → t.failure?.isSome →
      Course t.position (t.initializer :: rest) t.before [t] t.finish
  | next {t : Turn σ} {rest : List (Initializer σ)} {ts : List (Turn σ)} {last : Host σ} :
      t.Happened → t.failure? = none → Course (t.position + 1) rest t.finish ts last →
      Course t.position (t.initializer :: rest) t.before (t :: ts) last

/-- The failure of the program, if a callback failed. -/
def failureOf (turns : List (Turn σ)) : Option ProgramFailure :=
  turns.findSome? Turn.failure?

/-- What the turns wrote to the log. -/
def recordsOf (turns : List (Turn σ)) : List Record :=
  turns.flatMap Turn.records

/-- Initializers with tidy callbacks run in a course of turns. -/
theorem runFrom_course {is : List (Initializer σ)} (htidy : ∀ i ∈ is, i.action.Tidy) (n : Nat)
    (h : Host σ) :
    ∃ turns last, Course n is h turns last ∧
      InitChain.runFrom n is h =
        match failureOf turns with
        | none => .ok () last
        | some e => .error e last := by
  -- On the initializers that are left, from the position of the first of them.
  induction is generalizing n h with
  | nil => exact ⟨[], h, .done, rfl⟩
  | cons i rest ih =>
    obtain ⟨hi, hrest⟩ := List.forall_mem_cons.mp htidy
    obtain ⟨t, rfl, rfl, rfl, ht⟩ := Turn.exists_of_tidy hi n h
    have hone := ht.runOne
    -- A failure is the end of the chain.
    cases hfailure : t.failure? with
    | some e =>
      have hsome : t.failure?.isSome = true := by
        rw [hfailure]
        rfl
      rw [hfailure] at hone
      refine ⟨[t], t.finish, .failed ht hsome, ?_⟩
      rw [failureOf, List.findSome?_cons, hfailure]
      exact run_bind_error hone _
    -- Without one the others follow, from where this turn has left the host.
    | none =>
      rw [hfailure] at hone
      obtain ⟨ts, last, hcourse, hrun⟩ := ih hrest (t.position + 1) t.finish
      refine ⟨t :: ts, last, .next ht hfailure hcourse, ?_⟩
      rw [failureOf, List.findSome?_cons, hfailure]
      exact (run_bind hone _).trans hrun

namespace Course

variable {n : Nat} {is : List (Initializer σ)} {h last : Host σ} {turns : List (Turn σ)}

/-- The callbacks are called in order, none twice and none left out. -/
theorem order (hc : Course n is h turns last) : turns.map Turn.initializer <+: is := by
  induction hc with
  | done => exact List.prefix_rfl
  | failed _ _ => exact List.cons_prefix_cons.mpr ⟨rfl, List.nil_prefix⟩
  | next _ _ _ ih => exact List.cons_prefix_cons.mpr ⟨rfl, ih⟩

/-- If none fails, all are called. -/
theorem all_of_no_failure (hc : Course n is h turns last) (hnone : failureOf turns = none) :
    turns.map Turn.initializer = is := by
  have hnot : ∀ t ∈ turns, t.failure? = none := List.findSome?_eq_none_iff.mp hnone
  clear hnone
  -- On the course: it cannot have ended with a failure, so it has come to the end of the chain.
  induction hc with
  | done => rfl
  | failed _ hsome =>
    rw [hnot _ List.mem_cons_self] at hsome
    cases hsome
  | next _ _ _ ih =>
    rw [List.map_cons, ih fun t ht => hnot t (List.mem_cons_of_mem _ ht)]

/-- Only the last of them can have failed. -/
theorem only_last_failed (hc : Course n is h turns last) :
    ∀ t ∈ turns.dropLast, t.failure? = none := by
  -- On the course: a turn that is followed by another has not failed.
  induction hc with
  | done => exact List.forall_mem_nil _
  | failed _ _ => exact List.forall_mem_nil _
  | @next t rest ts last _ hnone _ ih =>
    cases ts with
    | nil => exact List.forall_mem_nil _
    | cons t' ts =>
      rw [List.dropLast_cons_cons]
      exact List.forall_mem_cons.mpr ⟨hnone, ih⟩

/-- A course writes what its turns write, in order. -/
theorem wrote {calm : Prop} (hc : Course n is h turns last)
    (hcalm : calm → ∀ i ∈ is, i.action.Calm) : h.Wrote calm (recordsOf turns) last := by
  -- On the course, turn by turn.
  induction hc with
  | done => exact .refl _
  | failed ht _ =>
    rw [recordsOf, List.flatMap_cons, List.flatMap_nil, List.append_nil]
    exact ht.wrote fun h => hcalm h _ List.mem_cons_self
  | next ht _ _ ih =>
    rw [recordsOf, List.flatMap_cons]
    have hfirst := ht.wrote fun h => hcalm h _ List.mem_cons_self
    have hrest := ih fun h i hi => hcalm h i (List.mem_cons_of_mem _ hi)
    exact hfirst.trans hrest

/-- After a course the spans are those from before. -/
theorem spans_eq (hc : Course n is h turns last) :
    last.machine.logger.spans = h.machine.logger.spans := by
  induction hc with
  | done => rfl
  | failed ht _ => exact ht.spans_finish
  | next ht _ _ ih => exact ih.trans ht.spans_finish

/-- A course that begins inside a span is inside it. -/
theorem inside {span : Span} {outer : List Span} (hc : Course n is h turns last)
    (hn : h.machine.logger.Numbered) (hspans : h.machine.logger.spans = span :: outer) :
    ∀ t ∈ turns, t.Inside span outer := by
  -- On the course: after a turn the spans are what they were, so the next one begins like it.
  induction hc with
  | done => exact List.forall_mem_nil _
  | failed ht _ =>
    intro t hmem
    rw [List.mem_singleton.mp hmem]
    exact ht.inside hn hspans
  | next ht _ _ ih =>
    refine List.forall_mem_cons.mpr ⟨ht.inside hn hspans, ih ?_ ?_⟩
    · exact (ht.wrote id).numbered hn
    · exact ht.spans_finish.trans hspans

end Course

/-! ## Programs

  The chain in its span, the system object, the main part, and the account of all of it. -/

namespace Host

variable {calm : Prop}

/-- The span of the program's chain. -/
def chainSpan (h : Host σ) : Span where
  id := h.machine.logger.nextSpan
  name := "init"

/-- The host on which the chain of a program begins: the program is announced and the chain's span
is open. -/
def opened (h : Host σ) (title : String) : Host σ :=
  let h := h.note .info .runtime title
  { h with machine.logger := (h.machine.logger.enterSpan "init").2 }

/-- The host when the chain is over and its span closed. -/
def closed (h : Host σ) (span : Span) : Host σ :=
  { h with machine.logger := h.machine.logger.exitSpan ⟨span.id⟩ }

/-- The system object. -/
def system (h : Host σ) : Handle :=
  (h.machine.heap.alloc (.int 1) .fixed).1

/-- The host with the box of the system object. -/
def withSystem (h : Host σ) : Host σ :=
  { h with machine.heap := (h.machine.heap.alloc (.int 1) .fixed).2 }

/-- The system object is a new box. -/
theorem system_new (h : Host σ) : h.machine.heap.isLive h.system.id = false := by
  have hcell : h.machine.heap.cell? h.system.id = none := Heap.cell?_of_nextId_le (Nat.le_refl _)
  rw [Heap.isLive, hcell]
  rfl

/-- Its handle is the only one. -/
theorem count_system (h : Host σ) : h.withSystem.machine.heap.count h.system.id = 1 := by
  have hcell : h.withSystem.machine.heap.cell? h.system.id =
      some { others := 0, content := .fixed } :=
    (Heap.cell?_alloc h.machine.heap (.int 1) .fixed h.system.id).trans (if_pos rfl)
  exact Heap.count_of_cell? hcell

/-- A chain opens a span of its own. -/
theorem spans_opened (h : Host σ) (title : String) :
    (h.opened title).machine.logger.spans = h.chainSpan :: h.machine.logger.spans := by
  have hspans := h.spans_note .info .runtime title
  have hnext := h.nextSpan_note .info .runtime title
  show ({ id := _, name := "init" } :: _ : List Span) = _
  rw [hspans, hnext]
  rfl

/-- Opening it is told in one record, from within the span. -/
theorem wrote_opened (h : Host σ) (title : String) :
    h.Wrote calm (h.noted .info .runtime title) (h.opened title) := by
  have hopen : (h.note .info .runtime title).Wrote calm [] (h.opened title) :=
    wrote_act (e := .enter "init") trivial rfl
  have hboth := (h.wrote_note .info .runtime title).trans hopen
  rw [List.append_nil] at hboth
  exact hboth

/-- Later spans have other numbers. -/
theorem chainSpan_lt_opened (h : Host σ) (title : String) :
    h.chainSpan.id < (h.opened title).machine.logger.nextSpan := by
  show h.machine.logger.nextSpan < (h.note .info .runtime title).machine.logger.nextSpan + 1
  rw [h.nextSpan_note]
  exact Nat.lt_succ_self _

theorem wrote_closed (h : Host σ) (span : Span) : h.Wrote calm [] (h.closed span) :=
  wrote_act (e := .exit ⟨span.id⟩) trivial rfl

end Host

/-- The text that announces a program. -/
def InitChain.title (chain : InitChain σ) : String :=
  s!"starting program ({chain.length} initializers)"

/-- All callbacks leave level and sinks alone. -/
def InitChain.Calm (chain : InitChain σ) : Prop :=
  ∀ i ∈ chain.initializers, i.action.Calm

/-- What a program has written to the log when its chain is over. -/
def chainRecords (chain : InitChain σ) (h : Host σ) (turns : List (Turn σ)) : List Record :=
  h.noted .info .runtime chain.title ++ recordsOf turns

/-- A program's main part ran on a host, in which some records had been written already, and this is
how the program ended. -/
structure MainRan (calm : Prop) (main : Handle → Callback σ α) (h : Host σ) (rs : List Record)
    (ready : Host σ) (result : EStateM.Result ProgramFailure (Host σ) α) : Prop where
  /-- The program has the value or the fault of its main part, and only a program with a value is
  said to have finished. -/
  result_eq : result =
    match main ready.system ready.withSystem with
    | .ok a left => .ok a (left.note .info .runtime "program finished")
    | .error f left => .error (.main f) left
  /-- A failure is of the same kind as the fault and has its exit code. -/
  wrapped : ∀ e left, result = .error e left →
    ∃ f, main ready.system ready.withSystem = .error f left ∧ e.kind = f.kind ∧
      e.exitCode = f.exitCode
  /-- The main part begins with the spans from before the program, and those that it leaves open are
  open in the end. -/
  spans : ready.withSystem.machine.logger.spans = h.machine.logger.spans ∧
    (leftBy result).machine.logger.spans =
      (leftBy (main ready.system ready.withSystem)).machine.logger.spans
  /-- The records of the main part follow those of the chain, and do not carry its span. -/
  wrote : ∀ es, (leftBy (main ready.system ready.withSystem)).machine.logger =
      ready.machine.logger.after es →
    (∀ r ∈ ready.machine.logger.written es, r.span ≠ some h.chainSpan.id) ∧
      h.Wrote (calm ∧ ∀ e ∈ es, e.Steady)
        (rs ++ ready.machine.logger.written es ++
          match main ready.system ready.withSystem with
          | .ok _ left => left.noted .info .runtime "program finished"
          | .error _ _ => [])
        (leftBy result)

/-- All there is to tell of a program that starts with a chain of callbacks on a host: the turns of
the chain, and what comes of them whatever the main part is. -/
structure Account (chain : InitChain σ) (h : Host σ) (turns : List (Turn σ)) (last : Host σ) :
    Prop where
  course : Course 0 chain.initializers (h.opened chain.title) turns last
  order : turns.map Turn.initializer <+: chain.initializers
  only_last_failed : ∀ t ∈ turns.dropLast, t.failure? = none
  /-- No span that was open before has the number of the chain's span. -/
  fresh : ∀ s ∈ h.machine.logger.spans, s.id ≠ h.chainSpan.id
  inside : ∀ t ∈ turns, t.Inside h.chainSpan h.machine.logger.spans
  spans : (last.closed h.chainSpan).machine.logger.spans = h.machine.logger.spans
  wrote : h.Wrote chain.Calm (chainRecords chain h turns) (last.closed h.chainSpan)
  /-- If a callback failed, that ends the program, and there is no main part. -/
  stopped : ∀ e, failureOf turns = some e →
    (∃ t ∈ turns, ∃ f, t.fault = some f ∧ e = .init t.initializer.name f ∧ e.kind = f.kind ∧
      e.exitCode = f.exitCode) ∧
    ∀ (α : Type) (main : Handle → Callback σ α),
      runProgram chain main h = .error e (last.closed h.chainSpan)
  /-- If none failed, all were called, and the main part runs, with a new box. -/
  completed : failureOf turns = none →
    turns.map Turn.initializer = chain.initializers ∧
    last.system.datum = .int 1 ∧ last.machine.heap.isLive last.system.id = false ∧
      last.withSystem.machine.heap.count last.system.id = 1 ∧
    ∀ (α : Type) (main : Handle → Callback σ α),
      MainRan chain.Calm main h (chainRecords chain h turns) (last.closed h.chainSpan)
        (runProgram chain main h)

/-- The chain of a program, and the closing of its span. -/
theorem run_chain {chain : InitChain σ} {h last : Host σ} {turns : List (Turn σ)}
    (hrun : InitChain.runFrom 0 chain.initializers (h.opened chain.title) =
      match failureOf turns with
      | none => .ok () last
      | some e => .error e last) :
    chain.run (h.note .info .runtime chain.title) =
      match failureOf turns with
      | none => .ok () (last.closed h.chainSpan)
      | some e => .error e (last.closed h.chainSpan) := by
  unfold InitChain.run
  dsimp only
  have hopened : InitChain.runFrom 0 chain.initializers (h.opened chain.title) = _ := hrun
  unfold Host.opened at hopened
  dsimp only at hopened
  rw [hopened]
  -- The span is closed in either case.
  cases failureOf turns with
  | none => rfl
  | some e => rfl

/-- The main part of a program, once the chain is over. -/
theorem main_ran {chain : InitChain σ} {calm : Prop} {h ready : Host σ} {rs : List Record}
    (hchain : chain.run (h.note .info .runtime chain.title) = .ok () ready)
    (hfresh : ∀ s ∈ h.machine.logger.spans, s.id ≠ h.chainSpan.id)
    (hspans : ready.machine.logger.spans = h.machine.logger.spans)
    (hnext : h.chainSpan.id < ready.machine.logger.nextSpan)
    (hwrote : h.Wrote calm rs ready) (main : Handle → Callback σ α) :
    MainRan calm main h rs ready (runProgram chain main h) := by
  have hstart := h.run_log (ε := ProgramFailure) .info .runtime chain.title
  have hbox : Host.on ProgramFailure.main (Machine.boxInt 1) ready =
      .ok ready.system ready.withSystem := rfl
  have hclosed : ∀ s ∈ ready.machine.logger.spans, s.id ≠ h.chainSpan.id := by
    rw [hspans]
    exact hfresh
  -- The span of the chain is closed and its number used up, so no later record can have it.
  have hown : ∀ es, ∀ r ∈ ready.machine.logger.written es, r.span ≠ some h.chainSpan.id :=
    fun es => Logger.span_ne_of_closed hclosed hnext es
  -- Announced, chain run, system object made: what is left is the callback of the main part.
  have hresult : runProgram chain main h =
      match main ready.system ready.withSystem with
      | .ok a left => .ok a (left.note .info .runtime "program finished")
      | .error f left => .error (.main f) left := by
    refine (run_bind hstart _).trans ((run_bind hchain _).trans ((run_bind hbox _).trans ?_))
    cases hmain : main ready.system ready.withSystem with
    | ok a left =>
      have hrun : runMain main ready.system ready.withSystem = .ok a left := by
        rw [runMain, hmain]
      exact run_bind hrun _
    | error f left =>
      have hrun : runMain main ready.system ready.withSystem = .error (.main f) left := by
        rw [runMain, hmain]
      exact run_bind_error hrun _
  refine ⟨hresult, ?_, ⟨hspans, ?_⟩, ?_⟩
  · -- If the program fails, it does so as the main part does.
    intro e left herror
    rw [hresult] at herror
    cases hmain : main ready.system ready.withSystem with
    | ok a s =>
      rw [hmain] at herror
      cases herror
    | error f s =>
      rw [hmain] at herror
      obtain ⟨rfl, rfl⟩ := EStateM.Result.error.inj herror
      exact ⟨f, rfl, rfl, rfl⟩
  · -- The main part is followed by one message at most, and that opens no span.
    rw [hresult]
    cases main ready.system ready.withSystem with
    | ok a left => exact left.spans_note .info .runtime "program finished"
    | error f left => rfl
  · -- What is logged from here on: the events of the main part, and the message at the end if it
    -- gets there.
    intro es hlogger
    refine ⟨hown es, ?_⟩
    have hbegun : h.Wrote (calm ∧ ∀ e ∈ es, e.Steady) rs ready := hwrote.of_imp And.left
    rw [hresult]
    cases hmain : main ready.system ready.withSystem with
    | ok a left =>
      rw [hmain] at hlogger
      have hleft : ready.Wrote (calm ∧ ∀ e ∈ es, e.Steady) (ready.machine.logger.written es) left :=
        Host.wrote_after hlogger And.right
      exact (hbegun.trans hleft).trans (left.wrote_note .info .runtime "program finished")
    | error f left =>
      rw [hmain] at hlogger
      have hleft : ready.Wrote (calm ∧ ∀ e ∈ es, e.Steady) (ready.machine.logger.written es) left :=
        Host.wrote_after hlogger And.right
      rw [List.append_nil]
      exact hbegun.trans hleft

/-- **What a program does.**  Every program whose callbacks are tidy, on every host, runs the course
that its account tells. -/
theorem runProgram_account {chain : InitChain σ}
    (htidy : ∀ i ∈ chain.initializers, i.action.Tidy) {h : Host σ}
    (hn : h.machine.logger.Numbered) : ∃ turns last, Account chain h turns last := by
  -- The chain is a course of turns, within a span that is opened before and closed after it.
  obtain ⟨turns, last, hcourse, hrun⟩ := runFrom_course htidy 0 (h.opened chain.title)
  have hchain := run_chain hrun
  have hopened := h.spans_opened chain.title
  have hfresh : ∀ s ∈ h.machine.logger.spans, s.id ≠ h.chainSpan.id :=
    fun s hs => Nat.ne_of_lt (hn s hs)
  have hspans : (last.closed h.chainSpan).machine.logger.spans = h.machine.logger.spans := by
    show last.machine.logger.spans.tail = _
    rw [hcourse.spans_eq, hopened, List.tail_cons]
  have hbegun : h.Wrote chain.Calm (h.noted .info .runtime chain.title) (h.opened chain.title) :=
    h.wrote_opened chain.title
  have hended : (h.opened chain.title).Wrote chain.Calm (recordsOf turns)
      (last.closed h.chainSpan) := by
    have hboth := (hcourse.wrote id).trans (last.wrote_closed h.chainSpan)
    rw [List.append_nil] at hboth
    exact hboth
  have hnext : h.chainSpan.id < (last.closed h.chainSpan).machine.logger.nextSpan :=
    Nat.lt_of_lt_of_le (h.chainSpan_lt_opened chain.title) hended.nextSpan_le
  have hwrote : h.Wrote chain.Calm (chainRecords chain h turns) (last.closed h.chainSpan) :=
    hbegun.trans hended
  refine ⟨turns, last, hcourse, hcourse.order, hcourse.only_last_failed, hfresh, ?_, hspans, hwrote,
    ?_, ?_⟩
  · -- While a turn lasts, what it logs is in its span.
    exact hcourse.inside (hbegun.numbered hn) hopened
  · -- The chain has failed: with the first failure of its turns, and the main part is not begun.
    intro e he
    refine ⟨?_, ?_⟩
    · obtain ⟨t, ht, hfailure⟩ := List.exists_of_findSome?_eq_some he
      obtain ⟨f, hfault, rfl⟩ := Option.map_eq_some_iff.mp hfailure
      exact ⟨t, ht, f, hfault, rfl, rfl, rfl⟩
    · intro α main
      rw [he] at hchain
      have hstart := h.run_log (ε := ProgramFailure) .info .runtime chain.title
      exact (run_bind hstart _).trans (run_bind_error hchain _)
  · -- The chain has not failed, so all initializers had their turn, and the main part follows.
    intro hnone
    rw [hnone] at hchain
    refine ⟨hcourse.all_of_no_failure hnone, rfl, last.system_new, last.count_system, ?_⟩
    intro α main
    exact main_ran hchain hfresh hspans hnext hwrote main

/-- A program inside a span of somebody else, with a callback that opens a span of its own and one
that fails. -/
theorem runProgram_account_second_fails :
    ∃ (chain : InitChain Unit) (h : Host Unit) (turns : List (Turn Unit)) (last : Host Unit),
      chain.names = ["greet", "load"] ∧ h.machine.logger.spans = [⟨1, "shell"⟩] ∧
        Account chain h turns last ∧ failureOf turns = some (.init "load" .keyNotFound) := by
  let talk : List LogEvent := [.enter "hello", .record .info "app" "good morning", .exit ⟨0⟩]
  let greet : Initializer Unit :=
    { name := "greet"
      action := fun h => .ok () { h with machine.logger := h.machine.logger.after talk } }
  let load : Initializer Unit := { name := "load", action := fun h => .error .keyNotFound h }
  let logger : Logger :=
    { level := .debug, sinks := [.ring (.empty ⟨16, by decide⟩)], spans := [⟨1, "shell"⟩]
      nextSpan := 2 }
  have htidy : ∀ i ∈ [greet, load], i.action.Tidy := by
    refine List.forall_mem_cons.mpr ⟨⟨fun h => ⟨talk, rfl⟩, ?_⟩, ?_⟩
    · intro h
      have hlog := Logger.sameSpans_log (h.machine.logger.enterSpan "hello").2 .info "app"
        "good morning"
      exact congrArg List.tail hlog.spans
    · refine List.forall_mem_cons.mpr ⟨⟨fun h => ⟨[], rfl⟩, fun h => rfl⟩, List.forall_mem_nil _⟩
  have hn : logger.Numbered := by
    intro s hs
    rw [List.mem_singleton.mp hs]
    decide
  let chain : InitChain Unit := { initializers := [greet, load] }
  let h : Host Unit := { machine := { logger }, own := () }
  have hall : ∃ turns last, Account chain h turns last := runProgram_account htidy hn
  obtain ⟨turns, last, haccount⟩ := hall
  refine ⟨chain, h, turns, last, rfl, rfl, haccount, ?_⟩
  -- the program fails with this, so it is what the account says
  have hrun : ∃ s, runProgram chain (fun _ => (pure () : Callback Unit Unit)) h =
      .error (.init "load" .keyNotFound) s := ⟨_, rfl⟩
  obtain ⟨s, hrun⟩ := hrun
  cases hfailure : failureOf turns with
  | none =>
    obtain ⟨-, -, -, -, hmain⟩ := haccount.completed hfailure
    have hresult := (hmain Unit fun _ => pure ()).result_eq
    rw [hrun] at hresult
    cases hresult
  | some e =>
    have hresult := (haccount.stopped e hfailure).2 Unit fun _ => pure ()
    rw [hrun] at hresult
    rw [(EStateM.Result.error.inj hresult).1]

end BoxRuntime
