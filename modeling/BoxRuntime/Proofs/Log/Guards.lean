/-
  Open spans and the guards that are held.

  Whoever enters a span gets a guard for it and gives it up when the span is over.  A guard is a
  value like any other: it can be kept, passed on, and given up at any time, so guards need not be
  given up in the reverse of the order in which they came.  `Custody` is what the holders of guards
  know: the spans whose guards are still held, the last entered first.

  A logger does not look at the guard that it gets back, it closes the innermost span.  This module
  compares its open spans with the spans in custody, for every list of events in which only guards
  that are held are given up (`Guarded`).

  * There are always as many open spans as guards held.
  * A span is open as long as more guards are held than when it was entered, whichever they are
    (`SpanAccount.open_iff`).
  * So the open spans are those in custody all the time exactly if each guard that is given up is
    that of the last span entered among those in custody (`WellNested`).

  The crux is one step, `spans_eq_iff`: from the same spans on both sides, the tail of the one list
  is the other list without the guard's span exactly if that span comes first.
-/
import BoxRuntime.Proofs.Log.Events

namespace BoxRuntime

/-! ## Custody

  What can be known of guards without a logger: entering adds one, giving up takes away the one
  with the number. -/

/-- The spans whose guards are held, the last entered first, and the number of the next span. -/
structure Custody where
  held : List Span := []
  next : Nat := 1

namespace Custody

def act (c : Custody) : LogEvent → Custody
  | .enter name => { held := { id := c.next, name } :: c.held, next := c.next + 1 }
  | .exit guard => { c with held := c.held.filter fun s => s.id != guard.id }
  | _ => c

def after (c : Custody) (es : List LogEvent) : Custody :=
  es.foldl act c

@[simp] theorem after_nil (c : Custody) : c.after [] = c :=
  rfl

@[simp] theorem after_cons (c : Custody) (e : LogEvent) (es : List LogEvent) :
    c.after (e :: es) = (c.act e).after es :=
  rfl

theorem after_append (c : Custody) (es fs : List LogEvent) :
    c.after (es ++ fs) = (c.after es).after fs :=
  List.foldl_append

/-- If a guard is given up, it is one of those that are held. -/
def Has (c : Custody) : LogEvent → Prop
  | .exit guard => guard.id ∈ c.held.map Span.id
  | _ => True

/-- If a guard is given up, it is that of the span which was entered last. -/
def HasLast (c : Custody) : LogEvent → Prop
  | .exit guard => (c.held.map Span.id).head? = some guard.id
  | _ => True

/-- A condition on each event and the custody that it meets. -/
def Throughout (P : Custody → LogEvent → Prop) : Custody → List LogEvent → Prop
  | _, [] => True
  | c, e :: es => P c e ∧ Throughout P (c.act e) es

/-- Only guards that are held are given up. -/
def Guarded (c : Custody) (es : List LogEvent) : Prop :=
  Throughout Has c es

/-- Guards are given up in the reverse of the order in which they came. -/
def WellNested (c : Custody) (es : List LogEvent) : Prop :=
  Throughout HasLast c es

/-- Whoever has the last guard has the guard. -/
theorem HasLast.has {c : Custody} {e : LogEvent} (h : c.HasLast e) : c.Has e := by
  cases e with
  | exit guard => exact List.mem_of_mem_head? h
  | _ => trivial

/-- What holds throughout two lists of events holds throughout both, one after the other. -/
theorem throughout_append {P : Custody → LogEvent → Prop} {c : Custody} {es fs : List LogEvent} :
    Throughout P c (es ++ fs) ↔ Throughout P c es ∧ Throughout P (c.after es) fs := by
  induction es generalizing c with
  | nil => simp [Throughout]
  | cons e es ih => simp [Throughout, ih, and_assoc]

/-! ### Numbers -/

/-- The spans in custody have different numbers, all of which were given out. -/
def Numbered (c : Custody) : Prop :=
  (c.next :: c.held.map Span.id).Pairwise fun a b => b < a

/-- A new guard has a number of its own. -/
theorem Numbered.act {c : Custody} (h : c.Numbered) (e : LogEvent) : (c.act e).Numbered := by
  cases e with
  | enter name =>
    -- The new number is the greatest.
    refine List.Pairwise.cons ?_ h
    intro n hn
    rcases List.mem_cons.mp hn with rfl | hold
    · exact Nat.lt_succ_self _
    · exact Nat.lt_succ_of_lt (List.rel_of_pairwise_cons h hold)
  | exit guard =>
    -- Fewer guards are held, in the same order.
    have hfewer : (c.held.filter fun s => s.id != guard.id).Sublist c.held := List.filter_sublist
    exact h.sublist ((hfewer.map Span.id).cons_cons c.next)
  | _ => exact h

/-- Spans with other numbers are not affected by leaving out one. -/
theorem filter_of_not_mem {held : List Span} {n : Nat} (hn : n ∉ held.map Span.id) :
    (held.filter fun s => s.id != n) = held := by
  refine List.filter_eq_self.mpr fun s hs => ?_
  have hne : s.id ≠ n := fun heq => hn (heq ▸ List.mem_map_of_mem hs)
  simpa using hne

/-- Without the span of a guard that is held, one span less is in custody. -/
theorem length_filter {held : List Span} (hdistinct : (held.map Span.id).Nodup) {n : Nat}
    (hn : n ∈ held.map Span.id) :
    (held.filter fun s => s.id != n).length = held.length - 1 := by
  -- The first guard is the one with the number, and then no other is; or it is kept.
  induction held with
  | nil => cases hn
  | cons s held ih =>
    rw [List.map_cons, List.nodup_cons] at hdistinct
    rcases List.mem_cons.mp hn with rfl | hlater
    · rw [List.filter_cons_of_neg (by simp), filter_of_not_mem hdistinct.1]
      rfl
    · have hne : s.id ≠ n := fun heq => hdistinct.1 (heq ▸ hlater)
      have hsome : 0 < held.length := by
        obtain ⟨t, ht, -⟩ := List.mem_map.mp hlater
        exact List.length_pos_of_mem ht
      rw [List.filter_cons_of_pos (by simpa using hne), List.length_cons, List.length_cons,
        ih hdistinct.2 hlater]
      omega

/-- No two guards have the same number. -/
theorem Numbered.nodup {c : Custody} (h : c.Numbered) : (c.held.map Span.id).Nodup :=
  h.of_cons.imp fun hlt => Nat.ne_of_gt hlt

/-- Leaving out the span of a guard is leaving out the first span exactly if that is its span. -/
theorem tail_eq_filter_iff {held : List Span} (hdistinct : (held.map Span.id).Nodup) {n : Nat}
    (hn : n ∈ held.map Span.id) :
    (held.tail = held.filter fun s => s.id != n) ↔ (held.map Span.id).head? = some n := by
  cases held with
  | nil => cases hn
  | cons s held =>
    rw [List.map_cons, List.nodup_cons] at hdistinct
    rw [List.map_cons, List.head?_cons, List.tail_cons]
    constructor
    · intro htail
      -- if the first span stayed, it would be among the later ones as well
      by_cases hfirst : s.id = n
      · rw [hfirst]
      · rw [List.filter_cons_of_pos (by simpa using hfirst)] at htail
        have hin : s ∈ held := htail ▸ List.mem_cons_self
        exact absurd (List.mem_map_of_mem hin) hdistinct.1
    · intro hfirst
      obtain rfl := Option.some.inj hfirst
      rw [List.filter_cons_of_neg (by simp), filter_of_not_mem hdistinct.1]

end Custody

namespace Logger

/-! ## One step

  Logger and custody side by side. How many spans are open agrees as long as no guard is given up
  twice; which ones are open need not. -/

/-- The spans that are open after an event. -/
theorem spans_of_act (l : Logger) (e : LogEvent) :
    (l.act e).spans =
      match e with
      | .enter name => { id := l.nextSpan, name } :: l.spans
      | .exit _ => l.spans.tail
      | _ => l.spans := by
  cases e with
  | record level target message => exact (sameSpans_log l level target message).spans
  | _ => rfl

/-- Entering a span takes a number, and nothing else does. -/
theorem nextSpan_of_act (l : Logger) (e : LogEvent) :
    (l.act e).nextSpan =
      match e with
      | .enter _ => l.nextSpan + 1
      | _ => l.nextSpan := by
  cases e with
  | record level target message => exact (sameSpans_log l level target message).nextSpan
  | _ => rfl

/-- As many spans are open as are in custody, and both sides go on with the same number. -/
structure Counts (l : Logger) (c : Custody) : Prop where
  numbered : c.Numbered
  next : l.nextSpan = c.next
  depth : l.spans.length = c.held.length

variable {l : Logger} {c : Custody} {es : List LogEvent}

/-- **As many spans are open as guards are held**, and one event keeps it so, whichever guard is
given up. -/
theorem Counts.act (h : l.Counts c) {e : LogEvent} (he : c.Has e) : (l.act e).Counts (c.act e) := by
  -- Numbers go up together. Depths do as long as a guard that is dropped is one that is held.
  obtain ⟨hnumbered, hnext, hdepth⟩ := h
  refine ⟨hnumbered.act e, ?_, ?_⟩
  · rw [nextSpan_of_act]
    cases e with
    | enter name => exact congrArg (· + 1) hnext
    | _ => exact hnext
  · rw [spans_of_act]
    cases e with
    | enter name => exact congrArg (· + 1) hdepth
    | exit guard =>
      show l.spans.tail.length = (c.held.filter fun s => s.id != guard.id).length
      rw [Custody.length_filter hnumbered.nodup he, List.length_tail, hdepth]
    | _ => exact hdepth

/-- Any run of events keeps it so. -/
theorem Counts.after (h : l.Counts c) (hes : c.Guarded es) : (l.after es).Counts (c.after es) := by
  induction es generalizing l c with
  | nil => exact h
  | cons e es ih => exact ih (h.act hes.1) hes.2

/-- If the open spans are those in custody, they are so after an event exactly if this is not a
guard given up out of order. -/
theorem spans_eq_iff (h : l.Counts c) (hsame : l.spans = c.held) {e : LogEvent} (he : c.Has e) :
    (l.act e).spans = (c.act e).held ↔ c.HasLast e := by
  rw [spans_of_act]
  cases e with
  -- Entering puts the same span on both.
  | enter name =>
    have hboth : ({ id := l.nextSpan, name } :: l.spans : List Span) =
        { id := c.next, name } :: c.held := by rw [h.next, hsame]
    exact ⟨fun _ => trivial, fun _ => hboth⟩
  | exit guard =>
    -- Giving up takes the first span away from the one list and the guard's from the other.
    show l.spans.tail = (c.held.filter fun s => s.id != guard.id) ↔ _
    rw [hsame]
    exact Custody.tail_eq_filter_iff h.numbered.nodup he
  | _ => exact ⟨fun _ => trivial, fun _ => hsame⟩

/-! ## Runs

  By induction over the events, from a logger and a custody that agree. -/

/-- With guards given up in order, the open spans are those in custody. -/
theorem spans_of_wellNested (h : l.Counts c) (hsame : l.spans = c.held) (hes : c.WellNested es) :
    (l.after es).spans = (c.after es).held := by
  induction es generalizing l c with
  | nil => exact hsame
  | cons e es ih =>
    have he := hes.1.has
    exact ih (h.act he) ((spans_eq_iff h hsame he).mpr hes.1) hes.2

/-- If the open spans are always those of the guards held, then guards were given up in order: a
guard that was not the last would have closed another span. -/
theorem wellNested_of_spans (h : l.Counts c) (hes : c.Guarded es)
    (hall : ∀ before, before <+: es → (l.after before).spans = (c.after before).held) :
    c.WellNested es := by
  -- On the events: the lists agree before and after the first, so it was a good one.
  induction es generalizing l c with
  | nil => trivial
  | cons e es ih =>
    have hsame : l.spans = c.held := hall [] (List.nil_prefix)
    have hnext : (l.act e).spans = (c.act e).held := hall [e] ⟨es, rfl⟩
    refine ⟨(spans_eq_iff h hsame hes.1).mp hnext, ih (h.act hes.1) hes.2 ?_⟩
    rintro before ⟨rest, rfl⟩
    exact hall (e :: before) ⟨rest, rfl⟩

/-- A span stays open as long as more spans are open than there were below it. -/
theorem stays_open {inner old : List Span} {s : Span} (hspans : l.spans = inner ++ s :: old)
    (hdeep : ∀ before, before <+: es → old.length < (l.after before).spans.length) :
    ∃ inner', (l.after es).spans = inner' ++ s :: old := by
  induction es generalizing l inner with
  | nil => exact ⟨inner, hspans⟩
  | cons e es ih =>
    have hlater : ∀ before, before <+: es →
        old.length < ((l.act e).after before).spans.length := by
      rintro before ⟨rest, rfl⟩
      exact hdeep (e :: before) ⟨rest, rfl⟩
    rcases spans_act l e with ⟨hkept, -⟩ | ⟨name, hnew, -⟩ | ⟨htail, -⟩
    · exact ih (hkept.trans hspans) hlater
    · have hbelow : (l.act e).spans = ({ id := l.nextSpan, name } :: inner) ++ s :: old := by
        rw [hnew, hspans]
        rfl
      exact ih hbelow hlater
    · rw [hspans] at htail
      rcases inner with _ | ⟨top, inner⟩
      · -- the span itself would be closed, and then no more spans would be open than below it
        have hclosed : (l.act e).spans = old := htail
        have hdepth : old.length < (l.act e).spans.length := hlater [] List.nil_prefix
        rw [hclosed] at hdepth
        omega
      · exact ih htail hlater

/-- **How long a span is open.**  It is, until no more spans are open than when it was entered. -/
theorem open_iff_deep (hl : l.Numbered) (name : String) :
    { id := l.nextSpan, name } ∈ (l.after (.enter name :: es)).spans ↔
      ∀ before, before <+: es →
        l.spans.length < (l.after (.enter name :: before)).spans.length := by
  let s : Span := { id := l.nextSpan, name }
  have hopened : (l.act (.enter name)).spans = [] ++ s :: l.spans := rfl
  have hstart : Above (l.nextSpan + 1) (s :: l.spans) (l.act (.enter name)) [] (s :: l.spans) :=
    ⟨rfl, List.suffix_rfl, List.forall_mem_nil _, Nat.le_refl _⟩
  constructor
  · rintro hopen before ⟨rest, rfl⟩
    obtain ⟨inner, kept, hmiddle, -⟩ := hstart.after before
    obtain ⟨inner', kept', hend, hfewer⟩ := hmiddle.after rest
    rw [← after_append] at hend
    -- the span is none of the newer ones, so at the end it is still there with all below it
    rw [after_cons, hend.spans] at hopen
    have hkept : s ∈ kept' := by
      rcases List.mem_append.mp hopen with hnew | hold
      · have hnumber : l.nextSpan + 1 ≤ l.nextSpan := hend.newer s hnew
        omega
      · exact hold
    have hwhole : kept' = s :: l.spans := by
      rcases List.suffix_cons_iff.mp hend.suffix with hall | hfew
      · exact hall
      · have hlow : l.nextSpan < l.nextSpan := hl s (hfew.mem hkept)
        omega
    have hlength : l.spans.length + 1 ≤ kept.length := by
      rw [hwhole] at hfewer
      exact hfewer.length_le
    rw [after_cons, hmiddle.spans, List.length_append]
    omega
  · intro hdeep
    obtain ⟨inner, hend⟩ := stays_open hopened hdeep
    rw [after_cons, hend]
    exact List.mem_append_right inner List.mem_cons_self

/-! ## All that happens to one logger

  The account, for loggers as they are made and any events on which only held guards are given up,
  and a run where two guards are given up crosswise. -/

/-- What is open after some events, against what is in custody. -/
structure SpanAccount (l : Logger) (es : List LogEvent) : Prop where
  /-- As many spans are open as guards are held. -/
  depth : (l.after es).spans.length = (Custody.after {} es).held.length
  /-- A span is open as long as more guards are held than when it was entered. -/
  open_iff : ∀ before name later, es = before ++ .enter name :: later →
    ({ id := (Custody.after {} before).next, name } ∈ (l.after es).spans ↔
      ∀ part, part <+: later → (Custody.after {} before).held.length <
        (Custody.after {} (before ++ .enter name :: part)).held.length)
  /-- The open spans are always those whose guards are held exactly if guards are given up in order.
  -/
  wellNested_iff : (∀ before, before <+: es →
    (l.after before).spans = (Custody.after {} before).held) ↔ Custody.WellNested {} es
  /-- Then a record carries the number of the last span entered among those. -/
  span_of_record : Custody.WellNested {} es → ∀ before e later, es = before ++ e :: later →
    ∀ r ∈ (l.after before).made e, r.span = (Custody.after {} before).held.head?.map Span.id

theorem counts_new (level : Level) (sinks : List Sink) :
    Counts { level, sinks } {} :=
  ⟨List.pairwise_singleton _ _, rfl, rfl⟩

/-- On a new logger the open spans are those of the guards held, as long as these are given up in
order. -/
theorem spans_new_of_wellNested (level : Level) (sinks : List Sink)
    (hes : Custody.WellNested {} es) :
    (Logger.after { level, sinks } es).spans = (Custody.after {} es).held :=
  spans_of_wellNested (counts_new level sinks) rfl hes

/-- **Open spans and guards.**  Whatever happens to a new logger, as long as only guards that are
held are given up, as many spans are open as guards are held, and a span is open until only so many
guards are held as when it was entered.  The open spans are those whose guards are held all the time
exactly if guards are given up in the reverse of the order in which they came. -/
theorem guards_account (level : Level) (sinks : List Sink) (es : List LogEvent)
    (hes : Custody.Guarded {} es) : SpanAccount { level, sinks } es := by
  have hnew := counts_new level sinks
  refine ⟨(hnew.after hes).depth, ?_, ?_, ?_⟩
  · -- A span stays open as long as the stack is deeper than it was, and with guarded events the
    -- depth is the number of guards.
    rintro before name later rfl
    obtain ⟨hfirst, hrest⟩ := Custody.throughout_append.mp hes
    have hmiddle := hnew.after hfirst
    have hnone : Numbered { level, sinks } := List.forall_mem_nil _
    have hnumbered : (Logger.after { level, sinks } before).Numbered := hnone.after before
    rw [after_append, ← hmiddle.next, open_iff_deep hnumbered name, hmiddle.depth]
    refine forall_congr' fun part => forall_congr' fun hpart => ?_
    obtain ⟨last, rfl⟩ := hpart
    have hwhole : Custody.Guarded (Custody.after {} before) ((.enter name :: part) ++ last) := hrest
    have hguarded := (Custody.throughout_append.mp hwhole).1
    rw [Custody.after_append, (hmiddle.after hguarded).depth]
  · -- Both ways from the same fact, that the stack is the guards in order.
    constructor
    · exact wellNested_of_spans hnew hes
    · rintro hnested before ⟨rest, rfl⟩
      exact spans_new_of_wellNested level sinks (Custody.throughout_append.mp hnested).1
  · -- A record has the innermost span, which is that of the guard made last.
    rintro hnested before e later rfl r hr
    rw [span_of_made hr,
      spans_new_of_wellNested level sinks (Custody.throughout_append.mp hnested).1]

/-- Two spans are entered, and the guard of the outer one is given up first. -/
theorem guards_account_crossed :
    Custody.Guarded {} [.enter "a", .enter "b", .exit ⟨1⟩] ∧
      ¬Custody.WellNested {} [.enter "a", .enter "b", .exit ⟨1⟩] ∧
      SpanAccount { level := .trace, sinks := [] } [.enter "a", .enter "b", .exit ⟨1⟩] := by
  have hguarded : Custody.Guarded {} [.enter "a", .enter "b", .exit ⟨1⟩] :=
    ⟨trivial, trivial, List.mem_of_elem_eq_true rfl, trivial⟩
  refine ⟨hguarded, ?_, guards_account .trace [] _ hguarded⟩
  rintro ⟨-, -, hlast, -⟩
  have hwrong : some 2 = some 1 := hlast
  cases hwrong

/-- **A guard can close the span of another one.**  The outer of two spans is left first: the inner
span is closed, although its guard is held, and records carry the number of the outer one. -/
theorem exit_closes_other_span :
    Custody.Guarded {} [.enter "a", .enter "b", .exit ⟨1⟩] ∧
      (Custody.after {} [.enter "a", .enter "b", .exit ⟨1⟩]).held = [{ id := 2, name := "b" }] ∧
      (Logger.after { level := .trace } [.enter "a", .enter "b", .exit ⟨1⟩]).spans =
        [{ id := 1, name := "a" }] ∧
      ((Logger.after { level := .trace } [.enter "a", .enter "b", .exit ⟨1⟩]).made
        (.record .info "t" "m")).map Record.span = [some 1] :=
  ⟨⟨trivial, trivial, List.mem_of_elem_eq_true rfl, trivial⟩, rfl, rfl, rfl⟩

end Logger

end BoxRuntime
