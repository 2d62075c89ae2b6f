/-
  What is said of a failed program.

  A program that fails logs that as fatal, then shows the records of the ring buffer of its setup
  and a report.  Before that anything may have happened to its logger: messages, spans, other
  levels, more sinks, ring buffers that were emptied, records written straight to a ring buffer.
  `report_account` says what is logged and what is shown, to the letter, after any such history.

  The crux is that the headline counts the records of the ring buffer after the fatal one was
  written to it, which may have pushed out the oldest.  A ring buffer that was made with a setup is
  there for good and never holds more records than it has room for (`Logger.Fits.uses`), so that
  number and records agree.

  `lines_account` reads the same text line by line.  It has one line for each record, up to the
  rule, exactly if no record goes over several lines; a message with line breaks of its own can pass
  for several records.
-/
import BoxRuntime.Program.Setup
import BoxRuntime.Proofs.Log.Lines
import BoxRuntime.Proofs.Log.Rings

namespace BoxRuntime

/-! ## Full ring buffers

  A ring buffer never holds more than it has room for.  If it has room for any record, the one that
  is pushed comes last, whether or not another one goes. -/

namespace Ring

/-- The ring buffer has this capacity and holds no more records than that. -/
structure Fits (ring : Ring) (capacity : RingSize) : Prop where
  capacity_eq : ring.capacity = capacity
  size_le : ring.size ≤ capacity.slots

variable {ring : Ring} {capacity : RingSize}

/-- A ring buffer is empty if it holds no record. -/
theorem isEmpty_iff : ring.isEmpty = true ↔ ring.size = 0 := by
  rw [isEmpty, Array.isEmpty_iff_size_eq_zero]
  rfl

theorem fits_empty (capacity : RingSize) : (empty capacity).Fits capacity :=
  ⟨rfl, Nat.zero_le _⟩

/-- One record more, unless there is no room for it. -/
theorem Fits.size_push (h : ring.Fits capacity) (r : Record) :
    (ring.push r).size = min capacity.slots (ring.size + 1) := by
  obtain ⟨rfl, hsize⟩ := h
  unfold size at hsize ⊢
  unfold push
  split
  · show ring.records.size = _
    omega
  · split
    · rw [Array.size_push]
      omega
    · rw [Array.size_push, Array.size_extract]
      omega

/-- A record more does not take it beyond its capacity. -/
theorem Fits.push (h : ring.Fits capacity) (r : Record) : (ring.push r).Fits capacity := by
  refine ⟨(ring.capacity_push r).trans h.capacity_eq, ?_⟩
  rw [h.size_push]
  exact Nat.min_le_left _ _

/-- A ring that fits its capacity does so after any number of records. -/
theorem Fits.pushAll (h : ring.Fits capacity) (rs : List Record) :
    (ring.pushAll rs).Fits capacity := by
  induction rs generalizing ring with
  | nil => exact h
  | cons r rs ih => exact ih (h.push r)

/-- The new record is the last one, behind the last of those before, as many as there is room for.
-/
theorem Fits.records_push (h : ring.Fits capacity) (hroom : 0 < capacity.slots) (r : Record) :
    (ring.push r).records.toList =
      ring.records.toList.drop (ring.size + 1 - min capacity.slots (ring.size + 1)) ++ [r] := by
  obtain ⟨rfl, hsize⟩ := h
  -- With room the record is put behind the others; without, the oldest goes first.
  rcases Nat.lt_or_ge ring.size ring.capacity.slots with hless | hfull
  · have hall : ring.size + 1 - min ring.capacity.slots (ring.size + 1) = 0 := by omega
    rw [push_of_room hless, hall, List.drop_zero, Array.toList_push]
  · have hone : ring.size + 1 - min ring.capacity.slots (ring.size + 1) = 1 := by omega
    have hnone : ¬ring.records.size < ring.capacity.slots := Nat.not_lt.mpr hfull
    have htake : (ring.records.toList.drop 1).length ≤ ring.records.size - 1 :=
      Nat.le_of_eq (by rw [List.length_drop, Array.length_toList])
    rw [Ring.push, if_neg (Nat.ne_of_gt hroom), if_neg hnone, hone]
    show ((ring.records.extract 1 ring.records.size).push r).toList = _
    rw [Array.toList_push, Array.toList_extract, List.extract_eq_take_drop,
      List.take_of_length_le htake]

end Ring

/-! ## Histories

  Anything that may have happened to the logger of a setup before the failure. -/

/-- Something that can happen to the log of a program. -/
inductive LogUse where
  | event (e : LogEvent)
  /-- A record is written straight to a ring buffer among the sinks. -/
  | push (position : Nat) (r : Record)

namespace Logger

variable {l : Logger} {position : Nat} {capacity : RingSize}

def use (l : Logger) : LogUse → Logger
  | .event e => l.act e
  | .push position r => l.updateRing position fun ring => ring.push r

/-- There is a ring buffer at this position, with this capacity, and it holds no more than that. -/
def Fits (l : Logger) (position : Nat) (capacity : RingSize) : Prop :=
  ∃ ring, l.ring? position = some ring ∧ ring.Fits capacity

/-- Whatever happens to the log, the ring buffer is there and within its capacity. -/
theorem Fits.use (h : l.Fits position capacity) (u : LogUse) : (l.use u).Fits position capacity := by
  obtain ⟨ring, hring, hfits⟩ := h
  cases u with
  | event e =>
    -- A clearing of this ring empties it; any other event only adds records.
    by_cases hclear : e = .clear position
    · subst hclear
      exact ⟨_, ring?_clear hring, hfits.capacity_eq ▸ Ring.fits_empty ring.capacity⟩
    · exact ⟨_, ring?_act hring hclear, hfits.pushAll _⟩
  -- A record that is put in directly goes to one ring, this or another.
  | push other r =>
    refine ⟨_, (ring?_updateRing l position other _).trans (congrArg _ hring), ?_⟩
    show (if other = position then ring.push r else ring).Fits capacity
    split
    · exact hfits.push r
    · exact hfits

/-- **A ring buffer stays, and keeps its bounds**, whatever happens to the logger. -/
theorem Fits.uses (h : l.Fits position capacity) (us : List LogUse) :
    (us.foldl Logger.use l).Fits position capacity := by
  induction us generalizing l with
  | nil => exact h
  | cons u us ih => exact ih (h.use u)

end Logger

/-! ## Reports

  One record is logged, and the text is the headline, the records with that one as the last, a rule
  and the report. -/

namespace ProgramSetup

variable {s : ProgramSetup} {e : ProgramFailure}

/-- The setup after its log was used in some ways. -/
def after (s : ProgramSetup) (us : List LogUse) : ProgramSetup :=
  { s with logger := us.foldl Logger.use s.logger }

/-- The record that says that the program failed. -/
def fatalRecord (s : ProgramSetup) (e : ProgramFailure) : Record where
  time := s.logger.now
  level := .error
  target := e.component.target
  message := s!"fatal {e.fault.kind.name} error (exit {e.fault.exitCode}): {e.message}"
  span := s.logger.spans.head?.map Span.id

/-- Lines of text, one after another, each with a line break at its end. -/
def written (ls : List String) : String :=
  String.join (ls.map (· ++ "\n"))

/-- Lines are written one after another. -/
theorem written_cons (l : String) (ls : List String) :
    written (l :: ls) = l ++ "\n" ++ written ls := by
  simp [written]

/-- Lines with breaks between them and one behind are lines that each end in a break. -/
theorem intercalate_break {ls : List String} (hls : ls ≠ []) :
    "\n".intercalate ls ++ "\n" = written ls := by
  induction ls with
  | nil => exact absurd rfl hls
  | cons l ls ih =>
    rcases ls with _ | ⟨l', ls⟩
    · rw [String.intercalate_singleton, written_cons]
      simp [written]
    · rw [String.intercalate_cons_cons, String.append_assoc, ih (List.cons_ne_nil l' ls),
        ← written_cons]

/-- What is shown of a ring buffer that holds something. -/
theorem ringText_eq {ring : Ring} (hsome : ring.records.toList ≠ []) :
    ringText ring = s!"--- last {ring.size} log records ---\n" ++
      written (ring.records.toList.map Record.format) ++ "---\n" := by
  have hrule : "\n---\n" = "\n" ++ "---\n" := rfl
  have hmap : ring.records.toList.map Record.format ≠ [] := by simpa using hsome
  rw [ringText, Ring.dump, ← intercalate_break hmap, hrule]
  simp only [String.append_assoc]

/-- A report is one event for the logger. -/
theorem logger_reportFailure (s : ProgramSetup) (e : ProgramFailure) :
    (s.reportFailure e).2.logger = s.logger.act
      (.record .error e.component.target (s.fatalRecord e).message) :=
  rfl

/-- Nothing silences an error. -/
theorem made_fatal (s : ProgramSetup) (e : ProgramFailure) :
    s.logger.made (.record .error e.component.target (s.fatalRecord e).message) =
      [s.fatalRecord e] := by
  have henabled : s.logger.isEnabled .error = true := by
    unfold Logger.isEnabled
    cases s.logger.level <;> rfl
  rw [Logger.made_record, if_pos henabled]
  rfl

/-- The ring buffer that is shown has the fatal record. -/
theorem ring?_reportFailure (s : ProgramSetup) (e : ProgramFailure) :
    (s.reportFailure e).2.ring? = s.ring?.map fun ring => ring.push (s.fatalRecord e) := by
  show s.ring.bind (s.reportFailure e).2.logger.ring? = (s.ring.bind s.logger.ring?).map _
  rcases s.ring with _ | position
  · rfl
  · rw [logger_reportFailure, Option.bind_some, Option.bind_some,
      (Logger.got_act (e := .record ..) trivial s.logger).ring?, made_fatal]
    rfl

/-- What is shown depends on what the ring buffer holds in the end. -/
theorem text_reportFailure (s : ProgramSetup) (e : ProgramFailure) :
    (s.reportFailure e).1 =
      (match (s.reportFailure e).2.ring? with
        | some ring => if ring.isEmpty then "" else ringText ring
        | none => "") ++ e.report.text ++ "\n" :=
  rfl

/-- What is logged and shown when a program fails, on a setup with these outputs. -/
structure ReportAccount (outputs : List LogOutput) (s : ProgramSetup) (e : ProgramFailure) :
    Prop where
  /-- All sinks get the fatal record, and nothing else. -/
  logged : s.logger.Got [s.fatalRecord e] (s.reportFailure e).2.logger
  /-- With room in the last ring buffer among the outputs, a headline, the last records, a rule and
  the report are shown.  The records end with the fatal one, and they are as many as were held
  before and one more, if there is room for it. -/
  shown : ∀ before capacity after, outputs = before ++ .ring capacity :: after →
    (∀ c, LogOutput.ring c ∉ after) → 0 < capacity.slots →
    ∃ ring held, s.ring? = some ring ∧
      held = ring.records.toList.drop (ring.size + 1 - held.length) ++ [s.fatalRecord e] ∧
      held.length = min capacity.slots (ring.size + 1) ∧
      (s.reportFailure e).1 =
        s!"--- last {held.length} log records ---\n" ++ written (held.map Record.format) ++
          "---\n" ++ e.report.text ++ "\n"
  /-- Without room for any record, only the report is shown. -/
  no_room : ∀ before capacity after, outputs = before ++ .ring capacity :: after →
    (∀ c, LogOutput.ring c ∉ after) → capacity.slots = 0 →
      (s.reportFailure e).1 = e.report.text ++ "\n"
  /-- So it is without a ring buffer. -/
  no_ring : (∀ c, LogOutput.ring c ∉ outputs) → (s.reportFailure e).1 = e.report.text ++ "\n"
  /-- The report of a fault in the main part. -/
  main : ∀ f, e = .main f →
    e.report.text = s!"[runtime] {f.kind.name} error: {f.message}" ∧
      e.report.exitCode = f.exitCode
  /-- The report of a fault in an initializer. -/
  init : ∀ name f, e = .init name f →
    e.report.text =
        s!"[init] {f.kind.name} error: " ++ s!"initializer '{name}' failed: {f.message}" ∧
      e.report.exitCode = f.exitCode

/-- **What is logged and shown of a failure**, on any setup, whatever files could be opened for it
and whatever happened to its logger. -/
theorem report_account (places : String → Option Place) (runtime : RuntimeConfig) (log : LogSetup)
    (us : List LogUse) (e : ProgramFailure) :
    ReportAccount log.outputs ((withLogging places runtime log).after us) e := by
  generalize hs : (withLogging places runtime log).after us = s
  -- the last ring buffer among the outputs is the one that is shown
  have hring : ∀ before capacity after, log.outputs = before ++ .ring capacity :: after →
      (∀ c, LogOutput.ring c ∉ after) → ∃ ring, s.ring? = some ring ∧ ring.Fits capacity := by
    intro before capacity after houtputs hlast
    obtain ⟨position, hposition, hempty⟩ := log.init_of_last places houtputs hlast
    obtain ⟨ring, hring, hfits⟩ := Logger.Fits.uses ⟨_, hempty, Ring.fits_empty capacity⟩ us
    refine ⟨ring, ?_, hfits⟩
    rw [← hs]
    show (log.init places).2.bind (us.foldl Logger.use (log.init places).1).ring? = some ring
    rw [hposition, Option.bind_some, hring]
  constructor
  case logged =>
    rw [← made_fatal, logger_reportFailure]
    exact Logger.got_act (e := .record ..) trivial s.logger
  case shown =>
    intro before capacity after houtputs hlast hroom
    obtain ⟨ring, hring, hfits⟩ := hring before capacity after houtputs hlast
    have hpushed := hfits.records_push hroom (s.fatalRecord e)
    have hlength : (ring.push (s.fatalRecord e)).records.toList.length =
        min capacity.slots (ring.size + 1) := hfits.size_push (s.fatalRecord e)
    refine ⟨ring, (ring.push (s.fatalRecord e)).records.toList, hring, ?_, hlength, ?_⟩
    · rw [hlength, ← hpushed]
    · have hsome : (ring.push (s.fatalRecord e)).records.toList ≠ [] := by
        rw [hpushed]
        simp
      have hheld : ¬(ring.push (s.fatalRecord e)).isEmpty = true := by
        rw [Ring.isEmpty_iff, hfits.size_push]
        omega
      rw [text_reportFailure, ring?_reportFailure, hring]
      dsimp only [Option.map_some]
      rw [if_neg hheld, ringText_eq hsome, Array.length_toList]
      rfl
  case no_room =>
    intro before capacity after houtputs hlast hnone
    obtain ⟨ring, hring, hfits⟩ := hring before capacity after houtputs hlast
    have hempty : (ring.push (s.fatalRecord e)).isEmpty = true := by
      rw [Ring.isEmpty_iff, hfits.size_push, hnone, Nat.zero_min]
    rw [text_reportFailure, ring?_reportFailure, hring]
    dsimp only [Option.map_some]
    rw [if_pos hempty, String.empty_append]
  case no_ring =>
    intro hnone
    have hring : s.ring? = none := by
      rw [← hs]
      show (log.init places).2.bind _ = none
      rw [log.init_of_none places hnone]
      rfl
    rw [text_reportFailure, ring?_reportFailure, hring]
    exact congrArg (· ++ "\n") String.empty_append
  case main =>
    rintro f rfl
    exact ⟨rfl, rfl⟩
  case init =>
    rintro name f rfl
    exact ⟨rfl, rfl⟩

/-! ## Line by line

  Of the same text, for readers who count lines: a record with line breaks takes more than one, and
  none of its lines is the rule. -/

/-- The text of a record is not taken for the rule. -/
theorem format_ne_rule (r : Record) : r.format ≠ "---" := by
  obtain ⟨rest, hr⟩ := r.format_eq
  rw [hr]
  intro heq
  have hhead := congrArg (fun t => t.toList.head?) heq
  simp at hhead

/-- The lines of what is shown, if the ring buffer holds something.  Nothing stands behind the last
line break. -/
theorem pieces_reportFailure {ring : Ring} (hring : (s.reportFailure e).2.ring? = some ring)
    (hsome : ring.size ≠ 0) :
    pieces (s.reportFailure e).1 =
      s!"--- last {ring.size} log records ---" ::
        (lines ring.dump ++ "---" :: (pieces e.report.text ++ [""])) := by
  let headline := s!"--- last {ring.size} log records ---"
  have hheadline : s!"--- last {ring.size} log records ---\n" = headline ++ "\n" := by
    have hend : " log records ---\n" = " log records ---" ++ "\n" := rfl
    show _ ++ " log records ---\n" = _ ++ " log records ---" ++ "\n"
    rw [hend, ← String.append_assoc]
  have hline : breaks headline = 0 := by
    have hopen : breaks "--- last " = 0 := rfl
    have hclose : breaks " log records ---" = 0 := rfl
    simp [headline, hopen, hclose]
  have htext : (s.reportFailure e).1 =
      headline ++ "\n" ++ (ring.dump ++ "\n" ++ ("---" ++ "\n" ++ (e.report.text ++ "\n" ++ ""))) := by
    have hrule : "\n---\n" = "\n" ++ ("---" ++ "\n") := rfl
    rw [text_reportFailure, hring]
    dsimp only
    rw [if_neg (by rwa [Ring.isEmpty_iff]), ringText, hheadline, hrule, String.append_empty]
    simp only [String.append_assoc]
  rw [htext, pieces_append_break, pieces_append_break, pieces_append_break, pieces_append_break,
    pieces_of_breaks hline, lines, if_neg (Ring.dump_ne_empty hsome)]
  rfl

/-- What is shown up to the first rule are the records exactly if no record goes over several lines.
-/
theorem takeWhile_rule {ring : Ring} (rest : List String) :
    (lines ring.dump ++ "---" :: rest).takeWhile (· ≠ "---") =
      ring.records.toList.map Record.format ↔ ∀ r ∈ ring.records, r.OneLine := by
  constructor
  · -- then all records are lines, and lines have no line breaks
    intro hrecords r hr
    have hformat : r.format ∈ ring.records.toList.map Record.format :=
      List.mem_map_of_mem (Array.mem_toList_iff.mpr hr)
    rw [← hrecords, List.takeWhile_append, List.takeWhile_cons_of_neg (by decide)] at hformat
    have hline : r.format ∈ lines ring.dump := by
      split at hformat
      · rwa [List.append_nil] at hformat
      · exact (List.takeWhile_subset _) hformat
    rw [Ring.lines_dump] at hline
    obtain ⟨text, -, hpiece⟩ := List.mem_flatMap.mp hline
    exact Record.oneLine_iff.mpr (breaks_of_mem_pieces hpiece)
  · intro hlines
    have hshown := Ring.lines_dump_eq_formats.mpr hlines
    have hnotRule : ∀ l ∈ lines ring.dump, decide (l ≠ "---") = true := by
      rw [hshown]
      intro l hl
      obtain ⟨r, -, rfl⟩ := List.mem_map.mp hl
      exact decide_eq_true (format_ne_rule r)
    rw [List.takeWhile_append_of_pos hnotRule, List.takeWhile_cons_of_neg (by decide),
      List.append_nil, hshown]

/-- What the lines of a ring buffer are, and of what is shown of it when a program fails. -/
structure LinesAccount (ring : Ring) : Prop where
  /-- The lines are those of the records, in order. -/
  of_records : lines ring.dump = (ring.records.toList.map Record.format).flatMap pieces
  /-- A record goes over one line, and one more for each line break in its target and its message.
  -/
  record : ∀ r ∈ ring.records, (pieces r.format).length = 1 + breaks r.target + breaks r.message
  /-- So there is one line for each record exactly if there are no such line breaks. -/
  one_each : lines ring.dump = ring.records.toList.map Record.format ↔
    ∀ r ∈ ring.records, r.OneLine
  /-- The lines are as many as the records in the same cases. -/
  as_many : (lines ring.dump).length = ring.size ↔ ∀ r ∈ ring.records, r.OneLine
  /-- When a program fails, these lines stand between the headline, which has the number of records,
  and a rule. -/
  shown : ∀ s e, (reportFailure s e).2.ring? = some ring → ring.size ≠ 0 →
    pieces (reportFailure s e).1 =
      s!"--- last {ring.size} log records ---" ::
        (lines ring.dump ++ "---" :: (pieces e.report.text ++ [""]))
  /-- What is read up to the first rule are the records, again in the same cases. -/
  up_to_rule : ∀ s e, (reportFailure s e).2.ring? = some ring → ring.size ≠ 0 →
    ((pieces (reportFailure s e).1).tail.takeWhile (· ≠ "---") =
      ring.records.toList.map Record.format ↔ ∀ r ∈ ring.records, r.OneLine)
  /-- Without such line breaks, no other records pass for these. -/
  faithful : ∀ other : Ring, (∀ r ∈ ring.records, r.OneLine) → (∀ r ∈ other.records, r.OneLine) →
    other.dump = ring.dump →
    other.records.toList.map Record.format = ring.records.toList.map Record.format

/-- **The log line by line**, for all records. -/
theorem lines_account (ring : Ring) : LinesAccount ring := by
  refine ⟨ring.lines_dump, fun r _ => r.length_lines_format, Ring.lines_dump_eq_formats,
    Ring.length_lines_dump_eq_size, fun s e => pieces_reportFailure, ?_, ?_⟩
  · intro s e hring hsome
    rw [pieces_reportFailure hring hsome]
    exact takeWhile_rule _
  · intro other hring hother hdump
    rw [← Ring.lines_dump_eq_formats.mpr hother, hdump, Ring.lines_dump_eq_formats.mpr hring]

/-- One record with a line break is shown as two records are. -/
theorem two_lines_of_one_record :
    let one := (Ring.empty ⟨4, by decide⟩).push
      ⟨0, .info, "t", "a\n[00:00:00.000] INFO t: b", none⟩
    let two := ((Ring.empty ⟨4, by decide⟩).push ⟨0, .info, "t", "a", none⟩).push
      ⟨0, .info, "t", "b", none⟩
    one.size = 1 ∧ (lines one.dump).length = 2 ∧ two.size = 2 ∧ one.dump = two.dump := by
  decide +kernel

end ProgramSetup

end BoxRuntime
