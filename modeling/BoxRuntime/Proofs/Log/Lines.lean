/-
  The lines of a log.

  A record is written as a line of text, and a ring buffer shows its records with a line break
  between two of them.  But targets and messages are taken as they are, and a message that has line
  breaks of its own goes over several lines.  `lines_dump` says line by line what a ring buffer
  shows, for all records.  So it has one line for each record exactly if no record that it holds has
  a line break in it, and then the lines are the records.

  The crux is that everything else a record is written with, which is numbers, names of levels and
  punctuation, has no line breaks (`breaks_format`), so that they can be counted.
-/
import BoxRuntime.Log.Ring

namespace BoxRuntime

/-! ## Texts and their lines

  A text has one line more than line breaks. Joined texts have the breaks of their parts and those
  between them. -/

/-- What stands between the line breaks of a text, from the first to the last. -/
def pieces (s : String) : List String :=
  (s.toList.splitOn '\n').map String.ofList

/-- The lines of a text.  The empty text has none. -/
def lines (s : String) : List String :=
  if s = "" then [] else pieces s

/-- The number of line breaks in a text. -/
def breaks (s : String) : Nat :=
  s.toList.count '\n'

@[simp] theorem breaks_append (s t : String) : breaks (s ++ t) = breaks s + breaks t := by
  rw [breaks, String.toList_append, List.count_append]
  rfl

/-- A text without line breaks has none among its characters. -/
theorem breaks_eq_zero {s : String} : breaks s = 0 ↔ '\n' ∉ s.toList :=
  List.count_eq_zero

/-- There is one piece more than there are breaks. -/
theorem length_splitOn (cs : List Char) : (cs.splitOn '\n').length = cs.count '\n' + 1 := by
  induction cs with
  | nil => rfl
  | cons c cs ih =>
    rw [List.splitOn_cons_eq_if_modifyHead, List.count_cons]
    split
    · rw [List.length_cons, ih]
    · rw [List.length_modifyHead, ih, Nat.add_zero]

/-- Every line break begins a new line. -/
theorem length_pieces (s : String) : (pieces s).length = breaks s + 1 := by
  rw [pieces, List.length_map, length_splitOn]
  rfl

/-- A text without line breaks is one piece. -/
theorem pieces_of_breaks {s : String} (hs : breaks s = 0) : pieces s = [s] := by
  rw [pieces, List.splitOn_eq_singleton (breaks_eq_zero.mp hs), List.map_singleton,
    String.ofList_toList]

theorem pieces_append_break (s t : String) : pieces (s ++ "\n" ++ t) = pieces s ++ pieces t := by
  have hbreak : "\n".toList = ['\n'] := rfl
  rw [pieces, String.toList_append, String.toList_append, hbreak, List.append_assoc,
    List.singleton_append, List.splitOn_append_cons_self, List.map_append]
  rfl

theorem not_mem_of_mem_splitOn {cs l : List Char} (hl : l ∈ cs.splitOn '\n') : '\n' ∉ l := by
  induction cs generalizing l with
  | nil =>
    rw [List.mem_singleton.mp hl]
    exact List.not_mem_nil
  | cons c cs ih =>
    rw [List.splitOn_cons_eq_if_modifyHead] at hl
    split at hl
    · rcases List.mem_cons.mp hl with rfl | hl
      · exact List.not_mem_nil
      · exact ih hl
    · -- the character belongs to the first line
      rename_i hc
      rcases hlines : cs.splitOn '\n' with _ | ⟨first, more⟩
      · exact absurd hlines (List.splitOn_ne_nil _ _)
      · rw [hlines] at hl ih
        rcases List.mem_cons.mp hl with rfl | hl
        · intro hbreak
          rcases List.mem_cons.mp hbreak with heq | hbreak
          · exact hc (beq_iff_eq.mpr heq.symm)
          · exact ih List.mem_cons_self hbreak
        · exact ih (List.mem_cons_of_mem _ hl)

/-- No line has a line break in it. -/
theorem breaks_of_mem_pieces {s l : String} (hl : l ∈ pieces s) : breaks l = 0 := by
  obtain ⟨cs, hcs, rfl⟩ := List.mem_map.mp hl
  rw [breaks_eq_zero, String.toList_ofList]
  exact not_mem_of_mem_splitOn hcs

/-- Texts with line breaks between them have the lines of all of them. -/
theorem pieces_intercalate {ls : List String} (hls : ls ≠ []) :
    pieces ("\n".intercalate ls) = ls.flatMap pieces := by
  induction ls with
  | nil => exact absurd rfl hls
  | cons l ls ih =>
    rcases ls with _ | ⟨l', ls⟩
    · rw [String.intercalate_singleton, List.flatMap_singleton]
    · rw [String.intercalate_cons_cons, pieces_append_break, ih (List.cons_ne_nil l' ls)]
      rfl

/-- Every text has one piece at least. -/
theorem le_length_flatMap_pieces (ls : List String) : ls.length ≤ (ls.flatMap pieces).length := by
  induction ls with
  | nil => exact Nat.le_refl _
  | cons l ls ih =>
    rw [List.flatMap_cons, List.length_append, length_pieces, List.length_cons]
    omega

/-- There are as many lines as texts exactly if the texts have no line breaks. -/
theorem length_flatMap_pieces {ls : List String} :
    (ls.flatMap pieces).length = ls.length ↔ ∀ l ∈ ls, breaks l = 0 := by
  induction ls with
  | nil => exact iff_of_true rfl (List.forall_mem_nil _)
  | cons l ls ih =>
    have hrest := le_length_flatMap_pieces ls
    rw [List.forall_mem_cons, ← ih, List.flatMap_cons, List.length_append, length_pieces,
      List.length_cons]
    omega

/-- In these cases the texts are their own lines. -/
theorem flatMap_pieces_eq_self {ls : List String} :
    ls.flatMap pieces = ls ↔ (ls.flatMap pieces).length = ls.length := by
  refine ⟨congrArg List.length, fun hlength => ?_⟩
  have hnone : ∀ l ∈ ls, pieces l = [l] := fun l hl =>
    pieces_of_breaks (length_flatMap_pieces.mp hlength l hl)
  rw [List.flatMap_def, List.map_congr_left hnone, ← List.flatMap_def, List.flatMap_singleton']

/-! ## Records

  Everything that a record is written with is free of line breaks, apart from its target and its
  message. -/

@[simp] theorem breaks_toString (s : String) : breaks (toString s) = breaks s :=
  rfl

@[simp] theorem breaks_repr (n : Nat) : breaks n.repr = 0 := by
  rw [breaks_eq_zero, Nat.toList_repr]
  intro hbreak
  exact absurd (Nat.isDigit_of_mem_toDigits (by decide) (by decide) hbreak) (by decide)

/-- The parts of a record that the program itself writes have no line breaks: numbers, the time, and
names of levels. -/
@[simp] theorem breaks_padNat (width n : Nat) : breaks (padNat width n) = 0 := by
  rw [breaks_eq_zero, padNat, String.toList_ofList, List.leftpad, List.mem_append]
  rintro (hzero | hdigit)
  · exact absurd (List.eq_of_mem_replicate hzero) (by decide)
  · exact breaks_eq_zero.mp (breaks_repr n) hdigit

@[simp] theorem breaks_clockText (time : Nat) : breaks (clockText time) = 0 := by
  have hcolon : breaks ":" = 0 := rfl
  have hpoint : breaks "." = 0 := rfl
  simp [clockText, hcolon, hpoint]

@[simp] theorem breaks_levelName (l : Level) : breaks l.name = 0 := by
  cases l <;> rfl

namespace Record

/-- **All line breaks in the text of a record come from its target and its message.** -/
theorem breaks_format (r : Record) : breaks r.format = breaks r.target + breaks r.message := by
  have hopen : breaks "[" = 0 := rfl
  have hclose : breaks "] " = 0 := rfl
  have hblank : breaks " " = 0 := rfl
  have hcolon : breaks ": " = 0 := rfl
  have hspan : breaks " [span=" = 0 := rfl
  have hend : breaks "]" = 0 := rfl
  have hnone : breaks "" = 0 := rfl
  unfold format
  rcases r.span with _ | n
  · simp [hopen, hclose, hblank, hcolon, hnone]
  · simp [hopen, hclose, hblank, hcolon, hspan, hend]

/-- Target and message have no line breaks. -/
def OneLine (r : Record) : Prop :=
  '\n' ∉ r.target.toList ∧ '\n' ∉ r.message.toList

instance (r : Record) : Decidable r.OneLine :=
  inferInstanceAs (Decidable (_ ∧ _))

/-- A record is on one line if its text is. -/
theorem oneLine_iff {r : Record} : r.OneLine ↔ breaks r.format = 0 := by
  rw [breaks_format, Nat.add_eq_zero_iff, breaks_eq_zero, breaks_eq_zero]
  rfl

/-- Its text has a line more for each line break in the target and the message. -/
theorem length_lines_format (r : Record) :
    (pieces r.format).length = 1 + breaks r.target + breaks r.message := by
  rw [length_pieces, breaks_format]
  omega

/-- The text of a record begins with a bracket. -/
theorem format_eq (r : Record) : ∃ rest, r.format = "[" ++ rest := by
  unfold format
  simp only [String.append_assoc]
  exact ⟨_, rfl⟩

end Record

/-! ## Ring buffers

  The records are joined by line breaks, so lines are counted by adding up. -/

namespace Ring

/-- A dump of some records is no empty text. -/
theorem dump_ne_empty {ring : Ring} (hsome : ring.size ≠ 0) : ring.dump ≠ "" := by
  unfold dump
  rw [size, ← Array.length_toList] at hsome
  rcases hrecords : ring.records.toList with _ | ⟨r, rs⟩
  · rw [hrecords] at hsome
    exact absurd rfl hsome
  · obtain ⟨rest, hr⟩ := r.format_eq
    rw [List.map_cons, hr, String.intercalate_cons_append]
    simp

/-- The lines of a ring buffer are those of its records. -/
theorem lines_dump (ring : Ring) :
    lines ring.dump = (ring.records.toList.map Record.format).flatMap pieces := by
  by_cases hsome : ring.size = 0
  · have hnone : ring.records.toList = [] := by
      rw [← List.length_eq_zero_iff, Array.length_toList]
      exact hsome
    rw [dump, hnone]
    rfl
  · have hformats : ring.records.toList.map Record.format ≠ [] := by
      intro hnone
      rw [List.map_eq_nil_iff, ← List.length_eq_zero_iff, Array.length_toList] at hnone
      exact hsome hnone
    rw [lines, if_neg (dump_ne_empty hsome), dump, pieces_intercalate hformats]

theorem length_formats (ring : Ring) :
    (ring.records.toList.map Record.format).length = ring.size := by
  rw [List.length_map, Array.length_toList]
  rfl

/-- A ring buffer has as many lines as records exactly if no record goes over several lines. -/
theorem length_lines_dump_eq_size {ring : Ring} :
    (lines ring.dump).length = ring.size ↔ ∀ r ∈ ring.records, r.OneLine := by
  rw [lines_dump, ← length_formats, length_flatMap_pieces]
  simp [Record.oneLine_iff]

/-- The lines of a ring buffer are its records exactly if no record goes over several lines. -/
theorem lines_dump_eq_formats {ring : Ring} :
    lines ring.dump = ring.records.toList.map Record.format ↔ ∀ r ∈ ring.records, r.OneLine := by
  rw [← length_lines_dump_eq_size, lines_dump, flatMap_pieces_eq_self, length_formats]

end Ring

end BoxRuntime
