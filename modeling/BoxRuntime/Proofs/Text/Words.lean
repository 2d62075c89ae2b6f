/-
  Texts that begin with certain words.

  A message of the log is told from others by its first words, such as `list #7 grew to`.  A word
  has no blanks in it and ends at the first blank, so that two texts can be compared word by word
  (`startsWith_word`): what begins with `list #7` and a blank is not about the list `#70`.
-/
import BoxRuntime.Tag
import Std.Data.String.ToNat

namespace BoxRuntime

/-- The text has no blanks. -/
def IsWord (w : String) : Prop :=
  ' ' ∉ w.toList

instance (w : String) : Decidable (IsWord w) :=
  inferInstanceAs (Decidable (_ ∉ _))

/-- Two words, one behind the other, are a word. -/
theorem IsWord.append {w w' : String} (h : IsWord w) (h' : IsWord w') : IsWord (w ++ w') := by
  unfold IsWord at *
  rw [String.toList_append, List.mem_append]
  exact fun hblank => hblank.elim h h'

theorem isWord_repr (n : Nat) : IsWord n.repr := by
  intro hblank
  rw [Nat.toList_repr] at hblank
  exact absurd (Nat.isDigit_of_mem_toDigits (by decide) (by decide) hblank) (by decide)

theorem isWord_tagName (t : Tag) : IsWord t.name := by
  unfold IsWord
  cases t <;> decide

theorem tagName_inj {t t' : Tag} : t.name = t'.name ↔ t = t' := by
  cases t <;> cases t' <;> decide

/-- A word ends at the first blank, so two texts that begin with words begin alike only if the words
are the same. -/
theorem word_prefix_iff {a b x y : List Char} (ha : ' ' ∉ a) (hb : ' ' ∉ b) :
    a ++ ' ' :: x <+: b ++ ' ' :: y ↔ a = b ∧ x <+: y := by
  induction a generalizing b with
  | nil =>
    rcases b with _ | ⟨c, b⟩
    · rw [List.nil_append, List.nil_append, List.prefix_cons_inj]
      exact (and_iff_right rfl).symm
    · -- the blank is no character of a word
      refine ⟨fun h => ?_, fun h => absurd h.1 (List.cons_ne_nil c b).symm⟩
      obtain ⟨heq, -⟩ := List.cons_prefix_cons.mp h
      exact absurd (heq ▸ List.mem_cons_self) hb
  | cons c a ih =>
    have ha' : ' ' ∉ a := fun h => ha (List.mem_cons_of_mem c h)
    rcases b with _ | ⟨c', b⟩
    · refine ⟨fun h => ?_, fun h => absurd h.1 (List.cons_ne_nil c a)⟩
      obtain ⟨heq, -⟩ := List.cons_prefix_cons.mp h
      exact absurd (heq ▸ List.mem_cons_self) ha
    · have hb' : ' ' ∉ b := fun h => hb (List.mem_cons_of_mem c' h)
      rw [List.cons_append, List.cons_append, List.cons_prefix_cons, ih ha' hb', List.cons.injEq,
        and_assoc]

/-- The first word is compared, and then what follows. -/
theorem startsWith_word {w w' : String} (hw : IsWord w) (hw' : IsWord w') (s s' : String) :
    (w' ++ (" " ++ s')).startsWith (w ++ (" " ++ s)) = true ↔ w = w' ∧ s'.startsWith s = true := by
  have hblank : ∀ a b : String, (a ++ (" " ++ b)).toList = a.toList ++ ' ' :: b.toList := by
    intro a b
    rw [String.toList_append, String.toList_append]
    rfl
  rw [String.startsWith_string_iff, String.startsWith_string_iff, hblank, hblank,
    word_prefix_iff hw hw', String.toList_inj]

end BoxRuntime
