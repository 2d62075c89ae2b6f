/-
  Names hold one handle each.

  `Names` is a list of pairs, in which a name could in principle stand twice.  It never does: `put`
  and `erase` keep the names distinct.  So what is found under a name is all that is there, and
  taking the name away takes exactly that handle from those that are held.
-/
import BoxRuntime.Names
import Mathlib.Data.List.Nodup

namespace BoxRuntime

namespace Names

/-- No name stands twice. -/
def Distinct (names : Names) : Prop :=
  (names.pairs.map Prod.fst).Nodup

theorem distinct_empty : ({} : Names).Distinct :=
  List.nodup_nil

/-- Erasing a name leaves the others distinct. -/
theorem Distinct.erase {names : Names} (hd : names.Distinct) (name : String) :
    (names.erase name).Distinct :=
  hd.sublist (List.filter_sublist.map Prod.fst)

/-- A name that gets a box had its old one taken away before. -/
theorem Distinct.put {names : Names} (hd : names.Distinct) (name : String) (v : Handle) :
    (names.put name v).Distinct := by
  refine List.nodup_cons.mpr ⟨?_, hd.erase name⟩
  intro hmem
  obtain ⟨p, hp, hname⟩ := List.mem_map.mp hmem
  have hne := (List.mem_filter.mp hp).2
  rw [hname] at hne
  simp at hne

/-- What a name denotes is among the boxes that the names hold. -/
theorem mem_handles {names : Names} {name : String} {v : Handle} (hv : names.get? name = some v) :
    v ∈ names.handles := by
  obtain ⟨pairs⟩ := names
  rw [get?] at hv
  rw [handles]
  -- On the pairs: the first that has the name is the one.
  induction pairs with
  | nil => cases hv
  | cons p pairs ih =>
    rw [List.lookup_cons] at hv
    rw [List.map_cons]
    split at hv
    · rw [Option.some.inj hv]
      exact List.mem_cons_self
    · exact List.mem_cons_of_mem _ (ih hv)

/-- A name that holds nothing is not there. -/
theorem erase_of_get?_none {names : Names} {name : String} (hn : names.get? name = none) :
    names.erase name = names := by
  obtain ⟨pairs⟩ := names
  rw [get?] at hn
  refine congrArg Names.mk (List.filter_eq_self.mpr ?_)
  intro p hp
  -- On the pairs: none of them has the name.
  induction pairs with
  | nil => cases hp
  | cons q pairs ih =>
    rw [List.lookup_cons] at hn
    split at hn
    · cases hn
    · rename_i hq
      rcases List.mem_cons.mp hp with rfl | hp
      · have hne : name ≠ p.1 := by simpa using hq
        simpa using hne.symm
      · exact ih hn hp

/-- The handle under a name is one of those held, and the others are under the other names. -/
theorem handles_perm {names : Names} (hd : names.Distinct) {name : String} {v : Handle}
    (hv : names.get? name = some v) : names.handles.Perm (v :: (names.erase name).handles) := by
  obtain ⟨pairs⟩ := names
  unfold Distinct at hd
  rw [get?] at hv
  rw [handles, handles, erase]
  dsimp only at hd hv ⊢
  induction pairs with
  | nil => cases hv
  | cons p pairs ih =>
    obtain ⟨hnew, hrest⟩ := List.nodup_cons.mp hd
    rw [List.lookup_cons] at hv
    split at hv
    · rename_i hname
      have hname : name = p.1 := by simpa using hname
      -- no other pair has this name, so erasing takes only the first
      have hothers : (pairs.filter fun q => q.1 != name) = pairs := by
        refine List.filter_eq_self.mpr fun q hq => ?_
        have hne : q.1 ≠ name := by
          rintro heq
          exact hnew (List.mem_map.mpr ⟨q, hq, heq.trans hname⟩)
        simpa using hne
      rw [List.filter_cons, if_neg (by simp [hname]), hothers, List.map_cons, Option.some.inj hv]
    · rename_i hname
      have hne : name ≠ p.1 := by simpa using hname
      rw [List.filter_cons, if_pos (by simpa using hne.symm), List.map_cons, List.map_cons]
      exact ((ih hrest hv).cons p.2).trans (List.Perm.swap v p.2 _)

/-- Giving a name a handle takes that handle, and gives the old one back. -/
theorem handles_put_perm {names : Names} (hd : names.Distinct) (name : String) (v : Handle) :
    ((names.get? name).toList ++ (names.put name v).handles).Perm (v :: names.handles) := by
  have hput : (names.put name v).handles = v :: (names.erase name).handles := rfl
  rw [hput]
  cases hold : names.get? name with
  | none => rw [erase_of_get?_none hold, Option.toList_none, List.nil_append]
  | some old =>
    have hperm := handles_perm hd hold
    exact (List.Perm.swap v old _).trans (hperm.symm.cons v)

end Names

end BoxRuntime
