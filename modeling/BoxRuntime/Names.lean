/-
  Names.

  Whoever works on a machine keeps its handles under names.  A name holds one handle; giving a
  bound name a new handle hands the old one back.
-/
import BoxRuntime.Handle

namespace BoxRuntime

/-- Handles under names. -/
structure Names where
  pairs : List (String × Handle) := []

namespace Names

/-- The handle under a name. -/
def get? (names : Names) (name : String) : Option Handle :=
  names.pairs.lookup name

/-- Frees a name. -/
def erase (names : Names) (name : String) : Names :=
  { pairs := names.pairs.filter fun p => p.1 != name }

/-- Puts a handle under a name, instead of the one that was there. -/
def put (names : Names) (name : String) (v : Handle) : Names :=
  { pairs := (name, v) :: (names.erase name).pairs }

/-- The handles that are held. -/
def handles (names : Names) : List Handle :=
  names.pairs.map Prod.snd

/-- A name denotes what it was given last. -/
@[simp] theorem get?_put_self (names : Names) (name : String) (v : Handle) :
    (names.put name v).get? name = some v := by
  simp [get?, put]

/-- Taking the pairs of one name out of a list leaves the other names alone. -/
theorem lookup_filter_ne {α β : Type} [BEq α] [LawfulBEq α] {pairs : List (α × β)}
    {name other : α} (h : other ≠ name) :
    (pairs.filter fun p => p.1 != name).lookup other = pairs.lookup other := by
  induction pairs with
  | nil => rfl
  | cons p pairs ih =>
    obtain ⟨k, v⟩ := p
    by_cases hk : k = name
    · have : (other == k) = false := by simpa [hk] using h
      rw [List.filter_cons, if_neg (by simpa using hk), List.lookup_cons, this, ih]
    · rw [List.filter_cons, if_pos (by simpa using hk), List.lookup_cons, List.lookup_cons, ih]

/-- Afterwards the name has no pair. -/
theorem lookup_filter_self {α β : Type} [BEq α] [LawfulBEq α] (pairs : List (α × β)) (name : α) :
    (pairs.filter fun p => p.1 != name).lookup name = none := by
  induction pairs with
  | nil => rfl
  | cons p pairs ih =>
    obtain ⟨k, v⟩ := p
    by_cases hk : k = name
    · rw [List.filter_cons, if_neg (by simpa using hk), ih]
    · have : (name == k) = false := by simpa using fun h => hk h.symm
      rw [List.filter_cons, if_pos (by simpa using hk), List.lookup_cons, this, ih]

/-- Giving a box to one name does not touch the others. -/
theorem get?_put_of_ne {names : Names} {name other : String} {v : Handle} (h : other ≠ name) :
    (names.put name v).get? other = names.get? other := by
  have : (other == name) = false := by simpa using h
  simp [get?, put, erase, List.lookup_cons, this, lookup_filter_ne h]

/-- A name that is erased denotes nothing. -/
@[simp] theorem get?_erase_self (names : Names) (name : String) :
    (names.erase name).get? name = none :=
  lookup_filter_self names.pairs name

end Names

end BoxRuntime
