/-
  Trees do not depend on box numbers.

  Boxes may be given other numbers, as long as the numbers keep their order.  The comparators then
  answer as before: texts and ints do not change, and the types that are compared by number are
  compared by the order of numbers only.

  So a tree of renumbered boxes is the renumbered tree.  This module says so for every part of a
  search and of an insertion, splits included, and of the taking apart of a tree: doing the thing
  and then renumbering is the same as renumbering first (`insert_relabel`, `find_relabel`,
  `teardown_relabel`).  The item of an entry is relabelled by a function of its own, because in a
  set it is nothing and in a map it is another box.
-/
import BoxRuntime.Proofs.Tree.Walk
import BoxRuntime.Proofs.Triple
import Mathlib.Order.Monotone.Basic

namespace BoxRuntime

/-! ## Relabelled data

  A function for keys and one for items, applied throughout. -/

/-- The handle of the box that has the new number. -/
def Handle.renumber (ρ : Nat → Nat) (v : Handle) : Handle :=
  { id := ρ v.id, datum := v.datum }

section

variable {β : Type} {shape : Shape} (f : Handle → Handle) (g : β → β)

def Entry.relabel (e : Entry β) : Entry β :=
  { key := f e.key, item := g e.item }

namespace Chunk

def relabel : Chunk β → Chunk β
  | tail leaves => tail (leaves.map (Entry.relabel f g))
  | link child entry rest => link child.relabel (entry.relabel f g) rest.relabel

def Place.relabel : Place β → Place β
  | found before entry after =>
    found (before.map (Entry.relabel f g)) (entry.relabel f g) (after.map (Entry.relabel f g))
  | gap before after => gap (before.map (Entry.relabel f g)) (after.map (Entry.relabel f g))

def Insertion.relabel : Insertion β → Insertion β
  | merged displaced => merged (g displaced)
  | added depth index split => added depth index split
  | full before after => full (before.map (Entry.relabel f g)) (after.map (Entry.relabel f g))

end Chunk

def InsertOutcome.relabel : InsertOutcome β → InsertOutcome β
  | added depth index split => added depth index split
  | merged displaced => merged (g displaced)

def SearchTree.relabel (t : SearchTree shape β) : SearchTree shape β :=
  { t with root := t.root.relabel f g }

/-! ## Searching and inserting

  Each function of the tree commutes with relabelling, as long as comparisons come out the same. -/

namespace Chunk

variable {f g} {cmp cmp' : Handle → Except Fault Ordering}

/-- Relabeling keeps the order of the entries. -/
theorem toList_relabel (c : Chunk β) :
    (c.relabel f g).toList = c.toList.map (Entry.relabel f g) := by
  induction c with
  | tail leaves => rfl
  | link child entry rest ihc ihr =>
    rw [relabel, toList, toList, ihc, ihr, List.map_append, List.map_cons]

theorem length_branches_relabel (c : Chunk β) :
    (c.relabel f g).branches.length = c.branches.length := by
  induction c with
  | tail leaves => rfl
  | link child entry rest _ ihr => rw [relabel, branches, branches, List.length_cons, ihr]; rfl

/-- What is put at the end is relabeled with the rest. -/
theorem withTail_relabel {k k' : List (Entry β) → Chunk β}
    (hk : ∀ leaves, k' (leaves.map (Entry.relabel f g)) = (k leaves).relabel f g) (c : Chunk β) :
    (c.relabel f g).withTail k' = (c.withTail k).relabel f g := by
  induction c with
  | tail leaves => exact hk leaves
  | link child entry rest _ ihr => rw [relabel, withTail, withTail, ihr]; rfl

/-- The leaves are the same, relabeled. -/
theorem leaves_relabel (c : Chunk β) :
    (c.relabel f g).leaves = c.leaves.map (Entry.relabel f g) := by
  induction c with
  | tail leaves => rfl
  | link child entry rest _ ihr => exact ihr

theorem branches_relabel (c : Chunk β) :
    (c.relabel f g).branches = c.branches.map fun b => (b.1.relabel f g, b.2.relabel f g) := by
  induction c with
  | tail leaves => rfl
  | link child entry rest _ ihr => exact congrArg (_ :: ·) ihr

theorem children_relabel (c : Chunk β) :
    (c.relabel f g).children = c.children.map (relabel f g) := by
  rw [children, children, branches_relabel, List.map_map, List.map_map]
  rfl

/-- Relabelled chunks come apart in the same order. -/
theorem drain_relabel (loose : List (Chunk β)) (gone gone' : Array (Entry β))
    (hgone : gone'.toList = gone.toList.map (Entry.relabel f g)) :
    (drain (loose.map (relabel f g)) gone').toList =
      (drain loose gone).toList.map (Entry.relabel f g) := by
  -- On the chunks that are still to be taken apart: the first gives up its entries, and its
  -- children join the others.
  fun_induction drain loose gone generalizing gone' with
  | case1 gone =>
    rw [List.map_nil, drain]
    exact hgone
  | case2 gone c loose ih =>
    have hnext := ih (gone' ++ (c.relabel f g).branches.map Prod.snd ++ (c.relabel f g).leaves) (by
      rw [Array.toList_appendList, Array.toList_appendList, hgone, branches_relabel, leaves_relabel,
        Array.toList_appendList, Array.toList_appendList, List.map_append, List.map_append,
        List.map_map, List.map_map]
      rfl)
    rw [List.map_append, List.map_reverse, ← children_relabel] at hnext
    rw [List.map_cons, drain]
    exact hnext

/-- A tree is taken apart in the same order. -/
theorem teardown_relabel (c : Chunk β) :
    (c.relabel f g).teardown.toList = c.teardown.toList.map (Entry.relabel f g) := by
  have hbelow := drain_relabel c.children.reverse (c.branches.map Prod.snd).toArray
    ((c.relabel f g).branches.map Prod.snd).toArray (f := f) (g := g) (by
      rw [branches_relabel, List.map_map, List.map_map]
      rfl)
  rw [List.map_reverse, ← children_relabel] at hbelow
  rw [teardown, teardown, Array.toList_appendList, Array.toList_appendList, hbelow, leaves_relabel,
    List.map_append]

/-- The comparisons with the relabelled keys have the answers of those with the keys. -/
theorem place_relabel (hc : ∀ v, cmp' (f v) = cmp v) (es : List (Entry β)) :
    place cmp' (es.map (Entry.relabel f g)) = (place cmp es).map (Place.relabel f g) := by
  -- On the leaves: comparisons come out the same, so the cut is in the same place.
  induction es with
  | nil => rfl
  | cons e es ih =>
    have hkey : cmp' (e.relabel f g).key = cmp e.key := hc e.key
    rw [List.map_cons, place, place, hkey, ih]
    rcases cmp e.key with fault | o
    · rfl
    · cases o with
      | lt => rfl
      | eq => rfl
      | gt =>
        rcases place cmp es with fault | p
        · rfl
        · cases p <;> rfl

/-- A search takes the same way, as the comparator gives the same answers. -/
theorem find_relabel (hc : ∀ v, cmp' (f v) = cmp v) (c : Chunk β) :
    (c.relabel f g).find cmp' = (c.find cmp).map (Option.map (Entry.relabel f g)) := by
  -- On the chunk: through its leaves, or into the child or on to the rest.
  induction c with
  | tail leaves =>
    rw [relabel, find, find, place_relabel hc]
    rcases place cmp leaves with fault | p
    · rfl
    · cases p <;> rfl
  | link child entry rest ihc ihr =>
    have hkey : cmp' (entry.relabel f g).key = cmp entry.key := hc entry.key
    rw [relabel, find, find, hkey, ihc, ihr]
    rcases cmp entry.key with fault | o
    · rfl
    · cases o <;> rfl

variable (shape) in
/-- A chunk splits in the same way: how it does depends on numbers of slots alone. -/
theorem split_relabel (c : Chunk β) (before : List (Entry β)) (e : Entry β)
    (after : List (Entry β)) :
    (c.relabel f g).split shape (before.map (Entry.relabel f g)) (e.relabel f g)
        (after.map (Entry.relabel f g)) =
      ((c.split shape before e after).1.relabel f g, (c.split shape before e after).2) := by
  have hsorted : before.map (Entry.relabel f g) ++ e.relabel f g :: after.map (Entry.relabel f g)
      = (before ++ e :: after).map (Entry.relabel f g) := by
    rw [List.map_append, List.map_cons]
  unfold split
  dsimp only
  simp only [hsorted, length_branches_relabel]
  -- both sides split in the same way, as this depends on lengths alone
  split
  · rw [List.head_map, ← List.map_tail]
    rw [withTail_relabel (k := fun _ => tail []) fun _ => rfl]
    rfl
  · rw [List.getLast_map, ← List.map_dropLast]
    rw [withTail_relabel (k := fun _ =>
      link (tail (before ++ e :: after).dropLast)
        ((before ++ e :: after).getLast (by simp)) (tail [])) fun _ => rfl]

variable (shape) in
/-- **An insertion takes the same way through the chunks**, and leaves the relabeled tree, even if a
comparison fails. -/
theorem attempt_relabel (hc : ∀ v, cmp' (f v) = cmp v) (e : Entry β) (seen : Nat) (c : Chunk β) :
    (c.relabel f g).attempt shape cmp' (e.relabel f g) seen =
      mapResult (Insertion.relabel f g) (relabel f g) (c.attempt shape cmp e seen) := by
  -- On the chunk, as for a search; what is stored is relabelled on the way.
  induction c generalizing seen with
  | tail leaves =>
    rw [relabel, attempt, attempt, place_relabel hc, List.length_map]
    rcases place cmp leaves with fault | p
    · rfl
    · cases p with
      | found before old after =>
        simp only [Except.map, Place.relabel, mapResult, Insertion.relabel, relabel,
          List.map_append, List.map_cons]
        rfl
      | gap before after =>
        simp only [Except.map, Place.relabel]
        split
        · simp only [mapResult, Insertion.relabel, relabel, List.map_append, List.map_cons,
            List.length_map]
        · rfl
  | link child entry rest ihc ihr =>
    have hkey : cmp' (entry.relabel f g).key = cmp entry.key := hc entry.key
    rw [relabel, attempt, attempt, hkey, ihc, ihr]
    rcases cmp entry.key with fault | o
    · rfl
    · cases o with
      | eq => rfl
      | lt =>
        -- Only a child without room is changed here, by a split.
        rcases attempt shape cmp e 0 child with ⟨r, child'⟩ | ⟨fault, child'⟩
        · cases r with
          | merged displaced => rfl
          | added depth index split => rfl
          | full before after =>
            have hsplit := split_relabel shape (f := f) (g := g) child' before e after
            simp only [mapResult, Insertion.relabel, hsplit, relabel, List.length_map]
        · rfl
      | gt =>
        rcases attempt shape cmp e (seen + 1) rest with ⟨r, rest'⟩ | ⟨fault, rest'⟩ <;> rfl

end Chunk

namespace SearchTree

variable {f g}

@[simp] theorem elementType_relabel (t : SearchTree shape β) :
    (t.relabel f g).elementType = t.elementType :=
  rfl

@[simp] theorem size_relabel (t : SearchTree shape β) : (t.relabel f g).size = t.size :=
  rfl

@[simp] theorem isEmpty_relabel (t : SearchTree shape β) : (t.relabel f g).isEmpty = t.isEmpty :=
  rfl

/-- The entries are listed in the same order. -/
theorem entries_relabel (t : SearchTree shape β) :
    (t.relabel f g).entries.toList = t.entries.toList.map (Entry.relabel f g) := by
  rw [entries, entries, Chunk.toList_entries, Chunk.toList_entries]
  exact Chunk.toList_relabel t.root

/-- The function keeps types, and the answers of all comparators. -/
structure Keeps (f : Handle → Handle) : Prop where
  tag : ∀ v, (f v).tag = v.tag
  answer : ∀ tag cmp, comparator tag = .ok cmp → ∀ v w, cmp (f v) (f w) = cmp v w

/-- Which keys are taken is a matter of types. -/
theorem resolve_relabel (t : SearchTree shape β) (tag : Tag) :
    (t.relabel f g).resolve tag = t.resolve tag :=
  rfl

/-- A comparator that a tree gives is one that a type has. -/
theorem comparator_of_resolve {t : SearchTree shape β} {tag : Tag} {cmp : Comparator}
    (h : t.resolve tag = .ok cmp) : ∃ tag, comparator tag = .ok cmp := by
  unfold resolve at h
  split at h
  · split at h
    · exact ⟨_, h⟩
    · cases h
  · exact ⟨_, h⟩

/-- **An insertion into the relabeled tree is the relabeled insertion.**. -/
theorem insert_relabel (hf : Keeps f) (t : SearchTree shape β) (e : Entry β) :
    (t.relabel f g).insert (e.relabel f g) =
      mapResult (InsertOutcome.relabel g) (SearchTree.relabel f g) (t.insert e) := by
  have htag : (e.relabel f g).key.tag = e.key.tag := hf.tag e.key
  unfold insert
  rw [htag, resolve_relabel]
  cases hr : t.resolve e.key.tag with
  | error fault => rfl
  | ok cmp =>
    -- the two searches have one comparator, which answers alike on both sides
    obtain ⟨tag, hcmp⟩ := comparator_of_resolve hr
    have hc : ∀ v, cmp (e.relabel f g).key (f v) = cmp e.key v := hf.answer tag cmp hcmp e.key
    dsimp only
    rw [isEmpty_relabel]
    split
    · rfl
    · have hattempt := Chunk.attempt_relabel shape (g := g) hc e 0 t.root
      have hroot : (t.relabel f g).root = t.root.relabel f g := rfl
      rw [hroot, hattempt]
      rcases t.root.attempt shape (cmp e.key) e 0 with ⟨r, root⟩ | ⟨fault, root⟩
      · cases r with
        | merged displaced => rfl
        | added depth index split => rfl
        | full before after =>
          have hsplit := Chunk.split_relabel shape (f := f) (g := g) root before e after
          simp only [mapResult, Chunk.Insertion.relabel, hsplit, List.length_map]
          rfl
      · rfl

theorem find_relabel (hf : Keeps f) (t : SearchTree shape β) (key : Handle) :
    (t.relabel f g).find (f key) = (t.find key).map (Option.map (Entry.relabel f g)) := by
  unfold find
  rw [isEmpty_relabel, hf.tag, resolve_relabel]
  split
  · rfl
  · cases hr : t.resolve key.tag with
    | error fault => rfl
    | ok cmp =>
      obtain ⟨tag, hcmp⟩ := comparator_of_resolve hr
      exact Chunk.find_relabel (hf.answer tag cmp hcmp key) t.root

end SearchTree

end

/-! ## Renumbering

  The comparators of the runtime see numbers only through their order. -/

/-- A strictly increasing renumbering keeps all comparisons. -/
theorem compare_of_strictMono {ρ : Nat → Nat} (hρ : StrictMono ρ) (m n : Nat) :
    compare (ρ m) (ρ n) = compare m n := by
  rcases Nat.lt_trichotomy m n with h | h | h
  · rw [Nat.compare_eq_lt.mpr h, Nat.compare_eq_lt.mpr (hρ h)]
  · rw [h, Nat.compare_eq_eq.mpr rfl, Nat.compare_eq_eq.mpr rfl]
  · rw [Nat.compare_eq_gt.mpr h, Nat.compare_eq_gt.mpr (hρ h)]

/-- New numbers in the same order keep all comparisons. -/
theorem keeps_renumber {ρ : Nat → Nat} (hρ : StrictMono ρ) :
    SearchTree.Keeps (Handle.renumber ρ) := by
  refine ⟨fun _ => rfl, ?_⟩
  intro tag cmp hcmp v w
  -- Numbers keep their order, and contents and types are not touched.
  have hidentity : compareIdentity (v.renumber ρ) (w.renumber ρ) = compareIdentity v w := by
    unfold compareIdentity
    show (if v.tag = w.tag then _ else _) = _
    split
    · exact congrArg Except.ok (compare_of_strictMono hρ v.id w.id)
    · rfl
  cases tag with
  | string | int =>
    obtain rfl := Except.ok.inj hcmp
    rfl
  | any | wideInt | list | set =>
    obtain rfl := Except.ok.inj hcmp
    exact hidentity
  | none | map | record | fields => cases hcmp

/-! ## Numbers that stay

  Relabelling by a function that fixes all entries of a tree does nothing to it. -/

/-- A handle whose box keeps its number stays the same. -/
theorem Handle.renumber_of_fixed {ρ : Nat → Nat} {v : Handle} (h : ρ v.id = v.id) :
    v.renumber ρ = v :=
  congrArg (fun id => Handle.mk id v.datum) h

section

variable {β : Type} {shape : Shape} {f : Handle → Handle} {g : β → β}

/-- A chunk whose entries stay as they are does so as well. -/
theorem Chunk.relabel_of_fixed {c : Chunk β} (h : ∀ e ∈ c.toList, e.relabel f g = e) :
    c.relabel f g = c := by
  -- On the chunk: its entries are those of the child, its own and those of the rest.
  induction c with
  | tail leaves =>
    have hleaves : leaves.map (Entry.relabel f g) = leaves := by
      have hsame : ∀ e ∈ leaves, e.relabel f g = id e := h
      rw [List.map_congr_left hsame, List.map_id]
    rw [relabel, hleaves]
  | link child entry rest ihc ihr =>
    have hchild : child.relabel f g = child := by
      refine ihc fun e he => h e ?_
      exact List.mem_append_left _ he
    have hentry : entry.relabel f g = entry := by
      refine h entry ?_
      exact List.mem_append_right _ List.mem_cons_self
    have hrest : rest.relabel f g = rest := by
      refine ihr fun e he => h e ?_
      exact List.mem_append_right _ (List.mem_cons_of_mem entry he)
    rw [relabel, hchild, hentry, hrest]

/-- A tree of such handles stays the same. -/
theorem SearchTree.relabel_of_fixed {t : SearchTree shape β}
    (h : ∀ e ∈ t.entries.toList, e.relabel f g = e) : t.relabel f g = t := by
  have hroot : t.root.relabel f g = t.root := by
    refine Chunk.relabel_of_fixed fun e he => h e ?_
    rw [entries, Chunk.toList_entries]
    exact he
  rw [relabel, hroot]

end

end BoxRuntime
