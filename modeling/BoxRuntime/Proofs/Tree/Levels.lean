/-
  Where entries lie, and how insertions move them.

  A tree only grows deeper.  When an insertion rewrites a chunk, the entries that were in the tree
  stay in order, and each of them stays on its level or sinks by one (`Sinks`); none ever rises.  So
  the depth of the tree never shrinks, and it grows by at most one, and only with a split.

  The main statement is `insert_rewrites`: of every tree that insertions can make, it says what the
  next successful insertion leaves as it was, what it changes and how, chunk by chunk
  (`SearchTree.Rewrites`), and that the hint the tree has is that of the last new entry.

  The crux is `TakesIn.sunk`.  Both ways to split send part of a chunk down by one level and leave
  the rest where it is; the new entry may be the one that stays, among those that sink, or on the
  other side, and in all cases the others keep their order around it.
-/
import BoxRuntime.Proofs.Tree.Census
import BoxRuntime.Proofs.Tree.Effect
import Mathlib.Data.List.Forall2

namespace BoxRuntime

namespace Chunk

variable {β : Type} {shape : Shape}

open Assoc

/-! ## The forms of a rewritten chunk

  Up to equality there are three: with one leaf more, with its leaves below its last branch, or
  with its branches below its only one. -/

/-- The chunk that has no branches is its leaves. -/
theorem eq_tail_of_branches {c : Chunk β} (h : c.branches = []) : c = tail c.leaves :=
  ext_own h rfl

/-- A chunk that takes an entry in has one of three forms. -/
theorem TakesIn.cases_eq {old new : Chunk β} {filled : List (Entry β)} {split : Option SplitKind}
    (h : TakesIn shape old filled split new) :
    (split = none ∧ new = old.withTail fun _ => tail filled) ∨
      (∃ smaller largest, split = some .leaves ∧ filled = smaller ++ [largest] ∧
        new = old.withTail fun _ => link (tail smaller) largest (tail [])) ∨
      (∃ smallest larger, split = some .branches ∧ filled = smallest :: larger ∧
        new = link (old.withTail fun _ => tail []) smallest (tail larger)) := by
  -- A chunk is settled by its branches and its leaves, so that is what is compared.
  cases h with
  | fits _ hb hl =>
    refine Or.inl ⟨rfl, ext_own ?_ ?_⟩
    · rw [hb, branches_withTail]
      exact (List.append_nil _).symm
    · rw [hl, leaves_withTail]
      rfl
  | @leavesDown _ lower largest _ _ hlb hfilled hb hl =>
    refine Or.inr (Or.inl ⟨lower.leaves, largest, rfl, hfilled.symm, ext_own ?_ ?_⟩)
    · rw [hb, branches_withTail, ← eq_tail_of_branches hlb]
      rfl
    · rw [hl, leaves_withTail]
      rfl
  | @branchesDown _ lower smallest _ _ hlb hll hb hfilled =>
    have hlower : lower = old.withTail fun _ => tail [] := by
      refine ext_own ?_ ?_
      · rw [hlb, branches_withTail]
        exact (List.append_nil _).symm
      · rw [hll, leaves_withTail]
        rfl
    refine Or.inr (Or.inr ⟨smallest, new.leaves, rfl, hfilled.symm, ext_own ?_ rfl⟩)
    rw [hb, hlower]
    rfl

/-! ## Height

  Only a split makes a chunk higher, and by one. -/

/-- The height is the greater of the two. -/
theorem height_withTail (c d : Chunk β) : (c.withTail fun _ => d).height = max c.height d.height := by
  induction c with
  | tail leaves => exact (Nat.zero_max _).symm
  | link child entry rest _ ih =>
    show max (child.height + 1) (rest.withTail fun _ => d).height =
      max (max (child.height + 1) rest.height) d.height
    omega

/-- A chunk that takes an entry in becomes higher by at most one level, and only by a split. -/
theorem TakesIn.height {old new : Chunk β} {filled : List (Entry β)} {split : Option SplitKind}
    (h : TakesIn shape old filled split new) :
    old.height ≤ new.height ∧ new.height ≤ old.height + (if split.isSome then 1 else 0) := by
  -- A split makes the chunk higher by one at most, and only if its own part was the highest.
  obtain ⟨rfl, rfl⟩ | ⟨smaller, largest, rfl, -, rfl⟩ | ⟨smallest, larger, rfl, -, rfl⟩ := h.cases_eq
  · rw [height_withTail]
    show old.height ≤ max old.height 0 ∧ max old.height 0 ≤ old.height + 0
    omega
  · rw [height_withTail]
    show old.height ≤ max old.height (max (0 + 1) 0) ∧
      max old.height (max (0 + 1) 0) ≤ old.height + 1
    omega
  · show old.height ≤ max ((old.withTail fun _ => tail []).height + 1) 0 ∧
      max ((old.withTail fun _ => tail []).height + 1) 0 ≤ old.height + 1
    rw [height_withTail]
    show old.height ≤ max (max old.height 0 + 1) 0 ∧ max (max old.height 0 + 1) 0 ≤ old.height + 1
    omega

/-! ## Levels

  Entries are listed with the levels on which they lie, so that sinking is a relation between two
  lists of the same entries in the same order. -/

/-- The same entry on the same level, or on the next level down. -/
def Sinks (a b : Nat × Entry β) : Prop :=
  b.2 = a.2 ∧ a.1 ≤ b.1 ∧ b.1 ≤ a.1 + 1

theorem Sinks.refl (a : Nat × Entry β) : Sinks a a :=
  ⟨rfl, Nat.le_refl _, Nat.le_succ _⟩

/-- Entries before and after one that is new, in order, of which each stayed or sank. -/
def Sunk (e : Entry β) (levels levels' : List (Nat × Entry β)) : Prop :=
  ∃ left right left' right' level, levels = left ++ right ∧
    levels' = left' ++ (level, e) :: right' ∧
    List.Forall₂ Sinks left left' ∧ List.Forall₂ Sinks right right'

theorem forall₂_sinks_refl (levels : List (Nat × Entry β)) : List.Forall₂ Sinks levels levels :=
  List.forall₂_same.mpr fun a _ => Sinks.refl a

/-- Runs of entries around those that sank stay where they are. -/
theorem Sunk.between {e : Entry β} {levels levels' : List (Nat × Entry β)}
    (h : Sunk e levels levels') (before after : List (Nat × Entry β)) :
    Sunk e (before ++ levels ++ after) (before ++ levels' ++ after) := by
  obtain ⟨left, right, left', right', level, rfl, rfl, hleft, hright⟩ := h
  refine ⟨before ++ left, right ++ after, before ++ left', right' ++ after, level, ?_, ?_,
    List.rel_append (forall₂_sinks_refl before) hleft,
    List.rel_append hright (forall₂_sinks_refl after)⟩
  · simp only [List.append_assoc]
  · simp only [List.append_assoc, List.cons_append]

theorem forall₂_sinks_map (es : List (Entry β)) {level level' : Nat} (hle : level ≤ level')
    (hn : level' ≤ level + 1) :
    List.Forall₂ Sinks (es.map fun e => (level, e)) (es.map fun e => (level', e)) := by
  induction es with
  | nil => exact List.Forall₂.nil
  | cons e es ih => exact List.Forall₂.cons ⟨rfl, hle, hn⟩ ih

/-- A tree that is hung one level further down. -/
theorem forall₂_sinks_leveled (c : Chunk β) (level : Nat) :
    List.Forall₂ Sinks (c.leveled level) (c.leveled (level + 1)) := by
  induction c generalizing level with
  | tail leaves => exact forall₂_sinks_map leaves (Nat.le_succ _) (Nat.le_refl _)
  | link child entry rest ihc ihr =>
    have hentry : Sinks (level, entry) (level + 1, entry) := ⟨rfl, Nat.le_succ _, Nat.le_refl _⟩
    exact List.rel_append (ihc (level + 1)) (List.Forall₂.cons hentry (ihr level))

/-- The entries before the leaves, with their levels. -/
def leveledTrunk (level : Nat) : Chunk β → List (Nat × Entry β)
  | tail _ => []
  | link child entry rest => child.leveled (level + 1) ++ (level, entry) :: rest.leveledTrunk level

/-- A chunk has its trunk, and its leaves on its own level. -/
theorem leveled_eq_trunk (level : Nat) (c : Chunk β) :
    c.leveled level = c.leveledTrunk level ++ c.leaves.map fun e => (level, e) := by
  induction c with
  | tail leaves => rfl
  | link child entry rest _ ih =>
    rw [leveled, leveledTrunk, ih, List.append_assoc, List.cons_append]
    rfl

/-- What is put in the place of the leaves is on the level of the chunk. -/
theorem leveled_withTail (level : Nat) (c d : Chunk β) :
    (c.withTail fun _ => d).leveled level = c.leveledTrunk level ++ d.leveled level := by
  induction c with
  | tail leaves => rfl
  | link child entry rest _ ih =>
    show child.leveled (level + 1) ++ (level, entry) :: (rest.withTail fun _ => d).leveled level = _
    rw [ih, leveledTrunk, List.append_assoc, List.cons_append]

/-- A trunk that moves down takes its entries one level lower. -/
theorem forall₂_sinks_trunk (c : Chunk β) (level : Nat) :
    List.Forall₂ Sinks (c.leveledTrunk level) (c.leveledTrunk (level + 1)) := by
  induction c with
  | tail leaves => exact List.Forall₂.nil
  | link child entry rest _ ih =>
    have hentry : Sinks (level, entry) (level + 1, entry) := ⟨rfl, Nat.le_succ _, Nat.le_refl _⟩
    exact List.rel_append (forall₂_sinks_leveled child (level + 1)) (List.Forall₂.cons hentry ih)

/-- In a chunk that takes an entry in, the other entries keep their order, and each stays or
sinks. -/
theorem TakesIn.sunk {old new : Chunk β} {before after : List (Entry β)} {e : Entry β}
    {split : Option SplitKind} (h : TakesIn shape old (before ++ e :: after) split new)
    (hleaves : old.leaves = before ++ after) (level : Nat) :
    Sunk e (old.leveled level) (new.leveled level) := by
  have hold : old.leveled level = (old.leveledTrunk level ++ before.map fun e => (level, e)) ++
      after.map fun e => (level, e) := by
    rw [leveled_eq_trunk, hleaves, List.map_append, List.append_assoc]
  have hstay : List.Forall₂ Sinks (old.leveledTrunk level) (old.leveledTrunk level) :=
    forall₂_sinks_refl _
  have hsink : ∀ es : List (Entry β), List.Forall₂ Sinks (es.map fun e => (level, e))
      (es.map fun e => (level + 1, e)) :=
    fun es => forall₂_sinks_map es (Nat.le_succ _) (Nat.le_refl _)
  obtain ⟨-, rfl⟩ | ⟨smaller, largest, -, hfilled, rfl⟩ | ⟨smallest, larger, -, hfilled, rfl⟩ :=
    h.cases_eq
  -- nothing moves
  · refine ⟨_, _, _, _, level, hold, ?_, forall₂_sinks_refl _, forall₂_sinks_refl _⟩
    rw [leveled_withTail, leveled, List.map_append, List.map_cons, ← List.append_assoc]
  -- the leaves sink, but for the largest
  · have hnew : (old.withTail fun _ => link (tail smaller) largest (tail [])).leveled level =
        old.leveledTrunk level ++ ((smaller.map fun e => (level + 1, e)) ++ [(level, largest)]) :=
      leveled_withTail level old _
    rcases List.eq_nil_or_concat after with rfl | ⟨init, last, rfl⟩
    -- the new entry is the largest, and stays
    · obtain ⟨rfl, rfl⟩ : smaller = before ∧ largest = e := by
        have := List.append_inj' hfilled rfl
        exact ⟨this.1.symm, (List.cons.inj this.2).1.symm⟩
      refine ⟨_, _, old.leveledTrunk level ++ smaller.map fun e => (level + 1, e), [], level, hold,
        ?_, List.rel_append hstay (hsink smaller), List.Forall₂.nil⟩
      rw [hnew, List.append_assoc]
    -- the new entry sinks with those around it
    · obtain ⟨rfl, rfl⟩ : smaller = before ++ e :: init ∧ largest = last := by
        have hassoc : (before ++ e :: init) ++ [last] = smaller ++ [largest] := by
          rw [← hfilled, List.append_assoc, List.cons_append, List.concat_eq_append]
        have := List.append_inj' hassoc rfl
        exact ⟨this.1.symm, (List.cons.inj this.2).1.symm⟩
      have hlast : List.Forall₂ Sinks [(level, largest)] [(level, largest)] :=
        forall₂_sinks_refl _
      refine ⟨_, _, old.leveledTrunk level ++ before.map fun e => (level + 1, e),
        (init.map fun e => (level + 1, e)) ++ [(level, largest)], level + 1, hold, ?_,
        List.rel_append hstay (hsink before), ?_⟩
      · rw [hnew, List.map_append, List.map_cons]
        simp only [List.append_assoc, List.cons_append]
      · rw [List.concat_eq_append, List.map_append]
        exact List.rel_append (hsink init) hlast
  -- the branches sink with all that is below them, and the leaves stay
  · have hnew : (link (old.withTail fun _ => tail []) smallest (tail larger)).leveled level =
        old.leveledTrunk (level + 1) ++ (before ++ e :: after).map fun e => (level, e) := by
      rw [hfilled, leveled, leveled_withTail, leveled, List.map_nil, List.append_nil]
      rfl
    refine ⟨_, _, old.leveledTrunk (level + 1) ++ before.map fun e => (level, e),
      after.map fun e => (level, e), level, hold, ?_,
      List.rel_append (forall₂_sinks_trunk old level) (forall₂_sinks_refl _), forall₂_sinks_refl _⟩
    rw [hnew, List.map_append, List.map_cons, List.append_assoc]

end Chunk

/-! ## The hint

  Where the last new entry came to lie. A merge brings no new entry, and the hint stays. -/

/-- The hint that the outcome of an insertion gives: only new entries give one. -/
def InsertOutcome.hint? {β : Type} : InsertOutcome β → Option RebalanceHint
  | .added depth index _ => some { depth, index }
  | .merged _ => none

namespace SearchTree

variable {shape : Shape} {β : Type}

open Assoc Chunk

/-- What insertions did one after another, those left out that failed. -/
def outcomes (t : SearchTree shape β) : List (Entry β) → List (InsertOutcome β)
  | [] => []
  | e :: es =>
    match t.insert e with
    | .ok outcome t' => outcome :: t'.outcomes es
    | .error _ t' => t'.outcomes es

/-- The hint is that of the last new entry. -/
theorem Change.lastHint_eq {t t' : SearchTree shape β} {e : Entry β} {outcome : InsertOutcome β}
    (h : t.Change e outcome t') : t'.lastHint = outcome.hint?.or t.lastHint := by
  cases h with
  | merged _ _ _ _ => rfl
  | added _ _ _ => rfl

/-- After insertions the tree has the hint of the last new entry, or the one it had. -/
theorem lastHint_insertAll {t : SearchTree shape β} (hs : t.Sound) (es : List (Entry β)) :
    (t.insertAll es).lastHint =
      (((t.outcomes es).filterMap InsertOutcome.hint?).getLast?).or t.lastHint := by
  induction es generalizing t with
  | nil => rfl
  | cons e es ih =>
    rw [insertAll, List.foldl_cons, outcomes]
    cases h : t.insert e with
    | error f t' =>
      rw [keep_of_error h, insert_error h]
      exact ih hs
    | ok outcome t' =>
      rw [keep_of_ok h]
      obtain ⟨hchange, cmp, hr⟩ := change_of_insert hs h
      have hrest := ih (hchange.sound hs hr)
      rw [hchange.lastHint_eq] at hrest
      show (t'.insertAll es).lastHint = _
      rw [hrest]
      -- what came later counts, if anything did
      cases hlater : ((t'.outcomes es).filterMap InsertOutcome.hint?).getLast? with
      | none =>
        have hnil := List.getLast?_eq_none_iff.mp hlater
        cases hhint : outcome.hint? with
        | none => simp [hhint, hnil]
        | some hint => simp [hhint, hnil]
      | some hint =>
        cases hhint : outcome.hint? with
        | none => simp [hhint, hlater]
        | some hint' => simp [hhint, List.getLast?_cons, hlater]

/-! ## What an insertion leaves and what it changes

  A merge supersedes one item; a new entry enters one chunk. In either case all other chunks hold
  themselves what they held. -/

/-- An entry with the key is there.  Its item is replaced, and nothing else changes: no chunk, no
count, no hint and no type. -/
structure Supersedes (t : SearchTree shape β) (e : Entry β) (displaced : β)
    (t' : SearchTree shape β) : Prop where
  found : ∃ old ∈ t.entries.toList, old.sortKey = e.sortKey ∧ displaced = old.item
  tree_eq : t' = { t with root := t.root.mapEntries e.supersede }
  /-- Where all items are the same, the tree is. -/
  plain : Subsingleton β → t' = t

/-- The new entry came to the chunk at the given depth, before the leaf at the given position, and
may have split that chunk. -/
structure Enters (t : SearchTree shape β) (e : Entry β) (depth index : Nat)
    (split : Option SplitKind) (t' : SearchTree shape β) : Prop where
  /-- The search for the key ends at that chunk, among its leaves; the chunk takes the entry in, and
  every other chunk of the tree holds itself what it held. -/
  rewritten : ∃ path old new before after, path.length = depth ∧ before.length = index ∧
    Leads e.sortKey t.root path old ∧ old.leaves = before ++ after ∧
    Sorted (before ++ e :: after) ∧ TakesIn shape old (before ++ e :: after) split new ∧
    t'.root.chunkAt? path = some new ∧
    ∀ other, ¬path <+: other →
      (t'.root.chunkAt? other).map own = (t.root.chunkAt? other).map own
  /-- The other entries are in the same order, each on its level or one level further down. -/
  sunk : Sunk e (t.root.leveled 0) (t'.root.leveled 0)
  depth_le : t.stats.depth ≤ t'.stats.depth
  le_depth : t'.stats.depth ≤ t.stats.depth + (if split.isSome then 1 else 0)
  hint_eq : t'.lastHint = some { depth, index }

/-- What a successful insertion leaves as it was and what it changes. -/
def Rewrites (t : SearchTree shape β) (e : Entry β) (t' : SearchTree shape β) :
    InsertOutcome β → Prop
  | .merged displaced => t.Supersedes e displaced t'
  | .added depth index split => t.Enters e depth index split t'

/-- In a set there is nothing to supersede. -/
theorem mapEntries_of_subsingleton [Subsingleton β] (e : Entry β) (c : Chunk β) :
    c.mapEntries e.supersede = c := by
  refine mapEntries_of_fixed fun x _ => ?_
  rcases eq_or_ne x.sortKey e.sortKey with hx | hx
  · rw [supersede_of_eq hx, Subsingleton.elim e.item x.item]
  · exact supersede_of_ne hx

/-- **What an insertion does to the chunks**, read off from its effect. -/
theorem Effect.rewrites {t t' : SearchTree shape β} {e : Entry β} {outcome : InsertOutcome β}
    -- A merged entry rewrites one item. An added one rewrites one chunk, and only entries of that
    -- chunk sink.
    (h : t.Effect e outcome t') : t.Rewrites e t' outcome := by
  cases h with
  | @merged old hmem hkey =>
    refine ⟨⟨old, ?_, hkey, rfl⟩, rfl, fun _ => ?_⟩
    · rw [toList_entries]
      exact hmem
    · rw [mapEntries_of_subsingleton]
  | @added path old new before after split hleads hleaves hfilled htakes =>
    have hold := hleads.chunkAt?
    have hnew := chunkAt?_replaceAt_append hold new []
    rw [List.append_nil] at hnew
    obtain ⟨hle, hn⟩ := htakes.height
    obtain ⟨hle', hn'⟩ := height_replaceAt_le hold hle hn
    refine ⟨⟨path, old, new, before, after, rfl, rfl, hleads, hleaves, hfilled, htakes, hnew,
      fun other hne => own_replaceAt_of_not_prefix new hne⟩, ?_, ?_, ?_, rfl⟩
    · -- Around the chunk nothing moves.
      obtain ⟨left, right, hroot, hreplace⟩ := leveled_replaceAt hold 0
      have hsunk := (htakes.sunk hleaves (0 + path.length)).between left right
      rw [← hroot, ← hreplace new] at hsunk
      exact hsunk
    · -- Depths are heights, counted from one.
      rw [stats, stats, stats_eq, stats_eq]
      exact Nat.succ_le_succ hle'
    · rw [stats, stats, stats_eq, stats_eq]
      show (t.root.replaceAt path new).height + 1 ≤ t.root.height + 1 + _
      omega

/-- **An insertion touches one chunk.**  In every tree that insertions make, whatever its shape, the
next one replaces a single item, or it rewrites the chunk where the search ends and no other.  No
entry ever rises, and none sinks by more than one level at a time.  The hint is always that of the
last new entry. -/
theorem insert_rewrites (tag : Tag) (es : List (Entry β)) :
    ((new tag : SearchTree shape β).insertAll es).lastHint =
        (((new tag : SearchTree shape β).outcomes es).filterMap InsertOutcome.hint?).getLast? ∧
      ∀ e outcome t', ((new tag : SearchTree shape β).insertAll es).insert e = .ok outcome t' →
        ((new tag : SearchTree shape β).insertAll es).Rewrites e t' outcome := by
  have hnew : (new tag : SearchTree shape β).Sound := sound_new tag
  constructor
  · rw [lastHint_insertAll hnew, new, Option.or_none]
  · intro e outcome t' h
    exact (effect_of_insert (insertAll_spec hnew es).1 h).rewrites

/-- A set of 23 increasing ints has a full root with three branches and two leaves; the next int
sends the branches down. -/
theorem insert_rewrites_full_root : ∃ (es : List (Entry Unit)) (e : Entry Unit)
    (t' : SearchTree Shape.set Unit),
    ((new .none : SearchTree Shape.set Unit).insertAll es).insert e =
        .ok (.added 0 2 (some .branches)) t' ∧
      ((new .none : SearchTree Shape.set Unit).insertAll es).Rewrites e t'
        (.added 0 2 (some .branches)) := by
  -- The root is full after 23 keys, and has more branches than leaves.
  have hsplit : (completed (((new .none : SearchTree Shape.set Unit).insertAll
      ((List.range 23).map fun i => ⟨⟨i + 1, .int (Int64.ofNat i)⟩, ()⟩)).insert
        ⟨⟨24, .int 23⟩, ()⟩)).map Prod.fst = .ok (.added 0 2 (some .branches)) := by
    decide +kernel
  generalize hinsert : SearchTree.insert _ _ = result at hsplit
  cases result with
  | error f t' => cases hsplit
  | ok outcome t' =>
    cases hsplit
    exact ⟨_, _, t', hinsert, (insert_rewrites .none _).2 _ _ _ hinsert⟩

end SearchTree

end BoxRuntime
