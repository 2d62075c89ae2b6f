/-
  The walk and the census, turn by turn.

  The walk and the census of a chunk tree are loops over a stack of their own.  Here a loop is a
  sequence of turns, and a turn can go wrong or not be there.

  1. A turn of the walk (`Tour.turn?`) takes the topmost frame.  It reads the entry that the frame
     owes, and has no result if there is no such branch.  No turn of a walk goes wrong, each makes
     what is left by one less, and what was visited together with what is left to visit stays the
     same (`Tour.turn?_spec`).  So the walk ends, after two turns for each branch of the tree and
     one more.

  2. A turn of the census (`Count.Turn`) takes one of the pending chunks, whichever, and puts its
     children among them, wherever.  There is one such turn for each chunk, and the order in which
     the chunks come does not matter (`Count.Turns.kept`).

  What they end with is what recursion over the tree gives (`toList_eq_branches`,
  `links_eq_branches`, `height_eq_branches`).  That each entry is visited once is said by the places
  of entries: the walk visits the entries at all places of the tree, at each place once
  (`nodup_places`, `mem_places_iff`).

  The main statement is `turns_account`.  It is about every tree of chunks, empty ones and unsorted
  ones included, and not only about those that insertions make.
-/
import BoxRuntime.Proofs.Tree.Census
import BoxRuntime.Proofs.Tree.Walk
import Mathlib.Data.List.Nodup

namespace BoxRuntime

namespace Chunk

variable {β : Type}

/-! ## What recursion gives

  The functions that run use stacks. These equations are the recursion that one would write down
  instead, over the children of a chunk. -/

/-- The entries in order: for each branch those of the child and then its own, and at last the
leaves. -/
theorem toList_eq_branches (c : Chunk β) :
    c.toList = (c.branches.flatMap fun b => b.1.toList ++ [b.2]) ++ c.leaves := by
  induction c with
  | tail leaves => rfl
  | link child entry rest _ ih =>
    rw [toList, branches, List.flatMap_cons, ih]
    simp only [leaves, List.append_assoc, List.cons_append, List.nil_append]

/-- The number of chunks: the chunk itself and those at and below its children. -/
theorem links_eq_branches (c : Chunk β) :
    c.links + 1 = (c.branches.map fun b => b.1.links + 1).foldr (· + ·) 0 + 1 := by
  induction c with
  | tail leaves => rfl
  | link child entry rest _ ih =>
    rw [branches, List.map_cons, List.foldr_cons]
    show child.links + rest.links + 1 + 1 = child.links + 1 + _ + 1
    omega

/-- The number of levels: that of the chunk itself and those of its highest child. -/
theorem height_eq_branches (c : Chunk β) :
    c.height + 1 = (c.branches.map fun b => b.1.height + 1).foldr max 0 + 1 := by
  induction c with
  | tail leaves => rfl
  | link child entry rest _ ih =>
    rw [branches, List.map_cons, List.foldr_cons]
    show max (child.height + 1) rest.height + 1 = max (child.height + 1) _ + 1
    omega

/-- The number of entries: those of the chunk itself and those at and below its children. -/
theorem length_toList_eq_branches (c : Chunk β) :
    c.toList.length = (c.branches.map fun b => b.1.toList.length).foldr (· + ·) 0 +
      (c.branches.length + c.leaves.length) := by
  induction c with
  | tail leaves =>
    show leaves.length = 0 + (0 + leaves.length)
    omega
  | link child entry rest _ ih =>
    rw [toList, branches, List.map_cons, List.foldr_cons, List.length_append, List.length_cons,
      List.length_cons]
    show _ = child.toList.length + _ + (rest.branches.length + 1 + rest.leaves.length)
    omega

/-! ## Places of entries

  A place is an address and a position among the entries of the chunk there. Listing them from left
  to right lists the entries in order. -/

/-- The entry at a place: the address of a chunk, and a number among the entries that the chunk
holds itself, those of its branches first. -/
def entryAt? (c : Chunk β) (place : List Nat × Nat) : Option (Entry β) :=
  (c.chunkAt? place.1).bind fun d => (d.own.1 ++ d.own.2)[place.2]?

/-- The places of entries in order, in a chunk whose first branches, so many, are left out. -/
def placesFrom (i : Nat) : Chunk β → List (List Nat × Nat)
  | tail leaves => (List.range' i leaves.length).map fun k => ([], k)
  | link child _ rest =>
    (child.placesFrom 0).map (fun p => (i :: p.1, p.2)) ++ ([], i) :: rest.placesFrom (i + 1)

/-- The places of the entries of a tree, in order. -/
def places (c : Chunk β) : List (List Nat × Nat) :=
  c.placesFrom 0

/-- The number with which a place begins: that of a branch that leads down to it, or its own. -/
def lead (place : List Nat × Nat) : Nat :=
  place.1.headD place.2

/-- Places from a branch on lie in it or behind it. -/
theorem le_lead_of_mem {c : Chunk β} {i : Nat} {p : List Nat × Nat} (hp : p ∈ c.placesFrom i) :
    i ≤ lead p := by
  induction c generalizing i with
  | tail leaves =>
    obtain ⟨k, hk, rfl⟩ := List.mem_map.mp hp
    exact (List.mem_range'_1.mp hk).1
  | link child entry rest _ ih =>
    rcases List.mem_append.mp hp with hp | hp
    · obtain ⟨q, -, rfl⟩ := List.mem_map.mp hp
      exact Nat.le_refl i
    · rcases List.mem_cons.mp hp with rfl | hp
      · exact Nat.le_refl i
      · exact Nat.le_of_succ_le (ih hp)

theorem nodup_placesFrom (c : Chunk β) (i : Nat) : (c.placesFrom i).Nodup := by
  induction c generalizing i with
  | tail leaves =>
    refine List.Nodup.map ?_ List.nodup_range'
    intro k l h
    exact (Prod.mk.inj h).2
  | link child entry rest ihc ihr =>
    have hbelow : ((child.placesFrom 0).map fun p => (i :: p.1, p.2)).Nodup := by
      refine List.Nodup.map ?_ (ihc 0)
      intro p q h
      obtain ⟨hpath, hnumber⟩ := Prod.mk.inj h
      exact Prod.ext (List.cons.inj hpath).2 hnumber
    have hlater : ∀ p ∈ rest.placesFrom (i + 1), i < lead p := fun p hp => le_lead_of_mem hp
    rw [placesFrom, List.nodup_append, List.nodup_cons]
    refine ⟨hbelow, ⟨fun h => Nat.lt_irrefl i (hlater _ h), ihr (i + 1)⟩, ?_⟩
    -- a place below the branch begins with its number and is not its own; later ones begin higher
    intro p hp q hq hpq
    subst hpq
    obtain ⟨r, -, rfl⟩ := List.mem_map.mp hp
    rcases List.mem_cons.mp hq with h | hq
    · cases h
    · exact Nat.lt_irrefl i (hlater _ hq)

/-- What is left of a chunk begins with a branch if that is the next one. -/
theorem branch_of_dropBranches {d child rest : Chunk β} {e : Entry β} {i : Nat}
    (h : d.dropBranches i = link child e rest) :
    d.branches[i]? = some (child, e) ∧ d.dropBranches (i + 1) = rest := by
  cases hb : d.branches[i]? with
  | none =>
    rw [dropBranches_eq_tail hb] at h
    cases h
  | some b =>
    rw [dropBranches_eq_link hb] at h
    obtain ⟨rfl, rfl, rfl⟩ := link.inj h
    exact ⟨rfl, rfl⟩

/-- Behind the last branch are the leaves. -/
theorem leaves_of_dropBranches {d : Chunk β} {ls : List (Entry β)} {i : Nat}
    (hi : i ≤ d.branches.length) (h : d.dropBranches i = tail ls) :
    d.branches.length = i ∧ d.leaves = ls := by
  cases hb : d.branches[i]? with
  | none =>
    rw [dropBranches_eq_tail hb] at h
    exact ⟨Nat.le_antisymm (List.getElem?_eq_none_iff.mp hb) hi, tail.inj h⟩
  | some b =>
    rw [dropBranches_eq_link hb] at h
    cases h

/-- An entry below a branch is at the place that it has in the child, with the branch in front. -/
theorem entryAt?_below {d child : Chunk β} {e : Entry β} {i : Nat}
    (hb : d.branches[i]? = some (child, e)) (path : List Nat) (k : Nat) :
    d.entryAt? (i :: path, k) = child.entryAt? (path, k) := by
  rw [entryAt?, entryAt?, chunkAt?_cons, hb]
  rfl

/-- The entries that a chunk holds itself are between its branches, and then its leaves. -/
theorem entryAt?_nil (d : Chunk β) (k : Nat) :
    d.entryAt? ([], k) = (d.branches.map Prod.snd ++ d.leaves)[k]? :=
  rfl

/-- At the places of what is left of a chunk are the entries of what is left. -/
theorem entries_at_placesFrom {d c : Chunk β} {i : Nat} (hi : i ≤ d.branches.length)
    (h : d.dropBranches i = c) : (c.placesFrom i).map d.entryAt? = c.toList.map some := by
  -- On what is left of the chunk after the branches that are passed.
  induction c generalizing d i with
  | tail ls =>
    obtain ⟨hlength, rfl⟩ := leaves_of_dropBranches hi h
    rw [placesFrom, List.map_map, toList]
    -- Only leaves are left, and they are at the positions from here on.
    refine List.ext_getElem (by simp) fun k hk hk' => ?_
    have hk : k < d.leaves.length := by simpa using hk
    simp only [List.getElem_map, List.getElem_range', Function.comp_apply, entryAt?_nil]
    rw [List.getElem?_append_right (by simp; omega)]
    simp [hlength, hk]
  | link child entry rest ihc ihr =>
    obtain ⟨hb, hrest⟩ := branch_of_dropBranches h
    obtain ⟨hlt, hget⟩ := List.getElem?_eq_some_iff.mp hb
    -- The places below a child are its own, seen from this chunk.
    have hbelow : (child.placesFrom 0).map (fun p => d.entryAt? (i :: p.1, p.2)) =
        child.toList.map some := by
      rw [← ihc (Nat.zero_le _) rfl]
      exact List.map_congr_left fun p _ => entryAt?_below hb p.1 p.2
    have hown : d.entryAt? ([], i) = some entry := by
      rw [entryAt?_nil, List.getElem?_append_left (by simpa using hlt), List.getElem?_map, hb]
      rfl
    rw [placesFrom, List.map_append, List.map_map, List.map_cons, ihr hlt hrest, hown, toList,
      List.map_append, List.map_cons]
    exact congrArg (· ++ _) hbelow

/-- A place at which there is an entry is among the places, in what is left if it begins there. -/
theorem mem_placesFrom {d c : Chunk β} {i : Nat} (hi : i ≤ d.branches.length)
    (h : d.dropBranches i = c) {path : List Nat} {k : Nat} {e : Entry β}
    (he : d.entryAt? (path, k) = some e) (hlead : i ≤ lead (path, k)) :
    (path, k) ∈ c.placesFrom i := by
  induction c generalizing d i path with
  | tail ls =>
    obtain ⟨hlength, rfl⟩ := leaves_of_dropBranches hi h
    cases path with
    | nil =>
      rw [entryAt?_nil] at he
      obtain ⟨hk, -⟩ := List.getElem?_eq_some_iff.mp he
      rw [List.length_append, List.length_map, hlength] at hk
      exact List.mem_map.mpr ⟨k, List.mem_range'_1.mpr ⟨hlead, hk⟩, rfl⟩
    | cons j path =>
      -- there is no branch from here on that could lead down
      have hnone : d.branches[j]? = none := by
        rw [List.getElem?_eq_none_iff, hlength]
        exact hlead
      rw [entryAt?, chunkAt?_cons, hnone] at he
      cases he
  | link child entry rest ihc ihr =>
    obtain ⟨hb, hrest⟩ := branch_of_dropBranches h
    obtain ⟨hlt, -⟩ := List.getElem?_eq_some_iff.mp hb
    rw [placesFrom, List.mem_append, List.mem_cons]
    rcases Nat.eq_or_lt_of_le hlead with hfirst | hlater
    · cases path with
      | nil =>
        obtain rfl : i = k := hfirst
        exact Or.inr (Or.inl rfl)
      | cons j path =>
        obtain rfl : i = j := hfirst
        rw [entryAt?_below hb] at he
        refine Or.inl (List.mem_map.mpr ⟨(path, k), ?_, rfl⟩)
        exact ihc (Nat.zero_le _) rfl he (Nat.zero_le _)
    · exact Or.inr (Or.inr (ihr hlt hrest he hlater))

/-- No place comes twice. -/
theorem nodup_places (c : Chunk β) : c.places.Nodup :=
  nodup_placesFrom c 0

/-- At the places in order are the entries in order. -/
theorem entries_at_places (c : Chunk β) : c.places.map c.entryAt? = c.toList.map some :=
  entries_at_placesFrom (Nat.zero_le _) rfl

/-- The places are those at which there is an entry. -/
theorem mem_places_iff (c : Chunk β) (p : List Nat × Nat) :
    p ∈ c.places ↔ ∃ e, c.entryAt? p = some e := by
  constructor
  · intro hp
    have hmem : c.entryAt? p ∈ c.toList.map some := by
      rw [← entries_at_places]
      exact List.mem_map_of_mem hp
    obtain ⟨e, -, he⟩ := List.mem_map.mp hmem
    exact ⟨e, he.symm⟩
  · rintro ⟨e, he⟩
    exact mem_placesFrom (Nat.zero_le _) rfl he (Nat.zero_le _)

end Chunk

/-! ## The walk

  One turn at a time, where a turn that reads past the branches has no result. The invariant is
  that no frame has passed more branches than its chunk has. -/

/-- A walk on its way: the frames, the topmost first, and the entries that were visited. -/
structure Tour (β : Type) where
  frames : List (Chunk β × Nat)
  visited : List (Entry β)

namespace Tour

open Chunk

variable {β : Type} {t t' : Tour β} {c : Chunk β} {next : Nat}

def start (c : Chunk β) : Tour β :=
  { frames := [(c, 0)], visited := [] }

/-- Reads the entry after the last child that is done, if one is.  There is no result if the chunk
has no such branch. -/
def due? (c : Chunk β) : Nat → Option (List (Entry β))
  | 0 => some []
  | done + 1 => c.branches[done]?.map fun b => [b.2]

/-- One turn: what the topmost frame owes is visited, and then it is its next child's turn, or, if
it has no other child, its leaves are visited too.  There is no turn without a frame. -/
def turn? : Tour β → Option (Tour β)
  | ⟨[], _⟩ => none
  | ⟨(c, next) :: frames, visited⟩ =>
    match due? c next with
    | none => none
    | some paid =>
      match c.branches[next]? with
      | some (child, _) => some ⟨(child, 0) :: (c, next + 1) :: frames, visited ++ paid⟩
      | none => some ⟨frames, visited ++ paid ++ c.leaves⟩

/-- So many turns, none of which goes wrong. -/
def turns? : Nat → Tour β → Option (Tour β)
  | 0, t => some t
  | n + 1, t => t.turn?.bind (turns? n)

/-- The frames do not have more children done than there are. -/
def InRange (t : Tour β) : Prop :=
  ∀ frame ∈ t.frames, frame.2 ≤ frame.1.branches.length

/-- What was visited, and what is left to visit. -/
def total (t : Tour β) : List (Entry β) :=
  t.visited ++ t.frames.flatMap unvisited

/-- What is due at a branch is the entry before it. -/
theorem due?_of_le (h : next ≤ c.branches.length) : due? c next = some (owed c next) := by
  cases next with
  | zero => rfl
  | succ done =>
    have hb : c.branches[done]? = some c.branches[done] := List.getElem?_eq_getElem h
    rw [due?, owed, hb]
    rfl

/-- If anything can be due, it is what is owed. -/
theorem eq_owed_of_due? {paid : List (Entry β)} (h : due? c next = some paid) :
    paid = owed c next := by
  cases next with
  | zero => exact (Option.some.inj h).symm
  | succ done =>
    obtain ⟨b, hb, rfl⟩ := Option.map_eq_some_iff.mp h
    rw [owed, hb]
    rfl

/-- **One turn of the walk**: as long as there are frames, it does not go wrong, there is one turn
less to come, and what is visited in all stays the same. -/
theorem turn?_spec (h : t.InRange) (hne : t.frames ≠ []) : ∃ t', t.turn? = some t' ∧ t'.InRange ∧
    stackWeight t'.frames + 1 = stackWeight t.frames ∧ t'.total = t.total := by
  obtain ⟨frames, visited⟩ := t
  cases frames with
  | nil => exact absurd rfl hne
  | cons frame frames =>
    obtain ⟨c, next⟩ := frame
    have hnext : next ≤ c.branches.length := h (c, next) List.mem_cons_self
    have hframes : ∀ f ∈ frames, f.2 ≤ f.1.branches.length :=
      fun f hf => h f (List.mem_cons_of_mem _ hf)
    cases hb : c.branches[next]? with
    -- down into the next child
    | some b =>
      obtain ⟨child, e⟩ := b
      obtain ⟨hlt, -⟩ := List.getElem?_eq_some_iff.mp hb
      refine ⟨⟨(child, 0) :: (c, next + 1) :: frames, visited ++ owed c next⟩, ?_, ?_, ?_, ?_⟩
      · rw [turn?, due?_of_le hnext, hb]
      · intro f hf
        rcases List.mem_cons.mp hf with rfl | hf
        · exact Nat.zero_le _
        · rcases List.mem_cons.mp hf with rfl | hf
          · exact hlt
          · exact hframes f hf
      · have hlinks := links_dropBranches hb
        show 2 * child.links + 1 + (2 * (c.dropBranches (next + 1)).links + 1 + stackWeight frames) +
          1 = 2 * (c.dropBranches next).links + 1 + stackWeight frames
        omega
      · rw [total, total, List.flatMap_cons, List.flatMap_cons, List.flatMap_cons,
          unvisited_eq_child hb]
        simp only [List.append_assoc]
    -- no child is left: the leaves, and back
    | none =>
      refine ⟨⟨frames, visited ++ owed c next ++ c.leaves⟩, ?_, hframes, ?_, ?_⟩
      · rw [turn?, due?_of_le hnext, hb]
      · rw [stackWeight, frameWeight, dropBranches_eq_tail hb]
        show stackWeight frames + 1 = 2 * 0 + 1 + stackWeight frames
        omega
      · rw [total, total, List.flatMap_cons, unvisited_eq_leaves hb]
        simp only [List.append_assoc]

/-- **A walk ends**, and no turn of it goes wrong. -/
theorem turns?_spec (h : t.InRange) : t.turns? (stackWeight t.frames) = some ⟨[], t.total⟩ := by
  -- on the number of turns to come, which each turn makes one less
  generalize hn : stackWeight t.frames = n
  induction n generalizing t with
  | zero =>
    obtain ⟨frames, visited⟩ := t
    cases frames with
    | nil =>
      show some _ = some _
      rw [total, List.flatMap_nil, List.append_nil]
    | cons frame frames =>
      have hn : 2 * (frame.1.dropBranches frame.2).links + 1 + stackWeight frames = 0 := hn
      omega
  | succ n ih =>
    have hne : t.frames ≠ [] := by
      intro hnil
      rw [hnil] at hn
      cases hn
    obtain ⟨t', hturn, hrange, hweight, htotal⟩ := turn?_spec h hne
    rw [turns?, hturn, ← htotal]
    exact ih hrange (by omega)

/-- A turn is a turn of the walk: to walk on from after it is to walk on from before it. -/
theorem walk_of_turn? (h : t.turn? = some t') :
    walk t'.frames t'.visited.toArray = walk t.frames t.visited.toArray := by
  obtain ⟨frames, visited⟩ := t
  cases frames with
  | nil => cases h
  | cons frame frames =>
    obtain ⟨c, next⟩ := frame
    -- A turn goes down into a child or is done with a chunk, after paying what is due.
    rw [turn?] at h
    split at h
    · cases h
    · rename_i paid hpaid
      obtain rfl := eq_owed_of_due? hpaid
      -- Both walks are the entries visited and those that are left, which the turn has only moved.
      rw [← Array.toList_inj, walk_toList, walk_toList]
      cases hb : c.branches[next]? with
      | some b =>
        rw [hb] at h
        obtain rfl := Option.some.inj h
        simp only [List.flatMap_cons, unvisited_eq_child hb, List.append_assoc]
      | none =>
        rw [hb] at h
        obtain rfl := Option.some.inj h
        simp only [List.flatMap_cons, unvisited_eq_leaves hb, List.append_assoc]

/-- Turns of the loop do not change what the walk will have visited in the end. -/
theorem walk_of_turns? {n : Nat} (h : t.turns? n = some t') :
    walk t'.frames t'.visited.toArray = walk t.frames t.visited.toArray := by
  induction n generalizing t with
  | zero => rw [Option.some.inj h]
  | succ n ih =>
    obtain ⟨middle, hturn, hrest⟩ := Option.bind_eq_some_iff.mp h
    rw [ih hrest, walk_of_turn? hturn]

end Tour

/-! ## The census

  Chunks are pending in any order, so the lemmas go up to permutation and a turn may take any of
  them. -/

/-- A census on its way: the chunks that are pending, each with its level, and the sizes so far. -/
structure Count (β : Type) where
  pending : List (Chunk β × Nat)
  stats : TreeStats

namespace Count

open Chunk

variable {β : Type} {s s' : Count β}

def start (c : Chunk β) (splits : Nat) : Count β :=
  { pending := [(c, 1)], stats := { splits } }

/-- One turn: a chunk that is pending is counted, and then its children are pending instead, in any
order with the others. -/
inductive Turn : Count β → Count β → Prop where
  | count {c : Chunk β} {level : Nat} {pending others pending' : List (Chunk β × Nat)}
      {stats : TreeStats} : pending.Perm ((c, level) :: others) →
      pending'.Perm ((c.branches.map fun b => (b.1, level + 1)) ++ others) →
      Turn ⟨pending, stats⟩ ⟨pending',
        { stats with
          chunks := stats.chunks + 1
          depth := max stats.depth level
          entries := stats.entries + (c.branches.length + c.leaves.length) }⟩

/-- So many turns. -/
inductive Turns : Nat → Count β → Count β → Prop where
  | none (s : Count β) : Turns 0 s s
  | more {n : Nat} {s middle s' : Count β} : Turn s middle → Turns n middle s' → Turns (n + 1) s s'

/-- A number that is worked out of a list, one element after the other, in any order. -/
theorem eq_of_perm {α : Type} {f : List α → Nat} (op : α → Nat → Nat)
    (hf : ∀ a l, f (a :: l) = op a (f l)) (hop : ∀ a b n, op a (op b n) = op b (op a n))
    {l l' : List α} (h : l.Perm l') : f l = f l' := by
  induction h with
  | nil => rfl
  | cons a _ ih => rw [hf, hf, ih]
  | swap a b l => rw [hf, hf, hf, hf, hop]
  | trans _ _ ih ih' => exact ih.trans ih'

/-- The order of the stack does not matter to what is left to count. -/
theorem pendingEntries_perm {l l' : List (Chunk β × Nat)} (h : l.Perm l') :
    pendingEntries l = pendingEntries l' :=
  eq_of_perm (fun p n => p.1.toList.length + n) (fun _ _ => rfl)
    (fun _ _ _ => Nat.add_left_comm _ _ _) h

theorem pendingChunks_perm {l l' : List (Chunk β × Nat)} (h : l.Perm l') :
    pendingChunks l = pendingChunks l' :=
  eq_of_perm (fun p n => p.1.links + 1 + n) (fun _ _ => rfl)
    (fun _ _ _ => Nat.add_left_comm _ _ _) h

theorem lowest_perm {l l' : List (Chunk β × Nat)} (h : l.Perm l') : lowest l = lowest l' :=
  eq_of_perm (fun p n => max (p.2 + p.1.height) n) (fun _ _ => rfl)
    (fun _ _ _ => Nat.max_left_comm _ _ _) h

/-- **One turn of the census** leaves one chunk less to come, and it does not matter for the end. -/
theorem Turn.kept (h : Turn s s') : pendingChunks s'.pending + 1 = pendingChunks s.pending ∧
    census s'.pending s'.stats = census s.pending s.stats := by
  obtain @⟨c, level, pending, others, pending', stats, hbefore, hafter⟩ := h
  have hchunks := pendingChunks_append_branches c (level + 1) others
  have hentries := pendingEntries_append_branches c (level + 1) others
  have hlowest := lowest_append_branches c level others
  rw [← pendingChunks_perm hafter] at hchunks
  -- What hangs below is the branches of the chunk and the others, in whatever order.
  rw [← pendingEntries_perm hafter] at hentries
  have hchunks' : pendingChunks pending = c.links + 1 + pendingChunks others :=
    pendingChunks_perm hbefore
  have hentries' : pendingEntries pending = c.toList.length + pendingEntries others :=
    pendingEntries_perm hbefore
  have hlowest' : lowest pending = max (level + c.height) (lowest others) := lowest_perm hbefore
  rw [← lowest_perm hafter] at hlowest
  -- One chunk fewer is pending, and what is counted and what is left come to the same.
  refine ⟨by dsimp only; omega, ?_⟩
  rw [census_eq, census_eq, TreeStats.mk.injEq]
  refine ⟨?_, ?_, ?_, rfl⟩
  · show stats.entries + (c.branches.length + c.leaves.length) + pendingEntries pending' =
      stats.entries + pendingEntries pending
    omega
  · show stats.chunks + 1 + pendingChunks pending' = stats.chunks + pendingChunks pending
    omega
  · show max (max stats.depth level) (lowest pending') = max stats.depth (lowest pending)
    omega

/-- A census goes on as long as a chunk is pending. -/
theorem exists_turn (h : s.pending ≠ []) : ∃ s', Turn s s' := by
  obtain ⟨pending, stats⟩ := s
  cases pending with
  | nil => exact absurd rfl h
  | cons p others => exact ⟨_, Turn.count (List.Perm.refl _) (List.Perm.refl _)⟩

/-- Every turn takes one chunk off, and to go on with the census gives the same at any time. -/
theorem Turns.kept {n : Nat} (h : Turns n s s') :
    n + pendingChunks s'.pending = pendingChunks s.pending ∧
      census s'.pending s'.stats = census s.pending s.stats := by
  induction h with
  | none s => exact ⟨Nat.zero_add _, rfl⟩
  | more hturn _ ih =>
    obtain ⟨hchunks, hcensus⟩ := hturn.kept
    obtain ⟨hchunks', hcensus'⟩ := ih
    exact ⟨by omega, hcensus'.trans hcensus⟩

/-- The stack is empty when no chunk is left. -/
theorem pending_eq_nil_iff {pending : List (Chunk β × Nat)} :
    pending = [] ↔ pendingChunks pending = 0 := by
  cases pending with
  | nil => exact iff_of_true rfl rfl
  | cons p pending =>
    refine iff_of_false nofun ?_
    show ¬ p.1.links + 1 + pendingChunks pending = 0
    omega

end Count

/-! ## The account

  Both loops against the recursion, for every chunk. -/

namespace Chunk

variable {β : Type}

/-- What the walk of a tree does. -/
structure Walked (c : Chunk β) : Prop where
  /-- What is to be visited, in order. -/
  inOrder : c.toList = (c.branches.flatMap fun b => b.1.toList ++ [b.2]) ++ c.leaves
  /-- After so many turns, in none of which it reads past the branches of a chunk, the walk has no
  frame left and has visited just that. -/
  ends : (Tour.start c).turns? (2 * c.links + 1) = some { frames := [], visited := c.toList }
  /-- The walk is these turns: from wherever they have led, it comes to the same result. -/
  resumes : ∀ n t, (Tour.start c).turns? n = some t →
    walk t.frames t.visited.toArray = c.entries
  entries_eq : c.entries.toList = c.toList
  /-- What it visits are the entries at all places of the tree, at each place once. -/
  once : ∃ places : List (List Nat × Nat), places.Nodup ∧
    (∀ p, p ∈ places ↔ ∃ e, c.entryAt? p = some e) ∧
      places.map c.entryAt? = c.entries.toList.map some

/-- What the census of a tree does. -/
structure Counted (c : Chunk β) (splits : Nat) : Prop where
  /-- What is to be found: entries, chunks and levels. -/
  entries_eq : c.toList.length = (c.branches.map fun b => b.1.toList.length).foldr (· + ·) 0 +
    (c.branches.length + c.leaves.length)
  chunks_eq : c.links + 1 = (c.branches.map fun b => b.1.links + 1).foldr (· + ·) 0 + 1
  levels_eq : c.height + 1 = (c.branches.map fun b => b.1.height + 1).foldr max 0 + 1
  /-- In whatever order it takes the chunks, the census goes on until none is pending. -/
  goes_on : ∀ n s, Count.Turns n (.start c splits) s → s.pending ≠ [] → ∃ s', Count.Turn s s'
  /-- It has no more turns than there are chunks, and none is pending after just so many. -/
  ends : ∀ n s, Count.Turns n (.start c splits) s →
    n ≤ c.links + 1 ∧ (s.pending = [] ↔ n = c.links + 1)
  /-- The census is such turns: from wherever they have led, it comes to the same result. -/
  resumes : ∀ n s, Count.Turns n (.start c splits) s →
    census s.pending s.stats = c.stats splits
  /-- With none pending it has found what there is. -/
  found : ∀ n s, Count.Turns n (.start c splits) s → s.pending = [] → s.stats =
    { entries := c.toList.length, chunks := c.links + 1, depth := c.height + 1, splits }
  stats_eq : c.stats splits =
    { entries := c.toList.length, chunks := c.links + 1, depth := c.height + 1, splits }

/-- **The loops over a tree end and give what recursion over it gives**, for every tree whatsoever.
The walk never reads past the branches of a chunk, and visits each entry once, in order; the census
counts each entry and each chunk once, and the levels. -/
theorem turns_account (c : Chunk β) : c.Walked ∧ ∀ splits, c.Counted splits := by
  -- The tour begins at the first place, with everything before it.
  have hrange : (Tour.start c).InRange := by
    intro frame hframe
    obtain rfl := List.mem_singleton.mp hframe
    exact Nat.zero_le _
  have htotal : (Tour.start c).total = c.toList := by
    show [] ++ ([] ++ c.toList ++ []) = c.toList
    rw [List.nil_append, List.nil_append, List.append_nil]
  have hstart : ∀ splits, Count.Turns 0 (Count.start c splits) (.start c splits) :=
    fun splits => .none _
  constructor
  · refine ⟨c.toList_eq_branches, ?_, ?_, c.toList_entries, c.places, c.nodup_places,
      c.mem_places_iff, ?_⟩
    · rw [← htotal]
      exact Tour.turns?_spec hrange
    · intro n t ht
      exact Tour.walk_of_turns? ht
    · rw [toList_entries]
      exact c.entries_at_places
  · -- What is kept along a run of the count, and what is left at its end.
    intro splits
    have hkept : ∀ n s, Count.Turns n (.start c splits) s →
        n + pendingChunks s.pending = c.links + 1 ∧
          census s.pending s.stats = c.stats splits := by
      intro n s hs
      exact hs.kept
    refine ⟨c.length_toList_eq_branches, c.links_eq_branches, c.height_eq_branches, ?_, ?_, ?_, ?_,
      c.stats_eq splits⟩
    · intro n s _ hpending
      exact Count.exists_turn hpending
    · intro n s hs
      obtain ⟨hchunks, -⟩ := hkept n s hs
      rw [Count.pending_eq_nil_iff]
      exact ⟨by omega, by omega⟩
    · intro n s hs
      exact (hkept n s hs).2
    · intro n s hs hpending
      obtain ⟨-, hcensus⟩ := hkept n s hs
      rw [hpending, census, c.stats_eq] at hcensus
      exact hcensus

end Chunk

end BoxRuntime
