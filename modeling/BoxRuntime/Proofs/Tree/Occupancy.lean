/-
  How full the chunks of a tree are.

  A chunk splits because the new entry does not fit any more, and the split leaves behind chunks
  that fit, as long as a leaf and a branch take no more than half a chunk each (`Shape.Halved`).
  For the leaves to go down, at most half of the chunk are branches, so one more branch fits; for
  the branches to go down, more than half of it are branches, so what is left of the leaves fits
  beside the one branch that is new.  In both cases what went down had fitted before, and is not
  nothing.

  So in every tree that insertions make, each chunk keeps to its slots and holds an entry, but for
  the root of an empty tree, and each split has made one chunk (`Occupied`).

  From this follow bounds on the number of splits (`SplitBounds`).  A chunk holds at most as many
  entries as leaves fit into it, so many entries need many chunks.  And the first split comes when
  that number is exceeded, for as long as there is one chunk it has leaves only; from then on an
  insertion makes at most one.  The main statement is `insertAll_occupied`.
-/
import BoxRuntime.Proofs.Tree.Levels

namespace BoxRuntime

/-- A leaf takes a slot, and neither a leaf nor a branch takes more than half a chunk. -/
structure Shape.Halved (shape : Shape) : Prop where
  leaf_pos : 1 ≤ shape.leaf
  leaf_le : shape.leaf ≤ shape.chunk - shape.chunk / 2
  branch_le : shape.branch ≤ shape.chunk - shape.chunk / 2

namespace Chunk

variable {β : Type} {shape : Shape}

/-! ## Slots

  Slots in use are a sum over the branches and leaves of a chunk, and `hasRoom` asks whether one
  more leaf can be added to that sum. -/

/-- The slots that the chunk uses. -/
def usedSlots (shape : Shape) (c : Chunk β) : Nat :=
  c.branches.length * shape.branch + c.leaves.length * shape.leaf

/-- The number of entries that the chunk holds itself. -/
def held (c : Chunk β) : Nat :=
  c.branches.length + c.leaves.length

/-- The chunk keeps to its slots, and holds an entry. -/
structure Filled (shape : Shape) (c : Chunk β) : Prop where
  usedSlots_le : c.usedSlots shape ≤ shape.chunk
  held_pos : 0 < c.held

/-- What a chunk uses depends on what it holds itself. -/
theorem usedSlots_of_own {c d : Chunk β} (h : c.own = d.own) :
    c.usedSlots shape = d.usedSlots shape := by
  have hb := congrArg (fun o => o.1.length) h
  have hl := congrArg (fun o => o.2.length) h
  simp only [own, List.length_map] at hb hl
  rw [usedSlots, usedSlots, hb, hl]

theorem held_of_own {c d : Chunk β} (h : c.own = d.own) : c.held = d.held := by
  have hb := congrArg (fun o => o.1.length) h
  have hl := congrArg (fun o => o.2.length) h
  simp only [own, List.length_map] at hb hl
  rw [held, held, hb, hl]

/-- There is room for one more leaf if its slots are free. -/
theorem hasRoom_eq_true {b l : Nat} :
    hasRoom shape b l = true ↔ b * shape.branch + l * shape.leaf + shape.leaf ≤ shape.chunk :=
  decide_eq_true_iff

/-- If not, one more leaf would be too much. -/
theorem hasRoom_eq_false {b l : Nat} :
    hasRoom shape b l = false ↔ shape.chunk < b * shape.branch + l * shape.leaf + shape.leaf := by
  rw [← Bool.not_eq_true, hasRoom_eq_true, Nat.not_le]

/-! ## One chunk

  From here on the arithmetic of slots is done: a chunk that takes an entry in stays within its
  slots and holds something, and so does the chunk that may be new below it. -/

/-- A chunk of leaves alone is well filled if there are some, and not too many. -/
theorem filled_of_leaves {c : Chunk β} (hb : c.branches = []) (hpos : 0 < c.leaves.length)
    (hle : c.leaves.length * shape.leaf ≤ shape.chunk) : c.Filled shape := by
  refine ⟨?_, ?_⟩
  · rw [usedSlots, hb]
    show 0 * shape.branch + c.leaves.length * shape.leaf ≤ shape.chunk
    omega
  · rw [held]
    omega

theorem filled_of_branches {c : Chunk β} (hl : c.leaves = []) (hpos : 0 < c.branches.length)
    (hle : c.branches.length * shape.branch ≤ shape.chunk) : c.Filled shape := by
  refine ⟨?_, ?_⟩
  · rw [usedSlots, hl]
    show c.branches.length * shape.branch + 0 * shape.leaf ≤ shape.chunk
    omega
  · rw [held]
    omega

/-- With the new entry among them, the leaves are one more. -/
theorem length_filled {old : Chunk β} {before after : List (Entry β)} (e : Entry β)
    (hleaves : old.leaves = before ++ after) :
    (before ++ e :: after).length = old.leaves.length + 1 := by
  rw [hleaves, List.length_append, List.length_append, List.length_cons]
  rfl

/-- The chunk that took an entry in keeps to its slots. -/
theorem TakesIn.filled {old new : Chunk β} {before after : List (Entry β)} {e : Entry β}
    {split : Option SplitKind} (hshape : shape.Halved)
    (h : TakesIn shape old (before ++ e :: after) split new)
    (hleaves : old.leaves = before ++ after) (hfits : old.usedSlots shape ≤ shape.chunk) :
    new.Filled shape := by
  obtain ⟨hpos, hleaf, hbranch⟩ := hshape
  have hmany := length_filled e hleaves
  unfold usedSlots at hfits
  -- The cases of taking in an entry; in each the slots are counted on both sides of the change.
  cases h with
  | fits hroom hb hl =>
    -- With room, or as the first entry of all.
    have hone : old.branches.length * shape.branch + old.leaves.length * shape.leaf + shape.leaf ≤
        shape.chunk := by
      rcases hroom with hroom | rfl
      · exact hasRoom_eq_true.mp hroom
      · show 0 * shape.branch + 0 * shape.leaf + shape.leaf ≤ shape.chunk
        omega
    refine ⟨?_, ?_⟩
    · rw [usedSlots, hb, hl, hmany, Nat.add_mul]
      omega
    · rw [held, hl, hmany]
      omega
  -- All leaves go down and one branch comes: it fits since the branches had at most half of the
  -- slots.
  | leavesDown _ hhalf _ _ hb hl =>
    have hnew : new.branches.length = old.branches.length + 1 := by
      rw [hb, List.length_append]
      rfl
    refine filled_of_branches hl (by omega) ?_
    rw [hnew, Nat.add_mul]
    omega
  -- All branches go down but one; the leaves stay as many as they were.
  | branchesDown _ hhalf _ _ hb hfilled =>
    have hnew : new.leaves.length = old.leaves.length := by
      have := congrArg List.length hfilled
      rw [List.length_cons, hmany] at this
      exact Nat.succ.inj this
    refine ⟨?_, ?_⟩
    · rw [usedSlots, hb, hnew, List.length_singleton]
      omega
    · rw [held, hb, List.length_singleton]
      omega

/-- A chunk below one whose last child is `lower` is in that child or below another branch. -/
theorem chunkAt?_of_concat {c lower d : Chunk β} {others : List (Chunk β × Entry β)}
    {entry : Entry β} (hb : c.branches = others ++ [(lower, entry)]) {i : Nat} {path : List Nat}
    (hd : c.chunkAt? (i :: path) = some d) :
    lower.chunkAt? path = some d ∨
      ∃ child entry', others[i]? = some (child, entry') ∧ child.chunkAt? path = some d := by
  obtain ⟨child, entry', hchild, hd⟩ := chunkAt?_cons_eq_some.mp hd
  rw [hb] at hchild
  -- The first step goes to the last branch or to one of the others.
  rcases Nat.lt_or_ge i others.length with hi | hi
  · rw [List.getElem?_append_left hi] at hchild
    exact Or.inr ⟨child, entry', hchild, hd⟩
  · rw [List.getElem?_append_right hi] at hchild
    have hlast := List.mem_singleton.mp (List.mem_of_getElem? hchild)
    obtain ⟨rfl, -⟩ := Prod.mk.inj hlast
    exact Or.inl hd

/-- A chunk below it was below the old one, or it is the child that a split made, which keeps to its
slots as well. -/
theorem TakesIn.filled_below {old new d : Chunk β} {before after : List (Entry β)} {e : Entry β}
    {split : Option SplitKind} (hshape : shape.Halved)
    (h : TakesIn shape old (before ++ e :: after) split new)
    (hleaves : old.leaves = before ++ after) (hfits : old.usedSlots shape ≤ shape.chunk)
    {i : Nat} {path : List Nat} (hd : new.chunkAt? (i :: path) = some d) :
    d.Filled shape ∨ ∃ path', path' ≠ [] ∧ old.chunkAt? path' = some d := by
  have hmany := length_filled e hleaves
  unfold usedSlots at hfits
  cases h with
  | fits _ hb _ =>
    have hsame := chunkAt?_congr hb (List.cons_ne_nil i path)
    exact Or.inr ⟨i :: path, List.cons_ne_nil i path, hsame.symm.trans hd⟩
  | @leavesDown _ lower largest hroom hhalf hlb hfilled hb _ =>
    have hlower : lower.leaves.length = old.leaves.length := by
      have := congrArg List.length hfilled
      rw [List.length_append, hmany] at this
      exact Nat.succ.inj this
    -- if no leaf had gone down, a leaf would still have fitted beside the branches
    have hnone : old.leaves.length ≠ 0 := by
      intro hzero
      have hover := hasRoom_eq_false.mp hroom
      have hleaf := hshape.leaf_le
      rw [hzero] at hover
      omega
    have hchild : lower.Filled shape := filled_of_leaves hlb (by omega) (by rw [hlower]; omega)
    rcases chunkAt?_of_concat hb hd with hd | ⟨child, entry, hkept, hd⟩
    · cases path with
      | nil =>
        obtain rfl : lower = d := Option.some.inj hd
        exact Or.inl hchild
      -- the new child has no children
      | cons j path =>
        rw [chunkAt?_cons, hlb] at hd
        cases hd
    · exact Or.inr ⟨i :: path, List.cons_ne_nil i path,
        chunkAt?_cons_eq_some.mpr ⟨child, entry, hkept, hd⟩⟩
  | @branchesDown _ lower smallest _ hhalf hlb hll hb _ =>
    have hsome : old.branches.length ≠ 0 := by
      intro hzero
      rw [hzero] at hhalf
      omega
    have hchild : lower.Filled shape :=
      filled_of_branches hll (by rw [hlb]; omega) (by rw [hlb]; omega)
    have halone : new.branches = [] ++ [(lower, smallest)] := hb
    rcases chunkAt?_of_concat halone hd with hd | ⟨child, entry, hkept, -⟩
    · cases path with
      | nil =>
        obtain rfl : lower = d := Option.some.inj hd
        exact Or.inl hchild
      -- below the new child are the children from before
      | cons j path =>
        have hsame := chunkAt?_congr hlb (List.cons_ne_nil j path)
        exact Or.inr ⟨j :: path, List.cons_ne_nil j path, hsame.symm.trans hd⟩
    · cases hkept

theorem links_withTail (c d : Chunk β) : (c.withTail fun _ => d).links = c.links + d.links := by
  induction c with
  | tail leaves => exact (Nat.zero_add _).symm
  | link child entry rest _ ih =>
    show child.links + (rest.withTail fun _ => d).links + 1 = child.links + rest.links + 1 + d.links
    omega

/-- A split makes one chunk. -/
theorem TakesIn.links {old new : Chunk β} {filled : List (Entry β)} {split : Option SplitKind}
    (h : TakesIn shape old filled split new) :
    new.links = old.links + (if split.isSome then 1 else 0) := by
  obtain ⟨rfl, rfl⟩ | ⟨smaller, largest, rfl, -, rfl⟩ | ⟨smallest, larger, rfl, -, rfl⟩ := h.cases_eq
  · rw [links_withTail]
    rfl
  · rw [links_withTail]
    rfl
  · show (old.withTail fun _ => tail []).links + 0 + 1 = old.links + 1
    rw [links_withTail]
    rfl

/-! ## Trees with other items

  Slots, addresses and the number of chunks do not depend on items, so a merge changes none of
  them. -/

/-- A change of entries keeps the branches and the leaves where they are. -/
theorem branches_mapEntries (f : Entry β → Entry β) (c : Chunk β) :
    (c.mapEntries f).branches = c.branches.map fun b => (b.1.mapEntries f, f b.2) := by
  induction c with
  | tail leaves => rfl
  | link child entry rest _ ih => exact congrArg ((child.mapEntries f, f entry) :: ·) ih

theorem leaves_mapEntries (f : Entry β → Entry β) (c : Chunk β) :
    (c.mapEntries f).leaves = c.leaves.map f := by
  induction c with
  | tail leaves => rfl
  | link child entry rest _ ih => exact ih

theorem chunkAt?_mapEntries (f : Entry β → Entry β) (c : Chunk β) (path : List Nat) :
    (c.mapEntries f).chunkAt? path = (c.chunkAt? path).map (mapEntries f) := by
  induction path generalizing c with
  | nil => rfl
  | cons i path ih =>
    rw [chunkAt?_cons, chunkAt?_cons, branches_mapEntries, List.getElem?_map]
    cases c.branches[i]? with
    | none => rfl
    | some b => exact ih b.1

theorem usedSlots_mapEntries (f : Entry β → Entry β) (c : Chunk β) :
    (c.mapEntries f).usedSlots shape = c.usedSlots shape := by
  rw [usedSlots, branches_mapEntries, leaves_mapEntries, List.length_map, List.length_map, usedSlots]

theorem held_mapEntries (f : Entry β → Entry β) (c : Chunk β) : (c.mapEntries f).held = c.held := by
  rw [held, branches_mapEntries, leaves_mapEntries, List.length_map, List.length_map, held]

theorem links_mapEntries (f : Entry β → Entry β) (c : Chunk β) :
    (c.mapEntries f).links = c.links := by
  induction c with
  | tail leaves => rfl
  | link child entry rest ihc ihr => rw [mapEntries, links, links, ihc, ihr]

/-! ## How many entries chunks can hold

  A branch takes no fewer slots than a leaf, so a chunk holds no more entries than leaves would fit
  into it, and a tree no more than that for each of its chunks. -/

/-- If no chunk below holds more than `n` entries, the tree has at most that many for each. -/
theorem length_toList_le {n : Nat} {c : Chunk β}
    (h : ∀ path d, path ≠ [] → c.chunkAt? path = some d → d.held ≤ n) :
    c.toList.length ≤ c.held + n * c.links := by
  -- along the branches: without its first branch a chunk has the same chunks below the others
  induction c with
  | tail leaves =>
    show leaves.length ≤ 0 + leaves.length + n * 0
    omega
  | link child entry rest ihc ihr =>
    have hchild : child.held ≤ n := h [0] child nofun rfl
    have hc := ihc fun path d _ hd => h (0 :: path) d nofun hd
    have hr := ihr fun path d hp hd => by
      cases path with
      | nil => exact absurd rfl hp
      | cons i path => exact h ((i + 1) :: path) d nofun hd
    have hlinks : n * (child.links + rest.links + 1) = n * child.links + n * rest.links + n := by
      rw [Nat.mul_add, Nat.mul_add, Nat.mul_one]
    have hheld : (link child entry rest).held = rest.held + 1 := by
      show rest.branches.length + 1 + rest.leaves.length = rest.branches.length + _ + 1
      omega
    rw [hheld, toList, List.length_append, List.length_cons]
    show _ ≤ rest.held + 1 + n * (child.links + rest.links + 1)
    omega

/-- A chunk does not hold more entries than it would if all of them were leaves. -/
theorem held_le {c : Chunk β} (hpos : 1 ≤ shape.leaf) (hle : shape.leaf ≤ shape.branch)
    (h : c.usedSlots shape ≤ shape.chunk) : c.held ≤ shape.chunk / shape.leaf := by
  rw [Nat.le_div_iff_mul_le hpos, held, Nat.add_mul]
  have hbranches := Nat.mul_le_mul_left c.branches.length hle
  unfold usedSlots at h
  omega

end Chunk

namespace SearchTree

variable {shape : Shape} {β : Type}

open Assoc Chunk

/-! ## What insertions keep

  The invariant speaks of every address, so that it can be taken apart into the chunk that was
  rewritten and all others. -/

/-- The chunks of the tree keep to their slots, each below the root holds an entry, and each split
has made one. -/
structure Chunked (t : SearchTree shape β) : Prop where
  usedSlots_le : ∀ path c, t.root.chunkAt? path = some c → c.usedSlots shape ≤ shape.chunk
  held_pos : ∀ path c, path ≠ [] → t.root.chunkAt? path = some c → 0 < c.held
  links_eq : t.root.links = t.splits

/-- A new tree is one chunk without entries. -/
theorem chunked_new (tag : Tag) : (new tag : SearchTree shape β).Chunked := by
  refine ⟨?_, ?_, rfl⟩
  · intro path c hc
    cases path with
    | nil =>
      obtain rfl : tail [] = c := Option.some.inj hc
      show 0 * shape.branch + 0 * shape.leaf ≤ shape.chunk
      omega
    | cons i path => cases hc
  · intro path c hp hc
    cases path with
    | nil => exact absurd rfl hp
    | cons i path => cases hc

/-- The chunks of a tree in which another one was put at an address are chunks of the one or of the
other, or they hold themselves what a chunk there held. -/
theorem chunk_cases {c old new d : Chunk β} {path other : List Nat}
    (hold : c.chunkAt? path = some old) (hd : (c.replaceAt path new).chunkAt? other = some d) :
    (∃ rest, other = path ++ rest ∧ new.chunkAt? rest = some d) ∨
      ∃ d', c.chunkAt? other = some d' ∧ d.own = d'.own := by
  by_cases hprefix : path <+: other
  · obtain ⟨rest, rfl⟩ := hprefix
    rw [chunkAt?_replaceAt_append hold] at hd
    exact Or.inl ⟨rest, rfl, hd⟩
  · have hown := own_replaceAt_of_not_prefix (c := c) new hprefix
    rw [hd, Option.map_some] at hown
    obtain ⟨d', hd', hsame⟩ := Option.map_eq_some_iff.mp hown.symm
    exact Or.inr ⟨d', hd', hsame.symm⟩

/-- An insertion keeps the chunks to their slots. -/
theorem Chunked.effect {t t' : SearchTree shape β} {e : Entry β} {outcome : InsertOutcome β}
    (hshape : shape.Halved) (ht : t.Chunked) (h : t.Effect e outcome t') : t'.Chunked := by
  cases h with
  | @merged old hmem hkey =>
    refine ⟨?_, ?_, (links_mapEntries _ _).trans ht.links_eq⟩
    · intro path c hc
      obtain ⟨d, hd, rfl⟩ := Option.map_eq_some_iff.mp ((chunkAt?_mapEntries _ _ path) ▸ hc)
      rw [usedSlots_mapEntries]
      exact ht.usedSlots_le path d hd
    · intro path c hp hc
      obtain ⟨d, hd, rfl⟩ := Option.map_eq_some_iff.mp ((chunkAt?_mapEntries _ _ path) ▸ hc)
      rw [held_mapEntries]
      exact ht.held_pos path d hp hd
  | @added path old new before after split hleads hleaves hfilled htakes =>
    have hold := hleads.chunkAt?
    have hfits := ht.usedSlots_le path old hold
    -- a chunk at or below the address is filled, or it was below that address before
    have hbelow : ∀ rest d, new.chunkAt? rest = some d →
        d.Filled shape ∨ ∃ rest', rest' ≠ [] ∧ t.root.chunkAt? (path ++ rest') = some d := by
      intro rest d hd
      cases rest with
      | nil =>
        obtain rfl : new = d := Option.some.inj hd
        exact Or.inl (htakes.filled hshape hleaves hfits)
      | cons i rest =>
        rcases htakes.filled_below hshape hleaves hfits hd with hfilled | ⟨rest', hne, hd'⟩
        · exact Or.inl hfilled
        · refine Or.inr ⟨rest', hne, ?_⟩
          rw [chunkAt?_append, hold]
          exact hd'
    refine ⟨?_, ?_, ?_⟩
    · intro other d hd
      rcases chunk_cases hold hd with ⟨rest, -, hd'⟩ | ⟨d', hd', hown⟩
      · rcases hbelow rest d hd' with hfilled | ⟨rest', -, hd''⟩
        · exact hfilled.usedSlots_le
        · exact ht.usedSlots_le _ d hd''
      · rw [usedSlots_of_own hown]
        exact ht.usedSlots_le other d' hd'
    · intro other d hp hd
      rcases chunk_cases hold hd with ⟨rest, -, hd'⟩ | ⟨d', hd', hown⟩
      · rcases hbelow rest d hd' with hfilled | ⟨rest', hne, hd''⟩
        · exact hfilled.held_pos
        · exact ht.held_pos _ d (by simp [hne]) hd''
      · rw [held_of_own hown]
        exact ht.held_pos other d' hp hd'
    · have hlinks := links_replaceAt hold new
      have hnew := htakes.links
      have hsplits := ht.links_eq
      show (t.root.replaceAt path new).links = t.splits + (if split.isSome then 1 else 0)
      omega

/-! ## When chunks split

  As long as there is one chunk it has only leaves, and it splits when the next does not fit. After
  that any insertion may split, but each splits once at most. -/

/-- Splits begin when there are more than `n` entries, and then each needs a new entry. -/
structure SplitsLate (t : SearchTree shape β) (n : Nat) : Prop where
  none_until : t.size ≤ n → t.splits = 0
  one_each : n < t.size → t.splits + n ≤ t.size

/-- As long as there is one chunk, it splits only if it has more leaves than fit. -/
theorem le_size_of_split {t : SearchTree shape β} (hs : t.Sound) (ht : t.Chunked)
    (hpos : 1 ≤ shape.leaf) (hsplits : t.splits = 0) {k : Key} {path : List Nat}
    {old new : Chunk β} {filled : List (Entry β)} {kind : SplitKind}
    (hleads : Leads k t.root path old)
    (htakes : TakesIn shape old filled (some kind) new) : shape.chunk / shape.leaf ≤ t.size := by
  have hlinks : t.root.links = 0 := ht.links_eq.trans hsplits
  have hsize : t.size = t.root.toList.length := hs.size_eq
  rw [hsize]
  -- Nothing has split yet, so the root is all there is, and it is this that has no room.
  cases hroot : t.root with
  | link child entry rest =>
    rw [hroot] at hlinks
    cases hlinks
  | tail leaves =>
    rw [hroot] at hleads
    cases hleads with
    | down hb _ _ _ => cases hb
    | stop _ =>
      have hroom : hasRoom shape 0 leaves.length = false := by
        cases htakes with
        | leavesDown hroom => exact hroom
        | branchesDown hroom => exact hroom
      have hroom := hasRoom_eq_false.mp hroom
      rw [← Nat.lt_succ_iff, Nat.div_lt_iff_lt_mul hpos]
      show shape.chunk < (leaves.length + 1) * shape.leaf
      rw [Nat.add_mul]
      omega

/-- **One insertion** splits only a chunk that is full, so a tree with few entries has not split. -/
theorem SplitsLate.effect {t t' : SearchTree shape β} {e : Entry β} {outcome : InsertOutcome β}
    (hs : t.Sound) (hpos : 1 ≤ shape.leaf) (hc : t.Chunked)
    (ht : t.SplitsLate (shape.chunk / shape.leaf)) (h : t.Effect e outcome t') :
    t'.SplitsLate (shape.chunk / shape.leaf) := by
  obtain ⟨hnone, hone⟩ := ht
  cases h with
  | merged _ _ => exact ⟨hnone, hone⟩
  | @added path old new before after split hleads hleaves hfilled htakes =>
    -- no split comes before there are that many entries
    have hmany : split.isSome → shape.chunk / shape.leaf ≤ t.size := by
      intro hsplit
      obtain ⟨kind, rfl⟩ := Option.isSome_iff_exists.mp hsplit
      rcases Nat.eq_zero_or_pos t.splits with hzero | hsome
      · exact le_size_of_split hs hc hpos hzero hleads htakes
      · rcases Nat.lt_or_ge (shape.chunk / shape.leaf) t.size with hlt | hge
        · exact Nat.le_of_lt hlt
        · have := hnone hge
          omega
    refine ⟨?_, ?_⟩
    · show t.size + 1 ≤ _ → t.splits + (if split.isSome then 1 else 0) = 0
      intro hle
      have hzero := hnone (by omega)
      split
      · rename_i hsplit
        have := hmany hsplit
        omega
      · omega
    · show _ < t.size + 1 → t.splits + (if split.isSome then 1 else 0) + _ ≤ t.size + 1
      intro hlt
      rcases Nat.lt_or_ge (shape.chunk / shape.leaf) t.size with hmore | hfirst
      · have := hone hmore
        split <;> omega
      · have := hnone hfirst
        split <;> omega

/-! ## The account of a tree

  The invariants put together, for trees of any shape, and the numbers for the shapes of sets and
  maps. -/

/-- The chunks of the tree are as full as they may be, and are all counted. -/
structure Occupied (t : SearchTree shape β) : Prop where
  /-- No chunk uses more slots than it has. -/
  usedSlots_le : ∀ path c, t.root.chunkAt? path = some c → c.usedSlots shape ≤ shape.chunk
  /-- Every chunk holds an entry, but for the root of an empty tree. -/
  held_pos : ∀ path c, t.root.chunkAt? path = some c → path ≠ [] ∨ t.size ≠ 0 → 0 < c.held
  chunks_eq : t.stats.chunks = t.stats.splits + 1
  splits_eq : t.stats.splits = t.splits
  entries_eq : t.stats.entries = t.size
  depth_le : t.stats.depth ≤ t.stats.chunks

/-- The number of splits, in a tree whose chunks have slots for `n` leaves. -/
structure SplitBounds (t : SearchTree shape β) (n : Nat) : Prop where
  zero_iff : t.splits = 0 ↔ t.size ≤ n
  one_of_first : t.size = n + 1 → t.splits = 1
  /-- There are at least as many chunks as the entries fill, the quotient rounded up. -/
  le_splits : n < t.size → (t.size + (n - 1)) / n - 1 ≤ t.splits
  splits_le : n < t.size → t.splits ≤ t.size - n

/-- What an occupied tree is, put together. -/
theorem Chunked.occupied {t : SearchTree shape β} (hs : t.Sound) (ht : t.Chunked) : t.Occupied := by
  have hstats : t.stats = ⟨t.toList.length, t.root.links + 1, t.root.height + 1, t.splits⟩ :=
    stats_eq t.root t.splits
  refine ⟨ht.usedSlots_le, ?_, ?_, ?_, ?_, ?_⟩
  · intro path c hc hne
    cases path with
    | cons i path => exact ht.held_pos (i :: path) c nofun hc
    | nil =>
      obtain rfl : t.root = c := Option.some.inj hc
      have hsize : t.root.toList.length ≠ 0 := by
        have := hne.resolve_left fun h => h rfl
        rwa [hs.size_eq] at this
      -- a root that holds nothing is the root of an empty tree
      cases hroot : t.root with
      | link child entry rest =>
        show 0 < rest.branches.length + 1 + rest.leaves.length
        omega
      | tail leaves =>
        rw [hroot] at hsize
        show 0 < 0 + leaves.length
        have : leaves.length ≠ 0 := hsize
        omega
  · rw [hstats, ht.links_eq]
  · rw [hstats]
  · rw [hstats, hs.size_eq]
  · rw [hstats]
    exact Nat.succ_le_succ (height_le_links t.root)

/-- **The number of splits from both sides**: chunks are one more than splits, each holds an entry
at least and no more than fit. -/
theorem Chunked.splitBounds {t : SearchTree shape β} {n : Nat} (hs : t.Sound) (ht : t.Chunked)
    (hlate : t.SplitsLate n) (hn : 0 < n)
    (hheld : ∀ path c, t.root.chunkAt? path = some c → c.held ≤ n) : t.SplitBounds n := by
  obtain ⟨hnone, hone⟩ := hlate
  have hsize : t.size ≤ n * (t.splits + 1) := by
    have hroot := hheld [] t.root rfl
    have htotal := length_toList_le fun path d _ hd => hheld path d hd
    rw [ht.links_eq] at htotal
    rw [hs.size_eq, Nat.mul_add, Nat.mul_one]
    show t.root.toList.length ≤ _
    omega
  have hfew : t.splits = 0 → t.size ≤ n := by
    intro hzero
    rw [hzero] at hsize
    omega
  refine ⟨⟨hfew, hnone⟩, ?_, ?_, ?_⟩
  · intro hfirst
    have hle := hone (by omega)
    have hne : t.splits ≠ 0 := fun hzero => by
      have := hfew hzero
      omega
    omega
  · intro _
    -- rounding up: the entries and `n - 1` more do not fill another chunk
    have hlt : t.size + (n - 1) < (t.splits + 2) * n := by
      have hcomm : n * (t.splits + 1) = (t.splits + 1) * n := Nat.mul_comm _ _
      have hnext : (t.splits + 2) * n = (t.splits + 1) * n + n := by
        rw [Nat.add_mul, Nat.add_mul]
        omega
      omega
    have := (Nat.div_lt_iff_lt_mul hn).mpr hlt
    omega
  · intro hlt
    have := hone hlt
    omega

/-- **Chunks keep to their slots.**  In every tree that insertions make, no chunk uses more slots
than it has and none is empty, every split has made one chunk, and the counts of the tree are right.
A set splits first at its ninth value and a map at its thirteenth key, and the number of entries
bounds the number of splits from both sides. -/
theorem insertAll_occupied (hshape : shape.Halved) (tag : Tag) (es : List (Entry β)) :
    ((new tag : SearchTree shape β).insertAll es).Occupied ∧
      (shape = Shape.set → ((new tag : SearchTree shape β).insertAll es).SplitBounds 8) ∧
      (shape = Shape.map → ((new tag : SearchTree shape β).insertAll es).SplitBounds 12) := by
  have hnew : (new tag : SearchTree shape β).Sound := sound_new tag
  have hs := (insertAll_spec hnew es).1
  have hlate : (new tag : SearchTree shape β).SplitsLate (shape.chunk / shape.leaf) :=
    ⟨fun _ => rfl, fun h => absurd h (Nat.not_lt_zero _)⟩
  -- Both invariants go through one induction, since the second needs the first.
  obtain ⟨hchunked, hlate⟩ := insertAll_invariant
    (P := fun t => t.Chunked ∧ t.SplitsLate (shape.chunk / shape.leaf))
    (fun hs h ht => ⟨ht.1.effect hshape h, ht.2.effect hs hshape.leaf_pos ht.1 h⟩)
    hnew ⟨chunked_new tag, hlate⟩ es
  -- With leaves no longer than branches, a chunk holds at most as many entries as it has room for
  -- leaves.
  have hbounds : ∀ n, shape.leaf ≤ shape.branch → n = shape.chunk / shape.leaf → 0 < n →
      ((new tag : SearchTree shape β).insertAll es).SplitBounds n := by
    rintro n hle rfl hn
    refine hchunked.splitBounds hs hlate hn fun path c hc => ?_
    exact held_le hshape.leaf_pos hle (hchunked.usedSlots_le path c hc)
  refine ⟨hchunked.occupied hs, ?_, ?_⟩
  · rintro rfl
    exact hbounds 8 (by decide) rfl (by decide)
  · rintro rfl
    exact hbounds 12 (by decide) rfl (by decide)

/-- Nine increasing ints overflow one chunk of a set, and thirteen keys one chunk of a map. -/
theorem insertAll_occupied_first_split :
    (Shape.set.Halved ∧ Shape.map.Halved) ∧ ∃ (values : SearchTree Shape.set Unit)
      (keys : SearchTree Shape.map Handle), values.stats = ⟨9, 2, 2, 1⟩ ∧ values.Occupied ∧
        values.SplitBounds 8 ∧ keys.stats = ⟨13, 2, 2, 1⟩ ∧ keys.Occupied ∧ keys.SplitBounds 12 := by
  have hset : Shape.set.Halved := ⟨by decide, by decide, by decide⟩
  have hmap : Shape.map.Halved := ⟨by decide, by decide, by decide⟩
  obtain ⟨hvalues, hfew, -⟩ := insertAll_occupied hset .none
    ((List.range 9).map fun i => ⟨⟨i + 1, .int (Int64.ofNat i)⟩, ()⟩)
  obtain ⟨hkeys, -, hfewer⟩ := insertAll_occupied hmap .int
    ((List.range 13).map fun i => ⟨⟨i + 2, .int (Int64.ofNat i)⟩, (⟨1, .any⟩ : Handle)⟩)
  exact ⟨⟨hset, hmap⟩, _, _, by decide +kernel, hvalues, hfew rfl, by decide +kernel, hkeys,
    hfewer rfl⟩

end SearchTree

end BoxRuntime
