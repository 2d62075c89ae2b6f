/-
  Counting a chunk tree without recursion.

  `Chunk.census` works off a list of chunks that are pending, each with its level, and puts the
  children of a chunk in front of the others.  What a pending chunk still adds are all entries and
  chunks at and below it, and its lowest level is its own and its height (`lowest`).  So the census
  ends with what it had and what its list still adds (`census_eq`), and started on a root it gives
  the sizes that recursion over the tree gives (`stats_eq`).
-/
import BoxRuntime.Proofs.Tree.Address

namespace BoxRuntime

namespace Chunk

variable {β : Type}

/-- The number of entries at and below chunks that are pending. -/
def pendingEntries : List (Chunk β × Nat) → Nat
  | [] => 0
  | p :: pending => p.1.toList.length + pendingEntries pending

/-- The lowest level that chunks at and below those that are pending are on. -/
def lowest : List (Chunk β × Nat) → Nat
  | [] => 0
  | p :: pending => max (p.2 + p.1.height) (lowest pending)

/-- A chunk's entries are its own and those of its children. -/
theorem pendingEntries_append_branches (c : Chunk β) (level : Nat)
    (pending : List (Chunk β × Nat)) :
    pendingEntries ((c.branches.map fun b => (b.1, level)) ++ pending) +
      (c.branches.length + c.leaves.length) = c.toList.length + pendingEntries pending := by
  induction c with
  | tail leaves =>
    show pendingEntries pending + (0 + leaves.length) = leaves.length + _
    omega
  | link child entry rest _ ih =>
    simp only [branches, leaves, toList, List.map_cons, List.cons_append, pendingEntries,
      List.length_cons, List.length_append]
    omega

/-- A chunk reaches as far down as its children do, one level further down, or is the lowest
itself. -/
theorem lowest_append_branches (c : Chunk β) (level : Nat) (pending : List (Chunk β × Nat)) :
    max level (lowest ((c.branches.map fun b => (b.1, level + 1)) ++ pending)) =
      max (level + c.height) (lowest pending) := by
  induction c with
  | tail leaves => rfl
  | link child entry rest _ ih =>
    simp only [branches, List.map_cons, List.cons_append, lowest, height]
    omega

/-- The census adds to what it has what its list still adds. -/
theorem census_eq (pending : List (Chunk β × Nat)) (stats : TreeStats) :
    census pending stats =
      { entries := stats.entries + pendingEntries pending
        chunks := stats.chunks + pendingChunks pending
        depth := max stats.depth (lowest pending)
        splits := stats.splits } := by
  -- along the census: a turn counts one chunk and puts its children in front
  induction pending, stats using census.induct with
  | case1 stats =>
    have hdepth : max stats.depth (lowest ([] : List (Chunk β × Nat))) = stats.depth :=
      Nat.max_zero _
    rw [census, hdepth]
    rfl
  | case2 stats c level pending ih =>
    have hentries := pendingEntries_append_branches c (level + 1) pending
    have hchunks := pendingChunks_append_branches c (level + 1) pending
    have hlowest := lowest_append_branches c level pending
    rw [census, ih, TreeStats.mk.injEq]
    refine ⟨?_, ?_, ?_, rfl⟩
    · show stats.entries + (c.branches.length + c.leaves.length) + _ =
        stats.entries + (c.toList.length + pendingEntries pending)
      omega
    · show stats.chunks + 1 + _ = stats.chunks + (c.links + 1 + pendingChunks pending)
      omega
    · show max (max stats.depth level) _ = max stats.depth (max (level + c.height) (lowest pending))
      omega

/-- **The census counts the tree.**  It finds each entry and each chunk once, and as many levels as
there are. -/
theorem stats_eq (c : Chunk β) (splits : Nat) :
    c.stats splits =
      { entries := c.toList.length, chunks := c.links + 1, depth := c.height + 1, splits } := by
  rw [stats, census_eq, TreeStats.mk.injEq]
  refine ⟨?_, ?_, ?_, rfl⟩
  · show 0 + (c.toList.length + 0) = _
    omega
  · show 0 + (c.links + 1 + 0) = _
    omega
  · show max 0 (max (1 + c.height) 0) = _
    omega

end Chunk

end BoxRuntime
