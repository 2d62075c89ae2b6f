/-
  Chunks.

  A sorted collection is a tree of chunks.  A chunk has a fixed number of slots and holds, from
  left to right, *branches* (a child chunk and the entry that follows all of the child's) and then
  *leaves* (entries that follow all branches).  A branch and a leaf take different numbers of
  slots; the three numbers make up a `Shape`.

  Reading a chunk as "child, entry, child, entry, …, leaves" gives its entries in order
  (`Chunk.toList`), and that sequence is what the rest of the library knows about a chunk.

  Chunks only ever fill up and split; nothing is removed.  So a tree grows deeper, not wider, and
  its depth can be as large as its number of chunks.  The walk, the census and the taking apart of
  a tree that is freed therefore keep their own stack (`Chunk.walk`, `Chunk.census`,
  `Chunk.drain`).
-/
import BoxRuntime.Order

namespace BoxRuntime

/-- The slots of a chunk, and those taken by one branch and by one leaf. -/
structure Shape where
  chunk : Nat
  branch : Nat
  leaf : Nat
deriving DecidableEq

namespace Shape

/-- Sets: an entry is one slot, a branch has a child besides. -/
def set : Shape := { chunk := 8, branch := 2, leaf := 1 }

/-- Maps: an entry is a key and a value, a branch has a child besides. -/
def map : Shape := { chunk := 24, branch := 3, leaf := 2 }

end Shape

/-- A key and what is stored with it. -/
structure Entry (β : Type) where
  key : Handle
  item : β

/-- A chunk, written as its branches from left to right and, at the end, its leaves. -/
inductive Chunk (β : Type) where
  | tail (leaves : List (Entry β))
  | link (child : Chunk β) (entry : Entry β) (rest : Chunk β)

/-- The ways a chunk makes room. -/
inductive SplitKind where
  /-- All branches move down, under the smallest of the leaves. -/
  | branches
  /-- All leaves move down, under the largest of them. -/
  | leaves
deriving DecidableEq

/-- Sizes of a tree.  A lone root has depth 1. -/
structure TreeStats where
  entries : Nat := 0
  chunks : Nat := 0
  depth : Nat := 0
  splits : Nat := 0
deriving DecidableEq

namespace Chunk

variable {β : Type}

/-! ## Views -/

/-- The entries in order. -/
def toList : Chunk β → List (Entry β)
  | tail leaves => leaves
  | link child entry rest => child.toList ++ entry :: rest.toList

/-- The children with the entries that follow them. -/
def branches : Chunk β → List (Chunk β × Entry β)
  | tail _ => []
  | link child entry rest => (child, entry) :: rest.branches

/-- The entries after the last branch. -/
def leaves : Chunk β → List (Entry β)
  | tail leaves => leaves
  | link _ _ rest => rest.leaves

/-- The number of branches in the chunk and all chunks below it. -/
def links : Chunk β → Nat
  | tail _ => 0
  | link child _ rest => child.links + rest.links + 1

/-- Puts something else in place of the leaves. -/
def withTail (f : List (Entry β) → Chunk β) : Chunk β → Chunk β
  | tail leaves => f leaves
  | link child entry rest => link child entry (rest.withTail f)

/-- The chunk without its first `n` branches. -/
def dropBranches : Nat → Chunk β → Chunk β
  | 0, c => c
  | _ + 1, tail leaves => tail leaves
  | n + 1, link _ _ rest => rest.dropBranches n

/-- The links from a branch on are that of the branch, those below it and those of the branches
behind. -/
theorem links_dropBranches {c child : Chunk β} {e : Entry β} {next : Nat}
    (h : c.branches[next]? = some (child, e)) :
    (c.dropBranches next).links = child.links + (c.dropBranches (next + 1)).links + 1 := by
  -- On the position, which goes down the links of the chunk.
  induction next generalizing c with
  | zero =>
    cases c with
    | tail => simp [branches] at h
    | link first entry rest =>
      obtain ⟨rfl, rfl⟩ : first = child ∧ entry = e := by simpa [branches] using h
      rfl
  | succ next ih =>
    cases c with
    | tail => simp [branches] at h
    | link first entry rest => exact ih (by simpa [branches] using h)

/-! ## Searching -/

/-- Where a key belongs among sorted entries: at an entry with an equal key, or in a gap. -/
inductive Place (β : Type) where
  | found (before : List (Entry β)) (entry : Entry β) (after : List (Entry β))
  | gap (before after : List (Entry β))

/-- The same place, one entry further to the right. -/
def Place.shift (e : Entry β) : Place β → Place β
  | found before entry after => found (e :: before) entry after
  | gap before after => gap (e :: before) after

/-- Looks from the left for the first entry whose key is not below the wanted one; `cmp` compares
the wanted key with a given one. -/
def place (cmp : Handle → Except Fault Ordering) : List (Entry β) → Except Fault (Place β)
  | [] => .ok (.gap [] [])
  | e :: es =>
    match cmp e.key with
    | .error f => .error f
    | .ok .eq => .ok (.found [] e es)
    | .ok .lt => .ok (.gap [] (e :: es))
    | .ok .gt => (place cmp es).map (.shift e)

/-- The entry with the wanted key. -/
def find (cmp : Handle → Except Fault Ordering) : Chunk β → Except Fault (Option (Entry β))
  | tail leaves =>
    (place cmp leaves).map fun
      | .found _ entry _ => some entry
      | .gap .. => none
  | link child entry rest =>
    match cmp entry.key with
    | .error f => .error f
    | .ok .eq => .ok (some entry)
    | .ok .lt => child.find cmp
    | .ok .gt => rest.find cmp

/-! ## Inserting -/

/-- What inserting into a chunk comes to, beside the chunk that it leaves.  Depths count from that
chunk. -/
inductive Insertion (β : Type) where
  /-- The key was there; its item is replaced, and `displaced` is the item it had. -/
  | merged (displaced : β)
  /-- The entry is new, with its position among the leaves of the chunk it came to. -/
  | added (depth index : Nat) (split : Option SplitKind)
  /-- The entry belongs between these leaves of the chunk itself, which has no slot left. -/
  | full (before after : List (Entry β))

/-- Whether a chunk with so many branches and leaves has the slots for another leaf. -/
def hasRoom (shape : Shape) (branches leaves : Nat) : Bool :=
  branches * shape.branch + leaves * shape.leaf + shape.leaf ≤ shape.chunk

/-- Makes room for an entry between two runs of leaves.  A chunk whose branches take more than
half of its slots sends the branches down, keeping a single branch at the smallest leaf; any other
sends all leaves down, and the largest becomes its last branch. -/
def split (shape : Shape) (c : Chunk β) (before : List (Entry β)) (e : Entry β)
    (after : List (Entry β)) : Chunk β × SplitKind :=
  let sorted := before ++ e :: after
  have ne : sorted ≠ [] := by simp [sorted]
  if c.branches.length * shape.branch > shape.chunk / 2 then
    (link (c.withTail fun _ => tail []) (sorted.head ne) (tail sorted.tail), .branches)
  else
    (c.withTail fun _ => link (tail sorted.dropLast) (sorted.getLast ne) (tail []), .leaves)

/-- Inserts an entry, without splitting the chunk itself; `seen` counts the branches already
passed on the way to the right.  A comparison that fails ends the search, and the chunk is left as
the search has left it. -/
def attempt (shape : Shape) (cmp : Handle → Except Fault Ordering) (e : Entry β) (seen : Nat) :
    Chunk β → EStateM.Result Fault (Chunk β) (Insertion β)
  | tail leaves =>
    match place cmp leaves with
    | .error f => .error f (tail leaves)
    | .ok (.found before old after) =>
      .ok (.merged old.item) (tail (before ++ { old with item := e.item } :: after))
    | .ok (.gap before after) =>
      -- Only the last leaf of the chunk knows how many slots are taken: `seen` branches came
      -- before.
      if hasRoom shape seen leaves.length then
        .ok (.added 0 before.length none) (tail (before ++ e :: after))
      else .ok (.full before after) (tail leaves)
  | link child entry rest =>
    match cmp entry.key with
    | .error f => .error f (link child entry rest)
    | .ok .eq => .ok (.merged entry.item) (link child { entry with item := e.item } rest)
    | .ok .lt =>
      match attempt shape cmp e 0 child with
      | .error f child => .error f (link child entry rest)
      | .ok (.merged displaced) child => .ok (.merged displaced) (link child entry rest)
      | .ok (.added depth index kind) child =>
        .ok (.added (depth + 1) index kind) (link child entry rest)
      -- A child without room makes some by sending a part of itself down.
      | .ok (.full before after) child =>
        let (child, kind) := child.split shape before e after
        .ok (.added 1 before.length (some kind)) (link child entry rest)
    | .ok .gt =>
      match attempt shape cmp e (seen + 1) rest with
      | .error f rest => .error f (link child entry rest)
      | .ok r rest => .ok r (link child entry rest)

/-! ## Walking with a stack of one's own -/

/-- How much of the tree a frame still has to visit. -/
def frameWeight (frame : Chunk β × Nat) : Nat :=
  2 * (frame.1.dropBranches frame.2).links + 1

/-- How much of the tree a stack of frames still has to visit. -/
def stackWeight : List (Chunk β × Nat) → Nat
  | [] => 0
  | frame :: frames => frameWeight frame + stackWeight frames

/-- Collects entries in order.  The frame `(c, next)` stands for a chunk whose first `next`
children are done: what follows is the entry after the last of them, then the next child or, when
there is none, the leaves. -/
def walk (frames : List (Chunk β × Nat)) (out : Array (Entry β)) : Array (Entry β) :=
  match frames with
  | [] => out
  | (c, next) :: frames =>
    -- On the way back from the child before, its entry comes next.
    let out :=
      match next with
      | 0 => out
      | done + 1 =>
        match c.branches[done]? with
        | some (_, e) => out.push e
        | none => out
    match h : c.branches[next]? with
    | some (child, _) => walk ((child, 0) :: (c, next + 1) :: frames) out
    | none => walk frames (out ++ c.leaves)
termination_by stackWeight frames
decreasing_by
  · have := links_dropBranches h
    simp only [stackWeight, frameWeight, dropBranches]
    omega
  · simp only [stackWeight, frameWeight]
    omega

/-- The entries in order, collected without recursion. -/
def entries (c : Chunk β) : Array (Entry β) :=
  walk [(c, 0)] #[]

/-- The number of chunks that are pending or below one that is. -/
def pendingChunks : List (Chunk β × Nat) → Nat
  | [] => 0
  | p :: pending => p.1.links + 1 + pendingChunks pending

/-- Putting the children of a chunk on the stack of the census adds the chunks below it. -/
theorem pendingChunks_append_branches (c : Chunk β) (level : Nat)
    (pending : List (Chunk β × Nat)) :
    pendingChunks ((c.branches.map fun b => (b.1, level)) ++ pending)
      = c.links + pendingChunks pending := by
  induction c with
  | tail => simp [branches, links]
  | link child entry rest _ ih =>
    simp only [branches, links, List.map_cons, List.cons_append, pendingChunks, ih]
    omega

/-- Adds up the chunks that are pending, each with its level, and all chunks below them. -/
def census (pending : List (Chunk β × Nat)) (stats : TreeStats) : TreeStats :=
  match pending with
  | [] => stats
  | (c, level) :: pending =>
    census ((c.branches.map fun b => (b.1, level + 1)) ++ pending)
      { stats with
        chunks := stats.chunks + 1
        depth := max stats.depth level
        entries := stats.entries + (c.branches.length + c.leaves.length) }
termination_by pendingChunks pending
decreasing_by
  simp only [pendingChunks_append_branches, pendingChunks]
  omega

/-- The sizes of the tree below a chunk. -/
def stats (c : Chunk β) (splits : Nat) : TreeStats :=
  census [(c, 1)] { splits }

/-! ## Taking a tree apart -/

/-- The chunks right below a chunk. -/
def children (c : Chunk β) : List (Chunk β) :=
  c.branches.map Prod.fst

/-- The number of chunks that were cut off or are below one that was. -/
def looseChunks : List (Chunk β) → Nat
  | [] => 0
  | c :: loose => c.links + 1 + looseChunks loose

/-- The measure of the taking apart adds up over the stack. -/
theorem looseChunks_append (cs ds : List (Chunk β)) :
    looseChunks (cs ++ ds) = looseChunks cs + looseChunks ds := by
  induction cs with
  | nil => simp [looseChunks]
  | cons c cs ih =>
    simp only [List.cons_append, looseChunks, ih]
    omega

/-- Cutting off the children of a chunk trades the chunk for those below it, one less than before.
-/
theorem looseChunks_children (c : Chunk β) : looseChunks c.children.reverse = c.links := by
  induction c with
  | tail => rfl
  | link child entry rest _ ih =>
    have hchildren : (link child entry rest).children.reverse =
        rest.children.reverse ++ [child] := by
      simp [children, branches]
    rw [hchildren, looseChunks_append, ih]
    simp only [looseChunks, links]
    omega

/-- Takes apart the chunks that were cut off, the last one first.  The entries between the children
of a chunk go while the children are cut off, and its leaves go with the chunk. -/
def drain (loose : List (Chunk β)) (gone : Array (Entry β)) : Array (Entry β) :=
  match loose with
  | [] => gone
  | c :: loose =>
    drain (c.children.reverse ++ loose) (gone ++ c.branches.map Prod.snd ++ c.leaves)
termination_by looseChunks loose
decreasing_by
  simp only [looseChunks_append, looseChunks_children, looseChunks]
  omega

/-- Takes a tree apart without recursion, and gives its entries in the order in which they go.  The
leaves of the root go at the very end. -/
def teardown (c : Chunk β) : Array (Entry β) :=
  drain c.children.reverse (c.branches.map Prod.snd).toArray ++ c.leaves

end Chunk

end BoxRuntime
