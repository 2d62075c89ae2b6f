/-
  Chunks by their addresses.

  A chunk of a tree is known by its address, the numbers of the branches that lead down to it from
  the root.  What is at an address is a whole tree again (`Chunk.chunkAt?`), and what the chunk
  there holds itself, without the chunks below it, are the entries of its branches and its leaves
  (`Chunk.own`).

  Another tree may be put at an address (`Chunk.replaceAt`).  Then nothing changes but there: a
  chunk whose address does not begin with that one holds itself what it held
  (`own_replaceAt_of_not_prefix`), and how many chunks the tree has, how high it is and on which
  levels its entries lie changes by what it changes in the tree that was replaced
  (`links_replaceAt`, `height_replaceAt_le`, `leveled_replaceAt`).

  Each of these is an induction on the address whose only step goes into one child
  (`Chunk.mapChild`).
-/
import BoxRuntime.Tree.Chunk

namespace BoxRuntime

namespace Chunk

variable {β : Type}

/-! ## Chunks with their branches and leaves

  A chunk is what its branches and leaves are (`ext_own`), so a rewritten chunk can be described by
  these two lists. Height and levels count the chunk itself as level 0. -/

/-- A chunk is known by its branches and its leaves. -/
theorem ext_own {c d : Chunk β} (hb : c.branches = d.branches) (hl : c.leaves = d.leaves) :
    c = d := by
  -- On the links of the first chunk; the other must have as many.
  induction c generalizing d with
  | tail leaves =>
    cases d with
    | tail leaves' => exact congrArg tail hl
    | link child entry rest => cases hb
  | link child entry rest _ ih =>
    cases d with
    | tail leaves' => cases hb
    | link child' entry' rest' =>
      obtain ⟨hfirst, hrest⟩ := List.cons.inj hb
      obtain ⟨rfl, rfl⟩ := Prod.mk.inj hfirst
      rw [ih hrest hl]

/-- What the chunk holds itself: the entries of its branches, and its leaves. -/
def own (c : Chunk β) : List (Entry β) × List (Entry β) :=
  (c.branches.map Prod.snd, c.leaves)

/-- The number of levels below the chunk. -/
def height : Chunk β → Nat
  | tail _ => 0
  | link child _ rest => max (child.height + 1) rest.height

/-- The entries in order, each with the level of its chunk; the chunk itself is on the given
level. -/
def leveled (level : Nat) : Chunk β → List (Nat × Entry β)
  | tail leaves => leaves.map fun e => (level, e)
  | link child entry rest => child.leveled (level + 1) ++ (level, entry) :: rest.leveled level

/-- A tree has at least one chunk on each level. -/
theorem height_le_links (c : Chunk β) : c.height ≤ c.links := by
  induction c with
  | tail leaves => exact Nat.le_refl 0
  | link child entry rest ihc ihr =>
    show max (child.height + 1) rest.height ≤ child.links + rest.links + 1
    omega

/-! ## Addresses

  The address is read from the root downwards; an empty one is the chunk itself. What is found
  depends on the branches alone, not on leaves or items. -/

/-- The chunk at an address. -/
def chunkAt? (c : Chunk β) : List Nat → Option (Chunk β)
  | [] => some c
  | i :: path => c.branches[i]?.bind fun b => b.1.chunkAt? path

@[simp] theorem chunkAt?_nil (c : Chunk β) : c.chunkAt? [] = some c :=
  rfl

/-- The first number of a path picks a child, the others lead on from there. -/
theorem chunkAt?_cons (c : Chunk β) (i : Nat) (path : List Nat) :
    c.chunkAt? (i :: path) = c.branches[i]?.bind fun b => b.1.chunkAt? path :=
  rfl

/-- A path leads somewhere if its first number does and the others do from there. -/
theorem chunkAt?_cons_eq_some {c d : Chunk β} {i : Nat} {path : List Nat} :
    c.chunkAt? (i :: path) = some d ↔
      ∃ child entry, c.branches[i]? = some (child, entry) ∧ child.chunkAt? path = some d := by
  rw [chunkAt?_cons, Option.bind_eq_some_iff]
  constructor
  · rintro ⟨⟨child, entry⟩, hb, hd⟩
    exact ⟨child, entry, hb, hd⟩
  · rintro ⟨child, entry, hb, hd⟩
    exact ⟨(child, entry), hb, hd⟩

/-- An address in the tree at an address. -/
theorem chunkAt?_append (c : Chunk β) (path rest : List Nat) :
    c.chunkAt? (path ++ rest) = (c.chunkAt? path).bind fun d => d.chunkAt? rest := by
  induction path generalizing c with
  | nil => rfl
  | cons i path ih =>
    rw [List.cons_append, chunkAt?_cons, chunkAt?_cons]
    cases c.branches[i]? with
    | none => rfl
    | some b => exact ih b.1

/-- Chunks with the same branches have the same chunks below them. -/
theorem chunkAt?_congr {c d : Chunk β} (hb : c.branches = d.branches) {path : List Nat}
    (hp : path ≠ []) : c.chunkAt? path = d.chunkAt? path := by
  cases path with
  | nil => exact absurd rfl hp
  | cons i path => rw [chunkAt?_cons, chunkAt?_cons, hb]

/-! ## One child changed

  The recursion is along the links of the chunk, down to the one with the number. Each lemma here
  has the same two cases: the first link is the one, or it is passed. -/

/-- The chunk with something else in place of one child. -/
def mapChild (f : Chunk β → Chunk β) : Nat → Chunk β → Chunk β
  | _, tail leaves => tail leaves
  | 0, link child entry rest => link (f child) entry rest
  | i + 1, link child entry rest => link child entry (rest.mapChild f i)

section

variable {c child : Chunk β} {entry : Entry β} {i : Nat} {f : Chunk β → Chunk β}

/-- Changing one child changes one branch. -/
@[simp] theorem branches_mapChild (c : Chunk β) (i : Nat) (f : Chunk β → Chunk β) :
    (c.mapChild f i).branches = c.branches.modify i fun b => (f b.1, b.2) := by
  induction c generalizing i with
  | tail leaves => cases i <;> rfl
  | link child entry rest _ ih =>
    cases i with
    | zero => rfl
    | succ i => exact congrArg ((child, entry) :: ·) (ih i)

/-- The leaves stay. -/
@[simp] theorem leaves_mapChild (c : Chunk β) (i : Nat) (f : Chunk β → Chunk β) :
    (c.mapChild f i).leaves = c.leaves := by
  induction c generalizing i with
  | tail leaves => cases i <;> rfl
  | link child entry rest _ ih =>
    cases i with
    | zero => rfl
    | succ i => exact ih i

/-- What a chunk holds itself does not depend on its children. -/
@[simp] theorem own_mapChild (c : Chunk β) (i : Nat) (f : Chunk β → Chunk β) :
    (c.mapChild f i).own = c.own := by
  refine Prod.ext ?_ (leaves_mapChild c i f)
  show (c.mapChild f i).branches.map Prod.snd = c.branches.map Prod.snd
  rw [branches_mapChild]
  apply List.ext_getElem?
  intro j
  rw [List.getElem?_map, List.getElem?_map, List.getElem?_modify]
  cases c.branches[j]? with
  | none => rfl
  | some b => by_cases hij : i = j <;> simp [hij]

/-- The links change by those of the child. -/
theorem links_mapChild (hb : c.branches[i]? = some (child, entry)) :
    (c.mapChild f i).links + child.links = c.links + (f child).links := by
  -- On the links of the chunk, down to the one that leads to the child. The others count as before.
  induction c generalizing i with
  | tail leaves => simp [branches] at hb
  | link first entry' rest _ ih =>
    cases i with
    | zero =>
      obtain ⟨rfl, rfl⟩ : first = child ∧ entry' = entry := by simpa [branches] using hb
      show (f first).links + rest.links + 1 + first.links = first.links + rest.links + 1 + _
      omega
    | succ i =>
      have hrest := ih (i := i) (by simpa [branches] using hb)
      show first.links + (rest.mapChild f i).links + 1 + child.links =
        first.links + rest.links + 1 + (f child).links
      omega

/-- A tree grows as high as the child that grew makes it. -/
theorem height_mapChild (hb : c.branches[i]? = some (child, entry)) {n : Nat}
    (hle : child.height ≤ (f child).height) (hn : (f child).height ≤ child.height + n) :
    c.height ≤ (c.mapChild f i).height ∧ (c.mapChild f i).height ≤ c.height + n := by
  -- On the links as well. A child that grows by `n` makes the chunk grow by `n` at most.
  induction c generalizing i with
  | tail leaves => simp [branches] at hb
  | link first entry' rest _ ih =>
    cases i with
    | zero =>
      obtain ⟨rfl, rfl⟩ : first = child ∧ entry' = entry := by simpa [branches] using hb
      show max (first.height + 1) rest.height ≤ max ((f first).height + 1) rest.height ∧
        max ((f first).height + 1) rest.height ≤ max (first.height + 1) rest.height + n
      omega
    | succ i =>
      have hrest := ih (i := i) (by simpa [branches] using hb)
      show max (first.height + 1) rest.height ≤ max (first.height + 1) (rest.mapChild f i).height ∧
        max (first.height + 1) (rest.mapChild f i).height ≤ max (first.height + 1) rest.height + n
      omega

/-- The entries of a child are one run of the entries of the tree. -/
theorem leveled_mapChild (hb : c.branches[i]? = some (child, entry)) (level : Nat) :
    ∃ before after, c.leveled level = before ++ child.leveled (level + 1) ++ after ∧
      ∀ f, (c.mapChild f i).leveled level = before ++ (f child).leveled (level + 1) ++ after := by
  -- On the links. What stands before and after the child is what the other links hold.
  induction c generalizing i with
  | tail leaves => simp [branches] at hb
  | link first entry' rest _ ih =>
    cases i with
    | zero =>
      obtain ⟨rfl, rfl⟩ : first = child ∧ entry' = entry := by simpa [branches] using hb
      exact ⟨[], (level, entry') :: rest.leveled level, rfl, fun f => rfl⟩
    | succ i =>
      obtain ⟨before, after, hrest, hmap⟩ := ih (i := i) (by simpa [branches] using hb)
      refine ⟨first.leveled (level + 1) ++ (level, entry') :: before, after, ?_, fun f => ?_⟩
      · rw [leveled, hrest]
        simp only [List.append_assoc, List.cons_append]
      · show first.leveled (level + 1) ++ (level, entry') :: (rest.mapChild f i).leveled level = _
        rw [hmap f]
        simp only [List.append_assoc, List.cons_append]

end

/-! ## Another tree at an address

  Replacing at an address changes one child of each chunk on the way, so every lemma here is a
  lemma of the last section, applied once for each number of the address. -/

/-- The tree with another one in place of what is at the address. -/
def replaceAt (c : Chunk β) (path : List Nat) (new : Chunk β) : Chunk β :=
  match path with
  | [] => new
  | i :: path => c.mapChild (fun child => child.replaceAt path new) i

@[simp] theorem replaceAt_nil (c new : Chunk β) : c.replaceAt [] new = new :=
  rfl

/-- A replacement below a child changes the child. -/
theorem replaceAt_cons (c : Chunk β) (i : Nat) (path : List Nat) (new : Chunk β) :
    c.replaceAt (i :: path) new = c.mapChild (fun child => child.replaceAt path new) i :=
  rfl

/-- What is then below the address is below the root of the new tree. -/
theorem chunkAt?_replaceAt_append {c old : Chunk β} {path : List Nat}
    (hold : c.chunkAt? path = some old) (new : Chunk β) (rest : List Nat) :
    (c.replaceAt path new).chunkAt? (path ++ rest) = new.chunkAt? rest := by
  induction path generalizing c with
  | nil => rfl
  | cons i path ih =>
    obtain ⟨child, entry, hb, hchild⟩ := chunkAt?_cons_eq_some.mp hold
    rw [List.cons_append, chunkAt?_cons, replaceAt_cons, branches_mapChild, List.getElem?_modify, hb]
    simpa using ih hchild

/-- All chunks that are not at or below the address hold themselves what they held. -/
theorem own_replaceAt_of_not_prefix {c : Chunk β} {path other : List Nat} (new : Chunk β)
    (hne : ¬path <+: other) :
    ((c.replaceAt path new).chunkAt? other).map own = (c.chunkAt? other).map own := by
  induction path generalizing c other with
  | nil => exact absurd List.nil_prefix hne
  | cons i path ih =>
    cases other with
    | nil =>
      rw [replaceAt_cons, chunkAt?_nil, chunkAt?_nil, Option.map_some, Option.map_some,
        own_mapChild]
    | cons j other =>
      rw [replaceAt_cons, chunkAt?_cons, chunkAt?_cons, branches_mapChild, List.getElem?_modify]
      cases c.branches[j]? with
      | none => rfl
      | some b =>
        by_cases hij : i = j
        -- through the same child, and there by induction
        · subst hij
          have hbelow : ¬path <+: other := fun h => hne (List.cons_prefix_cons.mpr ⟨rfl, h⟩)
          simpa using ih hbelow
        · simp [hij]

/-- The links change by those of the chunk that is replaced. -/
theorem links_replaceAt {c old : Chunk β} {path : List Nat} (hold : c.chunkAt? path = some old)
    (new : Chunk β) : (c.replaceAt path new).links + old.links = c.links + new.links := by
  induction path generalizing c with
  | nil =>
    obtain rfl : c = old := Option.some.inj hold
    exact Nat.add_comm _ _
  | cons i path ih =>
    obtain ⟨child, entry, hb, hchild⟩ := chunkAt?_cons_eq_some.mp hold
    have hstep := links_mapChild (f := fun child => child.replaceAt path new) hb
    have hbelow := ih hchild
    rw [replaceAt_cons]
    omega

/-- A chunk that grows makes the tree grow no more than it does itself. -/
theorem height_replaceAt_le {c old new : Chunk β} {path : List Nat} {n : Nat}
    (hold : c.chunkAt? path = some old) (hle : old.height ≤ new.height)
    (hn : new.height ≤ old.height + n) :
    c.height ≤ (c.replaceAt path new).height ∧ (c.replaceAt path new).height ≤ c.height + n := by
  induction path generalizing c with
  | nil =>
    obtain rfl : c = old := Option.some.inj hold
    exact ⟨hle, hn⟩
  | cons i path ih =>
    obtain ⟨child, entry, hb, hchild⟩ := chunkAt?_cons_eq_some.mp hold
    obtain ⟨hle', hn'⟩ := ih hchild
    exact height_mapChild hb hle' hn'

/-- The entries at and below an address are one run of the entries of the tree. -/
theorem leveled_replaceAt {c old : Chunk β} {path : List Nat} (hold : c.chunkAt? path = some old)
    (level : Nat) :
    ∃ before after, c.leveled level = before ++ old.leveled (level + path.length) ++ after ∧
      ∀ new, (c.replaceAt path new).leveled level =
        before ++ new.leveled (level + path.length) ++ after := by
  -- On the path: the child is one level lower, and what is around it there stands between what is
  -- around it here.
  induction path generalizing c level with
  | nil =>
    obtain rfl : c = old := Option.some.inj hold
    exact ⟨[], [], by simp, fun new => by simp⟩
  | cons i path ih =>
    obtain ⟨child, entry, hb, hchild⟩ := chunkAt?_cons_eq_some.mp hold
    obtain ⟨before, after, hc, hmap⟩ := leveled_mapChild hb level
    obtain ⟨before', after', hchild', hreplace⟩ := ih hchild (level + 1)
    have hlength : level + (i :: path).length = level + 1 + path.length := by
      rw [List.length_cons]
      omega
    refine ⟨before ++ before', after' ++ after, ?_, fun new => ?_⟩
    · rw [hc, hchild', hlength]
      simp only [List.append_assoc]
    · rw [replaceAt_cons, hmap, hreplace, hlength]
      simp only [List.append_assoc]

end Chunk

end BoxRuntime
