/-
  What an insertion does to the chunks of a tree.

  The search for a key goes down from the root, at each chunk into the child before the first entry
  that is above the key, and ends at a chunk all of whose branches are below it (`Leads`).  There an
  entry with that key is found, or the new entry belongs between two of the leaves.  The chunk then
  takes the entry in as one more leaf, or makes room by sending its leaves or its branches down
  (`TakesIn`).

  The main statement is `effect_of_insert`.  A successful insertion replaces the item of one entry,
  or it puts one rewritten chunk at the address where the search ended; there is no third thing that
  it does.  All that is said about the shape of trees follows from this and from what `TakesIn` says
  about one chunk.

  The search is a recursion along the branches of a chunk as well as down the tree, so the induction
  is over both (`Effect`).  A chunk without some of its first branches is no chunk of the tree, and
  how many branches were passed on the way (`seen`) decides about its room.
-/
import BoxRuntime.Proofs.Tree.Address
import BoxRuntime.Proofs.Tree.Contents

namespace BoxRuntime

/-- What an inserted entry makes of an entry that is there: with the same key, it gets the new
item. -/
def Entry.supersede {β : Type} (e x : Entry β) : Entry β :=
  if x.sortKey = e.sortKey then { x with item := e.item } else x

namespace Chunk

variable {β : Type} {shape : Shape}

open Assoc

/-! ## Where a search ends

  A path through the tree with the comparisons that led along it. There is one such path for each
  key, and it ends at the only chunk where the key may stand among the leaves. -/

/-- All branches of the chunk are below the key. -/
def Passes (k : Key) (c : Chunk β) : Prop :=
  ∀ b ∈ c.branches, b.2.sortKey.compare k = .lt

/-- The search for a key goes down along these branches and ends at that chunk. -/
inductive Leads (k : Key) : Chunk β → List Nat → Chunk β → Prop where
  | stop {c : Chunk β} : c.Passes k → Leads k c [] c
  | down {c child target : Chunk β} {entry : Entry β} {i : Nat} {path : List Nat} :
      c.branches[i]? = some (child, entry) →
      (∀ b ∈ c.branches.take i, b.2.sortKey.compare k = .lt) → k.compare entry.sortKey = .lt →
      Leads k child path target → Leads k c (i :: path) target

/-- The way to a chunk is its address. -/
theorem Leads.chunkAt? {k : Key} {c target : Chunk β} {path : List Nat}
    (h : Leads k c path target) : c.chunkAt? path = some target := by
  induction h with
  | stop _ => rfl
  | down hb _ _ _ ih => exact chunkAt?_cons_eq_some.mpr ⟨_, _, hb, ih⟩

/-- An entry before the key is passed. -/
theorem Passes.link {k : Key} {child rest : Chunk β} {entry : Entry β}
    (he : entry.sortKey.compare k = .lt) (h : rest.Passes k) :
    (link child entry rest).Passes k :=
  List.forall_mem_cons.mpr ⟨he, h⟩

/-- A search that goes on to the right counts one branch more. -/
theorem Leads.link {k : Key} {child rest target : Chunk β} {entry : Entry β} {i : Nat}
    {path : List Nat} (he : entry.sortKey.compare k = .lt) (h : Leads k rest (i :: path) target) :
    Leads k (link child entry rest) ((i + 1) :: path) target := by
  cases h with
  | down hb hpassed hlt hleads =>
    refine Leads.down (by simpa [branches] using hb) ?_ hlt hleads
    exact List.forall_mem_cons.mpr ⟨he, hpassed⟩

/-! ## What a chunk becomes

  Three ways to take an entry in. Each is stated by branches and leaves, so that counting slots,
  height and levels needs nothing else. -/

/-- What becomes of a chunk that takes an entry in.  `filled` are its leaves with the new one among
them. -/
inductive TakesIn (shape : Shape) (old : Chunk β) (filled : List (Entry β)) :
    Option SplitKind → Chunk β → Prop where
  /-- It has the slots for another leaf, or is the root of an empty tree. -/
  | fits {new : Chunk β} :
      hasRoom shape old.branches.length old.leaves.length = true ∨ old = tail [] →
      new.branches = old.branches → new.leaves = filled → TakesIn shape old filled none new
  /-- All leaves but the largest go down into a new child, which the largest follows. -/
  | leavesDown {new lower : Chunk β} {largest : Entry β} :
      hasRoom shape old.branches.length old.leaves.length = false →
      old.branches.length * shape.branch ≤ shape.chunk / 2 →
      lower.branches = [] → lower.leaves ++ [largest] = filled →
      new.branches = old.branches ++ [(lower, largest)] → new.leaves = [] →
      TakesIn shape old filled (some .leaves) new
  /-- All branches go down into a new child, which the smallest leaf follows. -/
  | branchesDown {new lower : Chunk β} {smallest : Entry β} :
      hasRoom shape old.branches.length old.leaves.length = false →
      shape.chunk / 2 < old.branches.length * shape.branch →
      lower.branches = old.branches → lower.leaves = [] →
      new.branches = [(lower, smallest)] → smallest :: new.leaves = filled →
      TakesIn shape old filled (some .branches) new

/-- What is put in the place of the leaves comes behind the branches. -/
theorem branches_withTail (c : Chunk β) (f : List (Entry β) → Chunk β) :
    (c.withTail f).branches = c.branches ++ (f c.leaves).branches := by
  induction c with
  | tail leaves => rfl
  | link child entry rest _ ih => exact congrArg ((child, entry) :: ·) ih

theorem leaves_withTail (c : Chunk β) (f : List (Entry β) → Chunk β) :
    (c.withTail f).leaves = (f c.leaves).leaves := by
  induction c with
  | tail leaves => rfl
  | link child entry rest _ ih => exact ih

/-- A chunk with room takes an entry in as one of its leaves. -/
theorem takesIn_withTail {c : Chunk β} {filled : List (Entry β)}
    (hroom : hasRoom shape c.branches.length c.leaves.length = true) :
    TakesIn shape c filled none (c.withTail fun _ => tail filled) := by
  refine TakesIn.fits (Or.inl hroom) ?_ ?_
  · rw [branches_withTail]
    exact List.append_nil _
  · rw [leaves_withTail]
    rfl

/-- A chunk without room takes an entry in by a split. -/
theorem takesIn_split {c : Chunk β} (before : List (Entry β)) (e : Entry β)
    (after : List (Entry β))
    (hroom : hasRoom shape c.branches.length c.leaves.length = false) :
    TakesIn shape c (before ++ e :: after) (some (c.split shape before e after).2)
      (c.split shape before e after).1 := by
  have ne : before ++ e :: after ≠ [] := by simp
  unfold split
  dsimp only
  -- The branches take more than half of the slots, or they do not.
  split
  · rename_i hmore
    have hbranches : (c.withTail fun _ => tail []).branches = c.branches := by
      rw [branches_withTail]
      exact List.append_nil _
    have hleaves : (c.withTail fun _ => tail []).leaves = [] := by
      rw [leaves_withTail]
      rfl
    exact TakesIn.branchesDown hroom hmore hbranches hleaves rfl (List.cons_head_tail ne)
  · rename_i hless
    have hlower : (tail (before ++ e :: after).dropLast).leaves ++
        [(before ++ e :: after).getLast ne] = before ++ e :: after :=
      List.dropLast_concat_getLast ne
    refine TakesIn.leavesDown hroom (Nat.le_of_not_lt hless) rfl hlower ?_ ?_
    · rw [branches_withTail]
      rfl
    · rw [leaves_withTail]
      rfl

/-! ## Items replaced

  A merge changes the item of one entry wherever it lies, so it is a map over all entries that
  leaves those with other keys alone. -/

/-- The tree with every entry changed in its place. -/
def mapEntries (f : Entry β → Entry β) : Chunk β → Chunk β
  | tail leaves => tail (leaves.map f)
  | link child entry rest => link (child.mapEntries f) (f entry) (rest.mapEntries f)

/-- A change that leaves every entry alone leaves the list. -/
theorem map_of_fixed {f : Entry β → Entry β} {es : List (Entry β)} (h : ∀ x ∈ es, f x = x) :
    es.map f = es :=
  (List.map_congr_left h).trans (List.map_id es)

/-- Nothing changes if every entry stays what it is. -/
theorem mapEntries_of_fixed {f : Entry β → Entry β} {c : Chunk β}
    (h : ∀ x ∈ c.toList, f x = x) : c.mapEntries f = c := by
  induction c with
  | tail leaves => exact congrArg tail (map_of_fixed h)
  | link child entry rest ihc ihr =>
    have hchild := ihc fun x hx => h x (by simp [toList, hx])
    have hrest := ihr fun x hx => h x (by simp [toList, hx])
    rw [mapEntries, hchild, hrest, h entry (by simp [toList])]

/-- Superseding an entry touches no other key. -/
theorem supersede_of_ne {e x : Entry β} (h : x.sortKey ≠ e.sortKey) : e.supersede x = x :=
  if_neg h

/-- The key box stays, and the item is the new one. -/
theorem supersede_of_eq {e x : Entry β} (h : x.sortKey = e.sortKey) :
    e.supersede x = { x with item := e.item } :=
  if_pos h

/-- Entries on either side of where the key belongs are left as they are. -/
theorem supersede_of_cut {e : Entry β} {before after : List (Entry β)}
    (h : Cut e.sortKey before after) : ∀ x ∈ before ++ after, e.supersede x = x :=
  fun _ hx => supersede_of_ne (h.not_mem hx)

/-! ## What an insertion comes to

  The induction is over the chunk and carries how many branches were passed; at the root none
  were. -/

/-- What inserting an entry into a chunk comes to, if `seen` branches of it were passed before. -/
inductive Effect (shape : Shape) (e : Entry β) (seen : Nat) (c : Chunk β) :
    Insertion β → Chunk β → Prop where
  | merged {old : Entry β} :
      old ∈ c.toList → old.sortKey = e.sortKey →
      Effect shape e seen c (.merged old.item) (c.mapEntries e.supersede)
  | fits {before after : List (Entry β)} :
      c.Passes e.sortKey → c.leaves = before ++ after → Sorted (before ++ e :: after) →
      hasRoom shape (seen + c.branches.length) c.leaves.length = true →
      Effect shape e seen c (.added 0 before.length none)
        (c.withTail fun _ => tail (before ++ e :: after))
  | below {i : Nat} {path : List Nat} {old new : Chunk β} {before after : List (Entry β)}
      {split : Option SplitKind} :
      Leads e.sortKey c (i :: path) old → old.leaves = before ++ after →
      Sorted (before ++ e :: after) → TakesIn shape old (before ++ e :: after) split new →
      Effect shape e seen c (.added (path.length + 1) before.length split)
        (c.replaceAt (i :: path) new)
  | full {before after : List (Entry β)} :
      c.Passes e.sortKey → c.leaves = before ++ after → Sorted (before ++ e :: after) →
      hasRoom shape (seen + c.branches.length) c.leaves.length = false →
      Effect shape e seen c (.full before after) c

variable {cmp : Handle → Except Fault Ordering} {e entry : Entry β}
  {child child' rest rest' : Chunk β} {seen : Nat} {r : Insertion β}

/-- Among leaves, the entry is found, or it belongs into a gap. -/
theorem effect_tail {leaves : List (Entry β)} {c' : Chunk β} (hs : Sorted leaves)
    (hc : Answers cmp e.sortKey leaves)
    (hr : (tail leaves).attempt shape cmp e seen = .ok r c') :
    Effect shape e seen (tail leaves) r c' := by
  obtain ⟨p, hp, hloc⟩ := place_spec hs hc
  rw [attempt, hp] at hr
  have hpasses : (tail leaves).Passes e.sortKey := List.forall_mem_nil _
  -- The key is among the leaves, or there is a gap for it, with room or without.
  cases hloc with
  | @found before after x hcut hx =>
    cases hr
    -- Only the entry with the key is superseded; the others have other keys.
    have hfixed := supersede_of_cut hcut
    have hmap : (tail (before ++ x :: after)).mapEntries e.supersede =
        tail (before ++ { x with item := e.item } :: after) := by
      have hbefore : before.map e.supersede = before :=
        map_of_fixed fun y hy => hfixed y (List.mem_append_left _ hy)
      have hafter : after.map e.supersede = after :=
        map_of_fixed fun y hy => hfixed y (List.mem_append_right _ hy)
      rw [mapEntries, List.map_append, List.map_cons, hbefore, hafter, supersede_of_eq hx]
    show Effect shape e seen (tail (before ++ x :: after)) (.merged x.item)
      (tail (before ++ { x with item := e.item } :: after))
    rw [← hmap]
    exact Effect.merged (by simp [toList]) hx
  | @gap before after hcut =>
    have hfilled : Sorted (before ++ e :: after) := hs.add hcut
    dsimp only at hr
    split at hr
    · rename_i hroom
      cases hr
      refine Effect.fits (c := tail (before ++ after)) hpasses rfl hfilled ?_
      exact hroom
    · rename_i hroom
      cases hr
      refine Effect.full hpasses rfl hfilled ?_
      exact Bool.eq_false_iff.mpr hroom

/-- At a branch with that key, the item of its entry is replaced. -/
theorem effect_branch (hcut : Cut e.sortKey child.toList rest.toList)
    (he : entry.sortKey = e.sortKey) :
    Effect shape e seen (link child entry rest) (.merged entry.item)
      (link child { entry with item := e.item } rest) := by
  have hfixed := supersede_of_cut hcut
  have hmap : (link child entry rest).mapEntries e.supersede =
      link child { entry with item := e.item } rest := by
    rw [mapEntries, supersede_of_eq he,
      mapEntries_of_fixed fun x hx => hfixed x (List.mem_append_left _ hx),
      mapEntries_of_fixed fun x hx => hfixed x (List.mem_append_right _ hx)]
  rw [← hmap]
  exact Effect.merged (by simp [toList]) he

/-- The insertion goes down into a child.  If the child has no room, it is split here. -/
theorem effect_child (he : cmp entry.key = .ok .lt) (hlt : e.sortKey.compare entry.sortKey = .lt)
    (habove : ∀ x ∈ entry :: rest.toList, e.sortKey.compare x.sortKey = .lt)
    (hr : child.attempt shape cmp e 0 = .ok r child') (h : Effect shape e 0 child r child') :
    ∃ r c', (link child entry rest).attempt shape cmp e seen = .ok r c' ∧
      Effect shape e seen (link child entry rest) r c' := by
  -- What leads to a place below the child leads there from this chunk, by the first branch.
  have hdown : ∀ {path : List Nat} {target : Chunk β}, Leads e.sortKey child path target →
      Leads e.sortKey (link child entry rest) (0 :: path) target :=
    fun hleads => Leads.down rfl nofun hlt hleads
  rw [attempt, he]
  dsimp only
  rw [hr]
  cases h with
  | merged hmem hkey =>
    -- The entries above the child have greater keys.
    have hfixed : ∀ x ∈ entry :: rest.toList, e.supersede x = x := by
      have hcut : Cut e.sortKey [] (entry :: rest.toList) := Cut.leftmost habove
      exact supersede_of_cut hcut
    have hmap : (link child entry rest).mapEntries e.supersede =
        link (child.mapEntries e.supersede) entry rest := by
      rw [mapEntries, hfixed entry List.mem_cons_self,
        mapEntries_of_fixed fun x hx => hfixed x (List.mem_cons_of_mem _ hx)]
    refine ⟨_, _, rfl, ?_⟩
    rw [← hmap]
    exact Effect.merged (by simp [toList, hmem]) hkey
  | fits hpasses hleaves hfilled hroom =>
    -- It came to the leaves of the child itself, which are one level below this chunk.
    rw [Nat.zero_add] at hroom
    exact ⟨_, _, rfl,
      Effect.below (hdown (Leads.stop hpasses)) hleaves hfilled (takesIn_withTail hroom)⟩
  | below hleads hleaves hfilled htakes =>
    exact ⟨_, _, rfl, Effect.below (hdown hleads) hleaves hfilled htakes⟩
  | full hpasses hleaves hfilled hroom =>
    rw [Nat.zero_add] at hroom
    exact ⟨_, _, rfl,
      Effect.below (hdown (Leads.stop hpasses)) hleaves hfilled (takesIn_split _ _ _ hroom)⟩

/-- The insertion goes on to the right, with one more branch passed. -/
theorem effect_rest (he : cmp entry.key = .ok .gt) (hgt : entry.sortKey.compare e.sortKey = .lt)
    (hbelow : ∀ x ∈ child.toList ++ [entry], x.sortKey.compare e.sortKey = .lt)
    (hr : rest.attempt shape cmp e (seen + 1) = .ok r rest')
    (h : Effect shape e (seen + 1) rest r rest') :
    ∃ r c', (link child entry rest).attempt shape cmp e seen = .ok r c' ∧
      Effect shape e seen (link child entry rest) r c' := by
  -- The branch that was passed counts as one more that was seen.
  have hseen : seen + (link child entry rest).branches.length =
      seen + 1 + rest.branches.length := by
    rw [branches, List.length_cons]
    omega
  rw [attempt, he]
  dsimp only
  rw [hr]
  refine ⟨_, _, rfl, ?_⟩
  cases h with
  | merged hmem hkey =>
    -- The entries up to the branch have smaller keys.
    have hfixed : ∀ x ∈ child.toList ++ [entry], e.supersede x = x := by
      have hcut : Cut e.sortKey (child.toList ++ [entry]) [] := Cut.rightmost hbelow
      intro x hx
      exact supersede_of_cut hcut x (List.mem_append_left _ hx)
    have hmap : (link child entry rest).mapEntries e.supersede =
        link child entry (rest.mapEntries e.supersede) := by
      rw [mapEntries, hfixed entry (by simp),
        mapEntries_of_fixed fun x hx => hfixed x (List.mem_append_left _ hx)]
    rw [← hmap]
    exact Effect.merged (by simp [toList, hmem]) hkey
  | fits hpasses hleaves hfilled hroom =>
    rw [← hseen] at hroom
    exact Effect.fits (c := link child entry rest) (hpasses.link hgt) hleaves hfilled hroom
  | below hleads hleaves hfilled htakes =>
    exact Effect.below (hleads.link hgt) hleaves hfilled htakes
  | full hpasses hleaves hfilled hroom =>
    rw [← hseen] at hroom
    exact Effect.full (hpasses.link hgt) hleaves hfilled hroom

/-- An insertion into a chunk with sorted entries succeeds, and it has its effect and no other. -/
theorem attempt_effect {c : Chunk β} (seen : Nat) (hs : Sorted c.toList)
    (hc : Answers cmp e.sortKey c.toList) :
    ∃ r c', c.attempt shape cmp e seen = .ok r c' ∧ Effect shape e seen c r c' := by
  -- On the chunk: an entry of the tail is compared with the leaves, one of a link with its entry
  -- first.
  induction c generalizing seen with
  | tail leaves =>
    obtain ⟨r, c', hr, -⟩ : ∃ r c', (tail leaves).attempt shape cmp e seen = .ok r c' ∧
      Inserted e (tail leaves) r c' := attempt_tail seen hs hc
    exact ⟨r, c', hr, effect_tail hs hc hr⟩
  | link child entry rest ihc ihr =>
    obtain ⟨hsc, hsr, hcut⟩ := sorted_append_cons.mp hs
    have he := hc entry (by simp [toList])
    have hcc : Answers cmp e.sortKey child.toList := fun x hx => hc x (by simp [toList, hx])
    have hcr : Answers cmp e.sortKey rest.toList := fun x hx => hc x (by simp [toList, hx])
    cases hk : e.sortKey.compare entry.sortKey with
    | lt =>
      rw [hk] at he
      obtain ⟨r, child', hr, heffect⟩ := ihc 0 hsc hcc
      exact effect_child he hk (above_of_lt hk hcut.above) hr heffect
    | eq =>
      rw [hk] at he
      have hkey := Key.compare_eq_iff.mp hk
      refine ⟨_, _, by rw [attempt, he], ?_⟩
      exact effect_branch (hkey ▸ hcut) hkey.symm
    | gt =>
      rw [hk] at he
      obtain ⟨r, rest', hr, heffect⟩ := ihr (seen + 1) hsr hcr
      exact effect_rest he (Key.gt_iff_lt.mp hk) (below_of_gt hk hcut.below) hr heffect

end Chunk

namespace SearchTree

variable {shape : Shape} {β : Type}

open Assoc Chunk

/-- What a successful insertion does to a tree: the item of the entry with the key is replaced, or
the one chunk at which the search ends takes the new entry in. -/
inductive Effect (t : SearchTree shape β) (e : Entry β) :
    InsertOutcome β → SearchTree shape β → Prop where
  | merged {old : Entry β} :
      old ∈ t.toList → old.sortKey = e.sortKey →
      Effect t e (.merged old.item) { t with root := t.root.mapEntries e.supersede }
  | added {path : List Nat} {old new : Chunk β} {before after : List (Entry β)}
      {split : Option SplitKind} :
      Leads e.sortKey t.root path old → old.leaves = before ++ after →
      Sorted (before ++ e :: after) → TakesIn shape old (before ++ e :: after) split new →
      Effect t e (.added path.length before.length split)
        (t.added e.key.tag (t.root.replaceAt path new) path.length before.length split)

/-- A tree without entries is an empty root. -/
theorem root_of_toList_nil {c : Chunk β} (h : c.toList = []) : c = tail [] := by
  cases c with
  | tail leaves => exact congrArg tail h
  | link child entry rest => simp [Chunk.toList] at h

/-- **An insertion rewrites one chunk, or replaces one item.** -/
theorem effect_of_insert {t t' : SearchTree shape β} (hs : t.Sound) {e : Entry β}
    {outcome : InsertOutcome β} (h : t.insert e = .ok outcome t') : t.Effect e outcome t' := by
  obtain ⟨-, cmp, hr⟩ := change_of_insert hs h
  rw [insert, hr] at h
  dsimp only at h
  split at h
  -- the first entry of a tree is not searched for: the root is empty
  · rename_i hempty
    have hroot : t.root = tail [] := root_of_toList_nil (hs.isEmpty_iff.mp hempty)
    cases h
    have hleads : Leads e.sortKey t.root [] t.root := by
      rw [hroot]
      exact Leads.stop (List.forall_mem_nil _)
    have htakes : TakesIn shape t.root ([] ++ e :: []) none (tail [e]) :=
      TakesIn.fits (Or.inr hroot) (by rw [hroot]; rfl) rfl
    have halone : Sorted ([] ++ e :: []) := List.pairwise_singleton _ e
    exact Effect.added hleads (by rw [hroot]; rfl) halone htakes
  · obtain ⟨r, root, hattempt, heffect⟩ : ∃ r root, t.root.attempt shape (cmp e.key) e 0 =
        .ok r root ∧ Chunk.Effect shape e 0 t.root r root :=
      Chunk.attempt_effect 0 hs.sorted (hs.answers hr)
    rw [hattempt] at h
    cases heffect with
    | merged hmem hkey =>
      cases h
      exact Effect.merged hmem hkey
    | fits hpasses hleaves hfilled hroom =>
      cases h
      rw [Nat.zero_add] at hroom
      exact Effect.added (Leads.stop hpasses) hleaves hfilled (takesIn_withTail hroom)
    | below hleads hleaves hfilled htakes =>
      cases h
      exact Effect.added hleads hleaves hfilled htakes
    | full hpasses hleaves hfilled hroom =>
      -- the root has no parent, so the tree itself splits it
      cases h
      rw [Nat.zero_add] at hroom
      exact Effect.added (Leads.stop hpasses) hleaves hfilled (takesIn_split _ _ _ hroom)

/-- What every effect of an insertion keeps, a sequence of insertions keeps. -/
theorem insertAll_invariant {P : SearchTree shape β → Prop}
    (hstep : ∀ {t e outcome t'}, t.Sound → t.Effect e outcome t' → P t → P t')
    {t : SearchTree shape β} (hs : t.Sound) (ht : P t) (es : List (Entry β)) :
    P (t.insertAll es) := by
  -- On the entries. A refusal leaves the tree, so only insertions that succeed need the step.
  induction es generalizing t with
  | nil => exact ht
  | cons e es ih =>
    rw [insertAll, List.foldl_cons]
    cases h : t.insert e with
    | error f t' =>
      rw [keep_of_error h]
      exact ih hs ht
    | ok outcome t' =>
      rw [keep_of_ok h]
      obtain ⟨hchange, cmp, hr⟩ := change_of_insert hs h
      exact ih (hchange.sound hs hr) (hstep hs (effect_of_insert hs h) ht)

end SearchTree

end BoxRuntime
