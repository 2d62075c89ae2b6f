/-
  Searching a chunk tree.

  The search goes by comparisons alone.  Here its chunk lists its entries in increasing order, and
  the comparisons answer by the order of keys (`Answers`).  Then the search ends where the wanted
  key belongs: what `place` finds among the leaves is a cut of them (`place_spec`), `find` answers
  what `lookup` answers on the list (`find_eq_lookup`), and an insertion changes the list at the
  cut and nowhere else (`attempt_spec`).

  The order of the list is all the search needs to know about the shape of the tree: that a
  child's entries lie between two entries of its parent is the order of the list read at that
  child.  So each proof is one induction over the chunk, and a comparison at a branch extends a
  cut to one side: going down keeps what follows the child above the key, going on keeps the child
  and its entry below.

  One thing needs neither the order nor the answers.  A comparison that fails ends an insertion on
  its way down, and every chunk on that way is put together again as it was (`attempt_error`).
-/
import BoxRuntime.Proofs.Tree.Assoc
import BoxRuntime.Proofs.Triple
import BoxRuntime.Tree.SearchTree

namespace BoxRuntime

namespace Assoc

variable {β : Type}

/-- A key below all others cuts the list at the front. -/
theorem Cut.leftmost {k : Key} {after : List (Entry β)}
    (h : ∀ x ∈ after, k.compare x.sortKey = .lt) : Cut k [] after :=
  ⟨nofun, h⟩

/-- A key above all others cuts it at the end. -/
theorem Cut.rightmost {k : Key} {before : List (Entry β)}
    (h : ∀ x ∈ before, x.sortKey.compare k = .lt) : Cut k before [] :=
  ⟨h, nofun⟩

/-- What is above the key can be put behind the cut. -/
theorem Cut.append {k : Key} {before after more : List (Entry β)} (h : Cut k before after)
    (hmore : ∀ x ∈ more, k.compare x.sortKey = .lt) : Cut k before (after ++ more) := by
  refine ⟨h.below, ?_⟩
  intro x hx
  rcases List.mem_append.mp hx with hx | hx
  · exact h.above x hx
  · exact hmore x hx

/-- What is below it can be put before. -/
theorem Cut.prepend {k : Key} {more before after : List (Entry β)} (h : Cut k before after)
    (hmore : ∀ x ∈ more, x.sortKey.compare k = .lt) : Cut k (more ++ before) after := by
  refine ⟨?_, h.above⟩
  intro x hx
  rcases List.mem_append.mp hx with hx | hx
  · exact hmore x hx
  · exact h.below x hx

/-- A key below an entry is below all that follows it. -/
theorem above_of_lt {k : Key} {e : Entry β} {after : List (Entry β)}
    (hk : k.compare e.sortKey = .lt) (h : ∀ x ∈ after, e.sortKey.compare x.sortKey = .lt) :
    ∀ x ∈ e :: after, k.compare x.sortKey = .lt := by
  intro x hx
  rcases List.mem_cons.mp hx with rfl | hx
  · exact hk
  · exact Key.lt_trans hk (h x hx)

/-- A key above an entry is above all that precedes it. -/
theorem below_of_gt {k : Key} {e : Entry β} {before : List (Entry β)}
    (hk : k.compare e.sortKey = .gt) (h : ∀ x ∈ before, x.sortKey.compare e.sortKey = .lt) :
    ∀ x ∈ before ++ [e], x.sortKey.compare k = .lt := by
  have hlt := Key.gt_iff_lt.mp hk
  intro x hx
  rcases List.mem_append.mp hx with hx | hx
  · exact Key.lt_trans (h x hx) hlt
  · rw [List.mem_singleton.mp hx]
    exact hlt

end Assoc

namespace Chunk

variable {β : Type} {shape : Shape}

open Assoc

/-- On these entries, comparisons with the wanted key answer by the order of keys. -/
def Answers (cmp : Handle → Except Fault Ordering) (k : Key) (es : List (Entry β)) : Prop :=
  ∀ x ∈ es, cmp x.key = .ok (k.compare x.sortKey)

/-! ## Among leaves

  A linear search: it stops at the first leaf that is not below the key. -/

/-- A place among entries is where the key belongs. -/
inductive Located (k : Key) : List (Entry β) → Place β → Prop where
  | found {before after : List (Entry β)} {x : Entry β} :
      Cut k before after → x.sortKey = k → Located k (before ++ x :: after) (.found before x after)
  | gap {before after : List (Entry β)} :
      Cut k before after → Located k (before ++ after) (.gap before after)

/-- A place behind an entry is one further in the longer list. -/
theorem Located.shift {k : Key} {es : List (Entry β)} {p : Place β} {e : Entry β}
    (h : Located k es p) (he : e.sortKey.compare k = .lt) : Located k (e :: es) (p.shift e) := by
  have hmore : ∀ x ∈ [e], x.sortKey.compare k = .lt := by
    intro x hx
    rw [List.mem_singleton.mp hx]
    exact he
  cases h with
  | found hcut hx => exact Located.found (hcut.prepend hmore) hx
  | gap hcut => exact Located.gap (hcut.prepend hmore)

/-- **A search through sorted entries ends at the place of the key**, if the comparator answers. -/
theorem place_spec {cmp : Handle → Except Fault Ordering} {k : Key} {es : List (Entry β)}
    (hs : Sorted es) (hc : Answers cmp k es) : ∃ p, place cmp es = .ok p ∧ Located k es p := by
  induction es with
  | nil =>
    have hcut : Cut k ([] : List (Entry β)) [] := ⟨nofun, nofun⟩
    exact ⟨.gap [] [], rfl, Located.gap hcut⟩
  | cons e es ih =>
    obtain ⟨hhead, htail⟩ := List.pairwise_cons.mp hs
    have he := hc e (List.mem_cons_self ..)
    -- only above the first entry does the search go on, and then that entry joins the left side
    cases hk : k.compare e.sortKey with
    | lt =>
      rw [hk] at he
      refine ⟨.gap [] (e :: es), by rw [place, he], ?_⟩
      exact Located.gap (Cut.leftmost (above_of_lt hk hhead))
    | eq =>
      rw [hk] at he
      obtain rfl := Key.compare_eq_iff.mp hk
      refine ⟨.found [] e es, by rw [place, he], ?_⟩
      exact Located.found (Cut.leftmost hhead) rfl
    | gt =>
      rw [hk] at he
      obtain ⟨p, hp, hloc⟩ := ih htail fun x hx => hc x (List.mem_cons_of_mem e hx)
      refine ⟨p.shift e, by rw [place, he, hp]; rfl, ?_⟩
      exact hloc.shift (Key.gt_iff_lt.mp hk)

/-! ## Looking up

  One induction over the chunk. At each branch the cut of the part that is searched is extended by
  the part that is not. -/

/-- The search by comparisons finds what a search through the list of entries finds. -/
theorem find_eq_lookup {cmp : Handle → Except Fault Ordering} {k : Key} {c : Chunk β}
    (hs : Sorted c.toList) (hc : Answers cmp k c.toList) :
    c.find cmp = .ok (lookup k c.toList) := by
  induction c with
  | tail leaves =>
    obtain ⟨p, hp, hloc⟩ := place_spec hs hc
    rw [find]
    simp only [toList] at hs hc hp hloc ⊢
    rw [hp]
    cases hloc with
    | found hcut hx => rw [lookup_of_found hcut hx]; rfl
    | gap hcut => rw [lookup_of_gap hcut]; rfl
  | link child entry rest ihc ihr =>
    obtain ⟨hsc, hsr, hcut⟩ := sorted_append_cons.mp hs
    have he := hc entry (by simp [toList])
    have hcc : Answers cmp k child.toList := fun x hx => hc x (by simp [toList, hx])
    have hcr : Answers cmp k rest.toList := fun x hx => hc x (by simp [toList, hx])
    cases hk : k.compare entry.sortKey with
    | lt =>
      rw [hk] at he
      -- all that follows the child is above the key
      have hright : lookup k (entry :: rest.toList) = none :=
        lookup_of_gap (Cut.leftmost (above_of_lt hk hcut.above))
      rw [find, he]
      show child.find cmp = _
      rw [ihc hsc hcc, toList]
      rw [lookup] at hright ⊢
      rw [lookup, List.find?_append, hright, Option.or_none]
    | eq =>
      rw [hk] at he
      obtain rfl := Key.compare_eq_iff.mp hk
      rw [find, he, toList, lookup_of_found hcut rfl]
    | gt =>
      rw [hk] at he
      -- the child and its entry are below the key
      have hleft : lookup k (child.toList ++ [entry]) = none :=
        List.append_nil (child.toList ++ [entry]) ▸
          lookup_of_gap (Cut.rightmost (below_of_gt hk hcut.below))
      rw [find, he]
      show rest.find cmp = _
      rw [ihr hsr hcr, toList, List.append_cons]
      rw [lookup] at hleft ⊢
      rw [lookup, List.find?_append, hleft, Option.none_or]

/-! ## Inserting

  As for looking up, with what is left of the chunk beside the outcome. Splitting the chunk itself
  is left to its parent, so a chunk without room answers with the place of the entry. -/

/-- The entries before the leaves. -/
def trunk : Chunk β → List (Entry β)
  | tail _ => []
  | link child entry rest => child.toList ++ entry :: rest.trunk

/-- The entries of a chunk are those of its trunk and its leaves. -/
theorem toList_eq_trunk (c : Chunk β) : c.toList = c.trunk ++ c.leaves := by
  induction c with
  | tail leaves => rfl
  | link child entry rest _ ih => simp [toList, trunk, leaves, ih]

/-- What is put in the place of the leaves comes behind the trunk. -/
theorem toList_withTail (c : Chunk β) (f : List (Entry β) → Chunk β) :
    (c.withTail f).toList = c.trunk ++ (f c.leaves).toList := by
  induction c with
  | tail leaves => rfl
  | link child entry rest _ ih => simp [withTail, toList, trunk, leaves, ih]

/-- However a chunk makes room, the entries stay in order and the new one comes in between. -/
theorem toList_split (c : Chunk β) (before : List (Entry β)) (e : Entry β)
    (after : List (Entry β)) :
    (c.split shape before e after).1.toList = c.trunk ++ (before ++ e :: after) := by
  have ne : before ++ e :: after ≠ [] := by simp
  unfold split
  dsimp only
  split
  -- the first leaf goes up between the old branches and a chunk of the other leaves
  · show (c.withTail fun _ => tail []).toList ++ _ :: _ = _
    rw [toList_withTail]
    show (c.trunk ++ []) ++ (before ++ e :: after).head ne :: (before ++ e :: after).tail = _
    rw [List.append_nil, List.cons_head_tail]
  -- all leaves but the last go down into a new child, which the last one follows
  · rw [toList_withTail]
    show c.trunk ++ ((before ++ e :: after).dropLast ++ [(before ++ e :: after).getLast ne]) = _
    rw [List.dropLast_concat_getLast]

/-- What an insertion comes to: the list changes where the key belongs, and nowhere else. -/
inductive Inserted (e : Entry β) (c : Chunk β) : Insertion β → Chunk β → Prop where
  | merged {before after : List (Entry β)} {old : Entry β} {c' : Chunk β} :
      c.toList = before ++ old :: after → Cut e.sortKey before after →
      old.sortKey = e.sortKey → c'.toList = before ++ { old with item := e.item } :: after →
      Inserted e c (.merged old.item) c'
  | added {before after : List (Entry β)} {c' : Chunk β} {depth index : Nat}
      {kind : Option SplitKind} :
      c.toList = before ++ after → Cut e.sortKey before after →
      c'.toList = before ++ e :: after → Inserted e c (.added depth index kind) c'
  /-- A chunk that is asked to be split has not been changed. -/
  | full {before after : List (Entry β)} :
      c.leaves = before ++ after → Cut e.sortKey (c.trunk ++ before) after →
      Inserted e c (.full before after) c

theorem attempt_tail {cmp : Handle → Except Fault Ordering} {e : Entry β}
    {leaves : List (Entry β)} (seen : Nat) (hs : Sorted leaves)
    (hc : Answers cmp e.sortKey leaves) :
    ∃ r c', (tail leaves).attempt shape cmp e seen = .ok r c' ∧ Inserted e (tail leaves) r c' := by
  obtain ⟨p, hp, hloc⟩ := place_spec hs hc
  rw [attempt, hp]
  cases hloc with
  | found hcut hx => exact ⟨_, _, rfl, Inserted.merged rfl hcut hx rfl⟩
  | @gap before after hcut =>
    dsimp only
    split
    · exact ⟨_, _, rfl, Inserted.added rfl hcut rfl⟩
    · exact ⟨_, _, rfl, Inserted.full rfl hcut⟩

/-- The insertion goes down into the child: what follows the child is above the key. -/
theorem attempt_child {cmp : Handle → Except Fault Ordering} {e entry : Entry β}
    {child child' rest : Chunk β} {r : Insertion β} (seen : Nat) (he : cmp entry.key = .ok .lt)
    (hr : child.attempt shape cmp e 0 = .ok r child') (hins : Inserted e child r child')
    (habove : ∀ x ∈ entry :: rest.toList, e.sortKey.compare x.sortKey = .lt) :
    ∃ r c', (link child entry rest).attempt shape cmp e seen = .ok r c' ∧
      Inserted e (link child entry rest) r c' := by
  rw [attempt, he]
  dsimp only
  rw [hr]
  cases hins with
  | merged hl hcut hkey hl' =>
    refine ⟨_, _, rfl, Inserted.merged ?_ (hcut.append habove) hkey ?_⟩
    · rw [toList, hl, List.append_assoc, List.cons_append]
    · rw [toList, hl', List.append_assoc, List.cons_append]
  | added hl hcut hl' =>
    refine ⟨_, _, rfl, Inserted.added ?_ (hcut.append habove) ?_⟩
    · rw [toList, hl, List.append_assoc]
    · rw [toList, hl', List.append_assoc, List.cons_append]
  | @full before after hl hcut =>
    -- a child without room is split here, by its parent, and with that the insertion is done
    refine ⟨.added 1 before.length (some (child.split shape before e after).2),
      link (child.split shape before e after).1 entry rest, rfl,
      Inserted.added ?_ (hcut.append habove) ?_⟩
    · rw [toList, toList_eq_trunk child, hl, List.append_assoc, List.append_assoc,
        List.append_assoc]
    · rw [toList, toList_split]
      simp only [List.append_assoc, List.cons_append]

/-- The insertion goes on to the right: the child and its entry are below the key. -/
theorem attempt_rest {cmp : Handle → Except Fault Ordering} {e entry : Entry β}
    {child rest rest' : Chunk β} {r : Insertion β} (seen : Nat) (he : cmp entry.key = .ok .gt)
    (hr : rest.attempt shape cmp e (seen + 1) = .ok r rest') (hins : Inserted e rest r rest')
    (hbelow : ∀ x ∈ child.toList ++ [entry], x.sortKey.compare e.sortKey = .lt) :
    ∃ r c', (link child entry rest).attempt shape cmp e seen = .ok r c' ∧
      Inserted e (link child entry rest) r c' := by
  -- What is put into the rest stands behind the child and the entry.
  have hlink : ∀ c : Chunk β, (link child entry c).toList = (child.toList ++ [entry]) ++ c.toList :=
    fun c => by rw [toList, List.append_assoc, List.singleton_append]
  rw [attempt, he]
  dsimp only
  rw [hr]
  refine ⟨r, link child entry rest', rfl, ?_⟩
  cases hins with
  | merged hl hcut hkey hl' =>
    refine Inserted.merged ?_ (hcut.prepend hbelow) hkey ?_
    · rw [hlink, hl, ← List.append_assoc]
    · rw [hlink, hl', ← List.append_assoc]
  | added hl hcut hl' =>
    refine Inserted.added ?_ (hcut.prepend hbelow) ?_
    · rw [hlink, hl, ← List.append_assoc]
    · rw [hlink, hl', ← List.append_assoc]
  | full hl hcut =>
    refine Inserted.full hl ?_
    have := hcut.prepend hbelow
    simpa [trunk] using this

/-- An insertion succeeds, and it changes the list at the place where its key belongs. -/
theorem attempt_spec {cmp : Handle → Except Fault Ordering} {e : Entry β} {c : Chunk β}
    (seen : Nat) (hs : Sorted c.toList) (hc : Answers cmp e.sortKey c.toList) :
    ∃ r c', c.attempt shape cmp e seen = .ok r c' ∧ Inserted e c r c' := by
  -- On the chunk, going where the search goes: sorted parts stay sorted, and the answers are those
  -- of the parts.
  induction c generalizing seen with
  | tail leaves => exact attempt_tail seen hs hc
  | link child entry rest ihc ihr =>
    obtain ⟨hsc, hsr, hcut⟩ := sorted_append_cons.mp hs
    have he := hc entry (by simp [toList])
    have hcc : Answers cmp e.sortKey child.toList := fun x hx => hc x (by simp [toList, hx])
    have hcr : Answers cmp e.sortKey rest.toList := fun x hx => hc x (by simp [toList, hx])
    cases hk : e.sortKey.compare entry.sortKey with
    | lt =>
      rw [hk] at he
      obtain ⟨r, child', hr, hins⟩ := ihc 0 hsc hcc
      exact attempt_child seen he hr hins (above_of_lt hk hcut.above)
    | eq =>
      rw [hk] at he
      have hkey := Key.compare_eq_iff.mp hk
      refine ⟨_, _, by rw [attempt, he], ?_⟩
      exact Inserted.merged rfl (hkey ▸ hcut) hkey.symm rfl
    | gt =>
      rw [hk] at he
      obtain ⟨r, rest', hr, hins⟩ := ihr (seen + 1) hsr hcr
      exact attempt_rest seen he hr hins (below_of_gt hk hcut.below)

/-- **A fault leaves the chunk as it was**, whatever the chunk holds and wherever the comparison
failed. -/
theorem attempt_error {cmp : Handle → Except Fault Ordering} {e : Entry β} {c c' : Chunk β}
    {seen : Nat} {f : Fault} (h : c.attempt shape cmp e seen = .error f c') : c' = c := by
  induction c generalizing seen c' f with
  | tail leaves =>
    rw [attempt] at h
    split at h
    · exact (EStateM.Result.error.inj h).2.symm
    · cases h
    · split at h <;> cases h
  | link child entry rest ihc ihr =>
    rw [attempt] at h
    split at h
    · exact (EStateM.Result.error.inj h).2.symm
    · cases h
    · -- only the fault of the child comes back as a fault
      split at h
      · rename_i hchild
        rw [← (EStateM.Result.error.inj h).2, ihc hchild]
      all_goals cases h
    · split at h
      · rename_i hrest
        rw [← (EStateM.Result.error.inj h).2, ihr hrest]
      · cases h

end Chunk

end BoxRuntime
