/-
  Operations balance.

  A heap is `Healthy` with some handles outside if its ledger is right and all trees in it are
  sound.  Both go together: an insertion into a tree keeps the handles that the tree had because the
  tree is sound, and a tree stays sound because only insertions change it.

  A patch is balanced (`Patch.Balanced`) if it makes handles of live boxes only, and if the handles
  that a container gains, those that the caller gains and those given up are, taken together, the
  ones that the container had, the ones that are made and the ones that the caller spends.  A
  balanced patch keeps a heap healthy (`Healthy.patch`), and the plans of all operations have
  balanced patches.

  The crux is a merge in a map: the entry keeps the key it has, so the new key gets no handle, and
  the value that is displaced is given up exactly once.
-/
import BoxRuntime.Proofs.Heap.Ledger
import BoxRuntime.Proofs.Machine.Plan
import BoxRuntime.Proofs.Tree.Contents

namespace BoxRuntime

/-! ## Healthy heaps

  The ledger and the soundness of all trees as one invariant, and the condition on a patch under
  which both survive it. -/

/-- The tree of a set or map is sound. -/
def Content.Sound : Content → Prop
  | .fixed | .list _ => True
  | .set tree => tree.Sound
  | .map tree => tree.Sound

/-- The content of a box that is new: it owns nothing. -/
structure Content.Blank (content : Content) : Prop where
  sound : content.Sound
  owns_nothing : content.handles = []

namespace Heap

/-- The ledger is right, and so are the trees. -/
structure Healthy (h : Heap) (outside : List Handle) : Prop where
  ledger : h.Ledger outside
  sound : ∀ id content, h.content? id = some content → content.Sound

/-- What a container has in place of what it had. -/
inductive Revision (h : Heap) : Option (Handle × Content) → List Handle → List Handle → Prop where
  | none : Revision h none [] []
  | some {v : Handle} {old new : Content} :
      h.content? v.id = some old → new.Sound → Revision h (some (v, new)) old.handles new.handles

/-- New handles of live boxes can be held outside. -/
theorem Ledger.retainAll {h : Heap} {vs outside : List Handle} (hl : h.Ledger outside)
    (hv : ∀ v ∈ vs, h.isLive v.id = true) : (h.retainAll vs).Ledger (vs ++ outside) := by
  -- On the handles: making one frees nothing, so the boxes of the others are still live.
  induction vs generalizing h outside with
  | nil => exact hl
  | cons v vs ih =>
    have hfirst : (h.retain v.id).Ledger (v :: outside) := hl.retain (hv v List.mem_cons_self)
    have hrest : ∀ w ∈ vs, (h.retain v.id).isLive w.id = true := by
      intro w hw
      rw [isLive_retain]
      exact hv w (List.mem_cons_of_mem _ hw)
    rw [retainAll_cons]
    exact (ih hfirst hrest).of_perm List.perm_middle.symm

end Heap

/-- A patch that makes handles of live boxes, spends the caller's handles `spent` and gives him
`gained`, and loses no handle on the way. -/
structure Patch.Balanced (h : Heap) (p : Patch) (spent gained : List Handle) : Prop where
  live : ∀ v ∈ p.retained, h.isLive v.id = true
  balance : ∃ old new, h.Revision p.revised old new ∧ ∀ k,
    tally k new + tally k gained + tally k p.dropped =
      tally k old + tally k p.retained + tally k spent

namespace Heap.Healthy

variable {h : Heap} {outside : List Handle}

theorem empty : Healthy {} [] := by
  refine ⟨Ledger.empty, ?_⟩
  intro id content hc
  cases id with
  | zero => cases hc
  | succ n => cases hc

/-- It does not matter in what order the handles outside are written. -/
theorem of_perm (hh : h.Healthy outside) {outside' : List Handle} (hp : outside'.Perm outside) :
    h.Healthy outside' :=
  ⟨hh.ledger.of_perm hp, hh.sound⟩

/-- A new box keeps a heap healthy if it owns nothing. -/
theorem alloc (hh : h.Healthy outside) (datum : Datum) {content : Content}
    (hb : content.Blank) :
    (h.alloc datum content).2.Healthy ((h.alloc datum content).1 :: outside) := by
  refine ⟨hh.ledger.alloc datum hb.owns_nothing, ?_⟩
  intro id c hc
  rw [content?, cell?_alloc] at hc
  -- The new box holds nothing; the others hold what they held.
  split at hc
  · obtain rfl := Option.some.inj hc
    exact hb.sound
  · exact hh.sound id c hc

/-- A balanced patch keeps a heap healthy. -/
theorem patch {p : Patch} {spent gained : List Handle} (hh : h.Healthy (spent ++ outside))
    (hb : p.Balanced h spent gained) : (h.patch p).Healthy (gained ++ outside) := by
  obtain ⟨hlive, old, new, hrevision, hbalance⟩ := hb
  have hretained := hh.ledger.retainAll hlive
  -- in the middle of the patch, what is to be given up is still outside
  unfold Heap.patch
  generalize hmiddle : (h.retainAll p.retained).revise p.revised = middle
  have hledger : middle.Ledger (p.dropped ++ (gained ++ outside)) := by
    subst hmiddle
    cases hrev : p.revised with
    | none =>
      rw [hrev] at hrevision
      cases hrevision
      refine hretained.of_tally_eq fun k => ?_
      have := hbalance k
      simp only [tally_append, tally_nil] at this ⊢
      omega
    | some r =>
      rw [hrev] at hrevision
      cases hrevision with
      | some hcontent hsound =>
        refine hretained.setContent ((content?_retainAll _ _ _).trans hcontent) fun k => ?_
        have := hbalance k
        simp only [tally_append] at this ⊢
        omega
  have hsound : ∀ id content, middle.content? id = some content → content.Sound := by
    subst hmiddle
    intro id content hc
    cases hrev : p.revised with
    | none =>
      rw [hrev, revise, content?_retainAll] at hc
      exact hh.sound id content hc
    | some r =>
      rw [hrev] at hrevision hc
      cases hrevision with
      | some hcontent hsound =>
        rw [revise, content?_setContent, content?_retainAll] at hc
        split at hc
        · obtain ⟨c, -, rfl⟩ := Option.map_eq_some_iff.mp hc
          exact hsound
        · exact hh.sound id content hc
  exact ⟨hledger.dropAll, fun id content hc => hsound id content (content?_dropAll hc)⟩

end Heap.Healthy

/-! ## What an insertion does to the handles

  The tree gains the handles of a new entry; of a merged one a set gains nothing and a map
  exchanges the item. -/

namespace SearchTree

/-- A set gains a handle of the new value, if there is a new entry. -/
theorem Change.tally_set {t t' : SetTree} {e : Entry Unit} {outcome : InsertOutcome Unit}
    (h : t.Change e outcome t') (k : Nat) :
    tally k (Content.set t').handles = tally k (Content.set t).handles +
      match outcome with
      | .added .. => tally k [e.key]
      | .merged _ => 0 := by
  simp only [Content.handles, toList_entries]
  cases h with
  | @merged before after old root hl hcut hkey hl' =>
    -- The tree keeps the key it had, so the handles are the same.
    have hroot : root.toList.map Entry.key = t.toList.map Entry.key := by
      rw [hl, hl', List.map_append]
    show tally k (root.toList.map Entry.key) = _
    rw [hroot]
    rfl
  | @added before after root depth index split hl hcut hl' =>
    -- One key more, somewhere among the others.
    have hroot : (root.toList.map Entry.key).Perm (e.key :: t.toList.map Entry.key) := by
      rw [hl, hl', List.map_append, List.map_append]
      exact List.perm_middle
    show tally k (root.toList.map Entry.key) = _
    rw [tally_perm hroot, tally_cons, Nat.add_comm]

/-- A map gains handles of the new key and value, if there is a new entry; otherwise it gains one
of the new value and loses the displaced one. -/
theorem Change.tally_map {t t' : MapTree} {e : Entry Handle} {outcome : InsertOutcome Handle}
    (h : t.Change e outcome t') (k : Nat) :
    match outcome with
    | .added .. => tally k (Content.map t').handles =
        tally k (Content.map t).handles + tally k [e.key, e.item]
    | .merged displaced => tally k (Content.map t').handles + tally k [displaced] =
        tally k (Content.map t).handles + tally k [e.item] := by
  simp only [Content.handles, toList_entries]
  cases h with
  | @merged before after old root hl hcut hkey hl' =>
    show tally k (root.toList.flatMap fun e => [e.key, e.item]) + tally k [old.item] = _
    rw [hl, hl']
    simp only [List.flatMap_append, List.flatMap_cons, tally_append, List.cons_append,
      List.nil_append]
    -- the entry keeps the old key box, so before and after differ in the item alone
    have hnew := tally_cons k old.key (e.item :: after.flatMap fun e => [e.key, e.item])
    have hold := tally_cons k old.key (old.item :: after.flatMap fun e => [e.key, e.item])
    have hnew' := tally_cons k e.item (after.flatMap fun e => [e.key, e.item])
    have hold' := tally_cons k old.item (after.flatMap fun e => [e.key, e.item])
    omega
  | @added before after root depth index split hl hcut hl' =>
    show tally k (root.toList.flatMap fun e => [e.key, e.item]) = _
    rw [hl, hl']
    simp only [List.flatMap_append, List.flatMap_cons, tally_append]
    omega

/-- The tree after an insertion is sound. -/
theorem Sound.insert {shape : Shape} {β : Type} {t t' : SearchTree shape β} (hs : t.Sound)
    {e : Entry β} {outcome : InsertOutcome β} (h : t.insert e = .ok outcome t') : t'.Sound := by
  obtain ⟨hchange, cmp, hr⟩ := change_of_insert hs h
  exact hchange.sound hs hr

end SearchTree

/-! ## New boxes

  A new box has an empty content, so making one asks nothing of the ledger but one handle for the
  caller. -/

namespace Plan

/-- The results of a sequence of reads are those of the last one. -/
theorem bind_eq_ok {α β : Type} {x : Except Fault α} {f : α → Except Fault β} {b : β} :
    -- Monadic code is taken apart by this lemma, so that no proof has to split it by hand.
    (x >>= f) = .ok b ↔ ∃ a, x = .ok a ∧ f a = .ok b := by
  cases x with
  | error e =>
    constructor
    · intro hb
      cases hb
    · rintro ⟨a, ha, -⟩
      cases ha
  | ok a =>
    constructor
    · intro hb
      exact ⟨a, rfl, hb⟩
    · rintro ⟨a', ha, hb⟩
      obtain rfl := Except.ok.inj ha
      exact hb

/-- A plan made from another succeeds if that does. -/
theorem map_eq_ok {α β : Type} {x : Except Fault α} {f : α → β} {b : β} :
    x.map f = .ok b ↔ ∃ a, x = .ok a ∧ f a = b := by
  cases x with
  | error e =>
    constructor
    · intro hb
      cases hb
    · rintro ⟨a, ha, -⟩
      cases ha
  | ok a =>
    constructor
    · intro hb
      exact ⟨a, rfl, Except.ok.inj hb⟩
    · rintro ⟨a', ha, hb⟩
      obtain rfl := Except.ok.inj ha
      exact congrArg Except.ok hb

end Plan

/-- The contents that boxes are made with own nothing and are sound. -/
theorem blank_fixed : Content.fixed.Blank :=
  ⟨trivial, rfl⟩

/-- A list is made empty, however much it reserves. -/
theorem blank_list {limit hint : Nat} {slots : GrowList Handle}
    (h : GrowList.ofHint limit hint = .ok slots) : (Content.list slots).Blank := by
  obtain ⟨capacity, -, rfl⟩ := Plan.map_eq_ok.mp h
  exact ⟨trivial, rfl⟩

/-- A set is made empty, whether or not its type is open. -/
theorem blank_set (elementType : Tag) : (Content.set (.new elementType)).Blank := by
  refine ⟨SearchTree.sound_new elementType, ?_⟩
  rw [Content.handles, SearchTree.toList_entries]
  rfl

theorem blank_map (keyType : Tag) : (Content.map (.new keyType)).Blank := by
  refine ⟨SearchTree.sound_new keyType, ?_⟩
  rw [Content.handles, SearchTree.toList_entries]
  rfl

/-! ## Plans balance

  One lemma for each plan: what it makes and what it gives up come out even with what the container
  and the caller gain. -/

namespace Plan

variable {h : Heap} {outside : List Handle} {p : Patch}

/-- A patch that makes handles for the caller. -/
theorem balanced_retained {vs : List Handle} (hv : ∀ v ∈ vs, h.isLive v.id = true) :
    ({ retained := vs } : Patch).Balanced h [] vs :=
  ⟨hv, [], [], .none, fun k => by simp⟩

/-- A patch that gives up handles of the caller. -/
theorem balanced_dropped (vs : List Handle) : ({ dropped := vs } : Patch).Balanced h vs [] :=
  ⟨List.forall_mem_nil _, [], [], .none, fun k => by simp⟩

/-- A release takes the handle from the caller. -/
theorem release_balanced {v : Handle} {deep : Bool} {n : Nat}
    (hp : release h v deep = .ok (n, p)) : p.Balanced h [v] [] := by
  unfold release at hp
  split at hp
  · cases hp
  · obtain ⟨-, rfl⟩ := Prod.mk.inj (Except.ok.inj hp)
    exact balanced_dropped [v]

/-- The only release that fails is a deep one, of a container's last handle. -/
theorem release_eq_error {v : Handle} {deep : Bool} {f : Fault}
    (hp : release h v deep = .error f) : deep = true ∧ f = .unsupported "release" v.tag := by
  unfold release at hp
  split at hp
  · rename_i hlost
    exact ⟨hlost.2.1, (Except.error.inj hp).symm⟩
  · cases hp

/-- A handle that is made for the caller is the caller's. -/
theorem upgrade_balanced (v : Handle) :
    (upgrade h v).2.Balanced h [] (upgrade h v).1.toList := by
  unfold upgrade
  split
  · rename_i hlive
    refine balanced_retained fun w hw => ?_
    obtain rfl := List.mem_singleton.mp hw
    exact hlive
  · exact balanced_retained (List.forall_mem_nil _)

/-- The list gets a handle of its own, and the caller keeps the one it has. -/
theorem listAppend_balanced {limit : Nat} {list v : Handle} (hh : h.Healthy outside)
    (hv : v ∈ outside) (hp : listAppend limit h list v = .ok ((), p)) : p.Balanced h [] [] := by
  -- The box is a list and has a slot.
  obtain ⟨slots, hslots, hp⟩ := bind_eq_ok.mp hp
  obtain ⟨capacity, -, hp⟩ := bind_eq_ok.mp hp
  obtain ⟨-, rfl⟩ := Prod.mk.inj (Except.ok.inj hp)
  refine ⟨?_, _, _, .some (Heap.content?_of_listOf hslots) trivial, ?_⟩
  · intro w hw
    obtain rfl := List.mem_singleton.mp hw
    exact hh.ledger.live_of_mem hv
  · -- The list gains the handle that is made.
    intro k
    simp only [Content.handles, GrowList.toList_store, tally_append, tally_nil]

/-- An element that is given out comes with a new handle. -/
theorem pick_balanced {slots : GrowList Handle} (i : Nat)
    (hlive : ∀ v ∈ slots.toList, h.isLive v.id = true) :
    (pick slots i).2.Balanced h [] (pick slots i).1.toList := by
  unfold pick
  split
  · rename_i v hv
    refine balanced_retained fun w hw => ?_
    rw [List.mem_singleton.mp hw]
    refine hlive v ?_
    rw [GrowList.get?, ← Array.getElem?_toList] at hv
    exact List.mem_of_getElem? hv
  · exact balanced_retained (List.forall_mem_nil _)

theorem listGet_balanced {list : Handle} {i : Nat} {found : Option Handle}
    (hh : h.Healthy outside) (hp : listGet h list i = .ok (found, p)) :
    p.Balanced h [] found.toList := by
  obtain ⟨slots, hslots, hp⟩ := bind_eq_ok.mp hp
  have hbalanced := pick_balanced (h := h) i fun v hv =>
    hh.ledger.live_of_held (Heap.content?_of_listOf hslots) hv
  rw [Except.ok.inj hp] at hbalanced
  exact hbalanced

/-- The set gets a handle of a new value and none of one that it has. -/
theorem setAdd_balanced {set v : Handle} (hh : h.Healthy outside) (hv : v ∈ outside)
    (hp : setAdd h set v = .ok ((), p)) : p.Balanced h [] [] := by
  -- The plan has succeeded, so the set is one and the tree has taken the element.
  obtain ⟨tree, htree, hp⟩ := bind_eq_ok.mp hp
  obtain ⟨⟨outcome, grown⟩, hinsert, hp⟩ := bind_eq_ok.mp hp
  have hinsert := completed_eq_ok.mp hinsert
  have hcontent := Heap.content?_of_setOf htree
  have hsound : tree.Sound := hh.sound _ _ hcontent
  have hgrown : grown.Sound := hsound.insert hinsert
  obtain ⟨hchange, -⟩ := SearchTree.change_of_insert hsound hinsert
  cases outcome with
  | added depth index split =>
    obtain ⟨-, rfl⟩ := Prod.mk.inj (Except.ok.inj hp)
    -- The new key is the handle that is retained.
    refine ⟨?_, _, _, .some hcontent hgrown, ?_⟩
    · intro w hw
      obtain rfl := List.mem_singleton.mp hw
      exact hh.ledger.live_of_mem hv
    · intro k
      have := hchange.tally_set k
      simp only [tally_nil]
      omega
  | merged displaced =>
    obtain ⟨-, rfl⟩ := Prod.mk.inj (Except.ok.inj hp)
    -- Nothing is retained, and the tree holds as many handles of each box as before.
    refine ⟨List.forall_mem_nil _, _, _, .some hcontent hgrown, ?_⟩
    intro k
    have := hchange.tally_set k
    simp only [tally_nil]
    omega

/-- Each element that is listed comes with a new handle. -/
theorem setElements_balanced {set : Handle} {values : List Handle} (hh : h.Healthy outside)
    (hp : setElements h set = .ok (values, p)) : p.Balanced h [] values := by
  obtain ⟨tree, htree, hp⟩ := bind_eq_ok.mp hp
  obtain ⟨rfl, rfl⟩ := Prod.mk.inj (Except.ok.inj hp)
  exact balanced_retained fun v hv => hh.ledger.live_of_held (Heap.content?_of_setOf htree) hv

/-- The map gets handles of a new key and its value.  Of a key that it has it keeps the handle, and
the value that was there is given up. -/
theorem mapAdd_balanced {map key value : Handle} (hh : h.Healthy outside) (hk : key ∈ outside)
    (hv : value ∈ outside) (hp : mapAdd h map key value = .ok ((), p)) :
    p.Balanced h [] [] := by
  obtain ⟨tree, htree, hp⟩ := bind_eq_ok.mp hp
  obtain ⟨⟨outcome, grown⟩, hinsert, hp⟩ := bind_eq_ok.mp hp
  have hinsert := completed_eq_ok.mp hinsert
  have hcontent := Heap.content?_of_mapOf htree
  have hsound : tree.Sound := hh.sound _ _ hcontent
  have hgrown : grown.Sound := hsound.insert hinsert
  obtain ⟨hchange, -⟩ := SearchTree.change_of_insert hsound hinsert
  have hkey := hh.ledger.live_of_mem hk
  have hvalue := hh.ledger.live_of_mem hv
  have hboth : ∀ w ∈ [key, value], h.isLive w.id = true := by
    intro w hw
    rcases List.mem_cons.mp hw with rfl | hw
    · exact hkey
    · obtain rfl := List.mem_singleton.mp hw
      exact hvalue
  -- a new entry takes both handles, a merged one takes the value and gives two up
  cases outcome with
  | added depth index split =>
    obtain ⟨-, rfl⟩ := Prod.mk.inj (Except.ok.inj hp)
    refine ⟨hboth, _, _, .some hcontent hgrown, ?_⟩
    intro k
    have := hchange.tally_map k
    simp only [tally_nil]
    omega
  | merged displaced =>
    obtain ⟨-, rfl⟩ := Prod.mk.inj (Except.ok.inj hp)
    refine ⟨hboth, _, _, .some hcontent hgrown, ?_⟩
    intro k
    have hchanged : tally k (Content.map grown).handles + tally k [displaced] =
        tally k (Content.map tree).handles + tally k [value] := hchange.tally_map k
    -- the handle of the key cancels
    have hmade := tally_cons k key [value]
    have hgiven := tally_cons k displaced [key]
    simp only [tally_nil]
    omega

/-- Asking leaves all handles where they are. -/
theorem setContains_balanced {set v : Handle} {found : Bool}
    (hp : setContains h set v = .ok (found, p)) : p.Balanced h [] [] := by
  obtain ⟨tree, -, hp⟩ := bind_eq_ok.mp hp
  obtain ⟨e, -, hp⟩ := bind_eq_ok.mp hp
  obtain ⟨-, rfl⟩ := Prod.mk.inj (Except.ok.inj hp)
  exact balanced_retained (List.forall_mem_nil _)

theorem treeStats_balanced {v : Handle} {stats : TreeStats}
    (hp : treeStats h v = .ok (stats, p)) : p.Balanced h [] [] := by
  unfold treeStats at hp
  split at hp
  · obtain ⟨-, rfl⟩ := Prod.mk.inj (Except.ok.inj hp)
    exact balanced_retained (List.forall_mem_nil _)
  · obtain ⟨-, rfl⟩ := Prod.mk.inj (Except.ok.inj hp)
    exact balanced_retained (List.forall_mem_nil _)
  · cases hp

/-- The value that a sound tree has under a key is one of its items. -/
theorem mem_of_valueOf {tree : MapTree} (hs : tree.Sound) {key v : Handle}
    (hv : valueOf tree key = .ok v) : ∃ e ∈ tree.toList, e.item = v := by
  unfold valueOf at hv
  split at hv
  · cases hv
  · rename_i expected htype
    -- Only a key of the right type is looked up, and only in a map that is not empty.
    by_cases hne : expected ≠ key.tag
    · rw [if_pos hne] at hv
      cases hv
    · rw [if_neg hne] at hv
      by_cases hempty : tree.isEmpty
      · rw [if_pos hempty] at hv
        cases hv
      · rw [if_neg hempty, SearchTree.find_of_type hs (htype.trans (by simpa using hne))] at hv
        cases hfound : Assoc.lookup key.toKey tree.toList with
        | none =>
          rw [hfound] at hv
          cases hv
        | some e =>
          rw [hfound] at hv
          exact ⟨e, (Assoc.lookup_eq_some hfound).1, Except.ok.inj hv⟩

/-- A value that is found comes with a new handle. -/
theorem mapGet_balanced {map key v : Handle} (hh : h.Healthy outside)
    (hp : mapGet h map key = .ok (v, p)) : p.Balanced h [] [v] := by
  obtain ⟨tree, htree, hp⟩ := bind_eq_ok.mp hp
  obtain ⟨w, hw, hp⟩ := bind_eq_ok.mp hp
  obtain ⟨rfl, rfl⟩ := Prod.mk.inj (Except.ok.inj hp)
  have hcontent := Heap.content?_of_mapOf htree
  obtain ⟨e, he, rfl⟩ := mem_of_valueOf (hh.sound _ _ hcontent) hw
  refine balanced_retained fun u hu => ?_
  -- The item is a handle that the map holds, so its box is live.
  rw [List.mem_singleton.mp hu]
  refine hh.ledger.live_of_held hcontent ?_
  simp only [Content.handles, SearchTree.toList_entries]
  exact List.mem_flatMap.mpr ⟨e, he, by simp⟩

theorem mapEntries_balanced {map : Handle} {pairs : List (Handle × Handle)}
    (hh : h.Healthy outside) (hp : mapEntries h map = .ok (pairs, p)) :
    p.Balanced h [] (pairs.flatMap fun p => [p.1, p.2]) := by
  obtain ⟨tree, htree, hp⟩ := bind_eq_ok.mp hp
  obtain ⟨rfl, rfl⟩ := Prod.mk.inj (Except.ok.inj hp)
  refine balanced_retained fun v hv => ?_
  refine hh.ledger.live_of_held (Heap.content?_of_mapOf htree) ?_
  rw [List.flatMap_map] at hv
  exact hv

/-- An element that an int box picks is one that a position picks. -/
theorem listIndex_balanced {list index v : Handle} (hh : h.Healthy outside)
    (hp : listIndex h list index = .ok (v, p)) : p.Balanced h [] [v] := by
  unfold listIndex at hp
  cases hn : index.int? with
  | none =>
    rw [hn] at hp
    cases hp
  | some n =>
    rw [hn] at hp
    dsimp only at hp
    by_cases hneg : n.toInt < 0
    · rw [if_pos hneg] at hp
      cases hp
    · rw [if_neg hneg] at hp
      obtain ⟨slots, hslots, hp⟩ := bind_eq_ok.mp hp
      -- the elements are live because the list is
      have hbalanced := pick_balanced (h := h) n.toInt.toNat fun v hv =>
        hh.ledger.live_of_held (Heap.content?_of_listOf hslots) hv
      split at hp
      · rename_i hpick
        obtain ⟨rfl, rfl⟩ := Prod.mk.inj (Except.ok.inj hp)
        rw [hpick] at hbalanced
        exact hbalanced
      · cases hp

/-- Whatever the collection, what is found comes with a new handle. -/
theorem indexOf_balanced {collection key v : Handle} (hh : h.Healthy outside)
    (hp : indexOf h collection key = .ok (v, p)) : p.Balanced h [] [v] := by
  unfold indexOf at hp
  split at hp
  · exact listIndex_balanced hh hp
  · exact mapGet_balanced hh hp
  · cases hp

end Plan

end BoxRuntime
