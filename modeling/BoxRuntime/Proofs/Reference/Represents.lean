/-
  Boxes represent objects.

  The content of a box shows an object (`Shows`) if the list has the elements in its slots, or if
  the tree has an entry under each key of the set or map and no other.  A heap represents a store of
  objects if boxes and objects have the same numbers and every live box shows its object
  (`Represents`).  Of a box that was freed nothing is said; its object is still there.

  Plans and the operations on objects then come to the same, faults included (`same_…`).  The crux
  is that handles do not come into it: making and giving up handles may free boxes and changes no
  content, so a patch matters only for the content that it revises.
-/
import BoxRuntime.Proofs.GrowList
import BoxRuntime.Proofs.Machine.Balance
import BoxRuntime.Proofs.Reference.Store

namespace BoxRuntime

namespace Reference

/-! ## Results that are the same

  Equal faults, or results in a relation, so that reads can be followed one after another. -/

/-- Both fail with one fault, or their results are related. -/
def Same {α β : Type} (P : α → β → Prop) : Except Fault α → Except Fault β → Prop
  | .ok a, .ok b => P a b
  | .error f, .error g => g = f
  | _, _ => False

/-- Two computations one after another have the same outcome if each does, where the second may rely
on the first. -/
theorem Same.bind {α α' β β' : Type} {P : α → β → Prop} {Q : α' → β' → Prop}
    {x : Except Fault α} {y : Except Fault β} {k : α → Except Fault α'} {l : β → Except Fault β'}
    (hxy : Same P x y) (hkl : ∀ a b, x = .ok a → P a b → Same Q (k a) (l b)) :
    Same Q (x >>= k) (y >>= l) := by
  -- A fault of one is the same fault of the other, and then neither goes on.
  cases x with
  | error f =>
    cases y with
    | error g => exact hxy
    | ok b => exact hxy.elim
  | ok a =>
    cases y with
    | error g => exact hxy.elim
    | ok b => exact hkl a b rfl hxy

/-! ## Contents

  A tree is compared with a finite map by lookups, and a list with a list by its elements. -/

/-- The box looks like the object. -/
inductive Shows : Content → Object → Prop where
  | fixed : Shows .fixed .fixed
  | list (slots : GrowList Handle) : Shows (.list slots) (.list slots.toList)
  | set {tree : SetTree} {keys : Finset Key}
      (hkeys : ∀ k, k ∈ keys ↔ ∃ e, Assoc.lookup k tree.toList = some e) :
      Shows (.set tree) (.set tree.elementType keys)
  | map {tree : MapTree} {values : Finmap fun _ : Key => Handle}
      (hvalues : ∀ k, values.lookup k = (Assoc.lookup k tree.toList).map Entry.item) :
      Shows (.map tree) (.map tree.elementType values)

end Reference

namespace SearchTree

open Assoc

variable {shape : Shape} {β : Type} {t t' : SearchTree shape β}

/-- A sound tree has as many entries as it has keys. -/
theorem Sound.card_keys (hs : t.Sound) {keys : Finset Key}
    (hkeys : ∀ k, k ∈ keys ↔ ∃ e, Assoc.lookup k t.toList = some e) : keys.card = t.size := by
  -- keys that increase are distinct, so counting keys is counting entries
  have hnodup : (t.toList.map Entry.sortKey).Nodup := by
    refine List.Pairwise.map _ ?_ hs.sorted
    intro a b hlt heq
    rw [Key.compare_eq_iff.mpr heq] at hlt
    cases hlt
  have hsame : keys = (t.toList.map Entry.sortKey).toFinset := by
    ext k
    rw [hkeys, List.mem_toFinset, List.mem_map]
    constructor
    · rintro ⟨e, he⟩
      exact ⟨e, lookup_eq_some he⟩
    · rintro ⟨e, he, rfl⟩
      exact ⟨e, hs.sorted.lookup_eq_some_iff.mpr ⟨he, rfl⟩⟩
  rw [hsame, List.toFinset_card_of_nodup hnodup, List.length_map, hs.size_eq]

/-- What is found in a tree after an insertion. -/
theorem Change.lookup_eq {e : Entry β} {outcome : InsertOutcome β} (hs : t.Sound)
    (h : t.Change e outcome t') (k : Key) :
    lookup k t'.toList =
      if e.sortKey = k then some { key := ((lookup k t.toList).getD e).key, item := e.item }
      else lookup k t.toList := by
  rw [h.toList_eq]
  exact hs.sorted.lookup_upsert e k

end SearchTree

namespace Reference

/-- A tree takes the keys that a set or map of objects takes. -/
theorem same_resolve {shape : Shape} {β : Type} (t : SearchTree shape β) (tag : Tag) :
    Same (fun _ type => type = tag) (t.resolve tag) (Store.accept t.elementType tag) := by
  -- Both know the same types as keys.
  have hkey : Same (fun _ type => type = tag) (comparator tag)
      (if Store.isKey tag then .ok tag else .error (.unordered tag)) := by
    cases tag <;> rfl
  unfold SearchTree.resolve Store.accept
  -- A type that is open takes any key; one that is settled takes only keys of its own.
  cases t.elementType with
  | none => exact hkey
  | some expected =>
    dsimp only
    by_cases he : expected = tag
    · rw [if_pos he, if_neg (not_not_intro he), he]
      exact hkey
    · rw [if_neg he, if_pos he]
      rfl

/-- An insertion into a sound tree is taken or refused by the type of its key. -/
theorem same_insert {shape : Shape} {β : Type} {t : SearchTree shape β} (hs : t.Sound)
    (e : Entry β) :
    Same (fun r type => r.2.elementType = some type ∧ ∀ k,
        Assoc.lookup k r.2.toList =
          if e.sortKey = k then
            some { key := ((Assoc.lookup k t.toList).getD e).key, item := e.item }
          else Assoc.lookup k t.toList)
      (completed (t.insert e)) (Store.accept t.elementType e.key.tag) := by
  -- Whether the tree takes the key is settled by the types; if it does, it inserts and cannot fail.
  have hresolve := same_resolve t e.key.tag
  cases hr : t.resolve e.key.tag with
  | error f =>
    rw [hr] at hresolve
    rw [SearchTree.insert_of_resolve_error hr]
    cases haccept : Store.accept t.elementType e.key.tag with
    | error g =>
      rw [haccept] at hresolve
      exact hresolve
    | ok type =>
      rw [haccept] at hresolve
      exact hresolve.elim
  | ok cmp =>
    rw [hr] at hresolve
    obtain ⟨outcome, t', hinsert, hchange⟩ := SearchTree.insert_of_resolve hs hr
    rw [hinsert]
    cases haccept : Store.accept t.elementType e.key.tag with
    | error g =>
      rw [haccept] at hresolve
      exact hresolve.elim
    | ok type =>
      rw [haccept] at hresolve
      obtain rfl : type = e.key.tag := hresolve
      exact ⟨hchange.elementType_eq hs hr, hchange.lookup_eq hs⟩

/-! ## Heaps

  Numbers and contents correspond. Counts do not come into it, and what was freed still has its
  object. -/

/-- The boxes of the heap show the objects of the store.  No list has more than so many elements. -/
structure Represents (n : Nat) (h : Heap) (w : Store) : Prop where
  next : h.nextId = w.objects.size + 1
  shows : ∀ id content, h.content? id = some content →
    ∃ object, w.object? id = some object ∧ Shows content object
  short : ∀ id slots, h.content? id = some (.list slots) → slots.size ≤ n

/-- An empty heap represents an empty store. -/
theorem represents_empty (n : Nat) : Represents n {} {} := by
  have hnone : ∀ id, ({} : Heap).content? id = none := by
    intro id
    cases id <;> rfl
  refine ⟨rfl, ?_, ?_⟩
  · intro id content hc
    rw [hnone] at hc
    cases hc
  · intro id slots hc
    rw [hnone] at hc
    cases hc

namespace Store

theorem object?_make (w : Store) (datum : Datum) (object : Object) (id : Nat) :
    (w.make datum object).2.object? id =
      if id = w.objects.size + 1 then some object else w.object? id := by
  cases id with
  | zero => rfl
  | succ i =>
    -- The new object is the last.
    show (w.objects.push object)[i]? = _
    rw [Array.getElem?_push]
    by_cases hi : i = w.objects.size
    · rw [if_pos hi, if_pos (congrArg (· + 1) hi)]
    · rw [if_neg hi, if_neg fun heq => hi (Nat.succ.inj heq)]
      rfl

/-- A new object is put in the place of the old one, and the others stay. -/
theorem object?_put {w : Store} {v : Handle} {old : Object} (hold : w.object? v.id = some old)
    (object : Object) (id : Nat) :
    (w.put v object).object? id = if id = v.id then some object else w.object? id := by
  -- The number 0 is that of no object.
  cases hv : v.id with
  | zero =>
    rw [hv] at hold
    cases hold
  | succ j =>
    -- An object that is there is in the range, so what is put is not lost.
    rw [hv] at hold
    have hj : j < w.objects.size := by
      by_contra hge
      have hnone : w.objects[j]? = none := Array.getElem?_eq_none (Nat.le_of_not_lt hge)
      have hsome : w.objects[j]? = some old := hold
      rw [hnone] at hsome
      cases hsome
    cases id with
    | zero => rfl
    | succ i =>
      show (w.objects.setIfInBounds (v.id - 1) object)[i]? = _
      rw [hv, Nat.add_sub_cancel, Array.getElem?_setIfInBounds]
      by_cases hi : j = i
      · rw [if_pos hi, if_pos hj, if_pos (congrArg (· + 1) hi.symm)]
      · rw [if_neg hi, if_neg fun heq => hi (Nat.succ.inj heq).symm]
        rfl

end Store

namespace Represents

variable {n : Nat} {h : Heap} {w : Store}

/-- A bound on the lengths of lists can be raised. -/
theorem mono (hr : Represents n h w) {m : Nat} (hm : n ≤ m) : Represents m h w :=
  ⟨hr.next, hr.shows, fun id slots hc => Nat.le_trans (hr.short id slots hc) hm⟩

/-- A new box and a new object have the same handle. -/
theorem handle_alloc (hr : Represents n h w) (datum : Datum) (content : Content)
    (object : Object) : (w.make datum object).1 = (h.alloc datum content).1 :=
  congrArg (fun id => Handle.mk id datum) hr.next.symm

theorem alloc (hr : Represents n h w) (datum : Datum) {content : Content} {object : Object}
    (hshows : Shows content object) (hshort : ∀ slots, content = .list slots → slots.size ≤ n) :
    Represents n (h.alloc datum content).2 (w.make datum object).2 := by
  -- The new box has the new content, and the others have theirs.
  have hcontent : ∀ id, (h.alloc datum content).2.content? id =
      if id = h.nextId then some content else h.content? id := by
    intro id
    rw [Heap.content?, Heap.content?, Heap.cell?_alloc]
    split <;> rfl
  -- The next numbers agree, each content shows its object, and lists are short enough.
  refine ⟨?_, ?_, ?_⟩
  · rw [Heap.nextId_alloc, hr.next]
    show _ = (w.objects.push object).size + 1
    rw [Array.size_push]
  · intro id c hc
    rw [hcontent] at hc
    rw [Store.object?_make, ← hr.next]
    by_cases hid : id = h.nextId
    · rw [if_pos hid] at hc ⊢
      obtain rfl := Option.some.inj hc
      exact ⟨object, rfl, hshows⟩
    · rw [if_neg hid] at hc ⊢
      exact hr.shows id c hc
  · intro id slots hc
    rw [hcontent] at hc
    by_cases hid : id = h.nextId
    · rw [if_pos hid] at hc
      exact hshort slots (Option.some.inj hc)
    · rw [if_neg hid] at hc
      exact hr.short id slots hc

theorem patch (hr : Represents n h w) {p : Patch} (hp : p.revised = none) :
    Represents n (h.patch p) w := by
  -- what is live after the patch was live before it, with the same content
  have hback : ∀ id content, (h.patch p).content? id = some content →
      h.content? id = some content := by
    intro id content hc
    have hbefore := Heap.content?_dropAll hc
    rw [hp, Heap.revise, Heap.content?_retainAll] at hbefore
    exact hbefore
  refine ⟨?_, ?_, ?_⟩
  · rw [Heap.nextId_patch, hr.next]
  · exact fun id content hc => hr.shows id content (hback id content hc)
  · exact fun id slots hc => hr.short id slots (hback id _ hc)

/-- A container is changed as the object is that it shows. -/
theorem revise (hr : Represents n h w) {p : Patch} {v : Handle} {old content : Content}
    {object : Object} (hp : p.revised = some (v, content)) (hold : h.content? v.id = some old)
    (hshows : Shows content object) {m : Nat} (hm : n ≤ m)
    (hshort : ∀ slots, content = .list slots → slots.size ≤ m) :
    Represents m (h.patch p) (w.put v object) := by
  obtain ⟨before, hbefore, -⟩ := hr.shows v.id old hold
  -- the same but for the box that was revised, which may be freed by the patch as well
  have hback : ∀ id c, (h.patch p).content? id = some c →
      if id = v.id then content = c else h.content? id = some c := by
    intro id c hc
    have hrevised := Heap.content?_dropAll hc
    rw [hp, Heap.revise, Heap.content?_setContent, Heap.content?_retainAll] at hrevised
    by_cases hid : id = v.id
    · rw [if_pos hid, hid, hold] at hrevised
      rw [if_pos hid]
      exact Option.some.inj hrevised
    · rw [if_neg hid] at hrevised
      rw [if_neg hid]
      exact hrevised
  refine ⟨?_, ?_, ?_⟩
  · rw [Heap.nextId_patch, hr.next]
    show _ = (w.objects.setIfInBounds (v.id - 1) object).size + 1
    rw [Array.size_setIfInBounds]
  · intro id c hc
    have hcase := hback id c hc
    rw [Store.object?_put hbefore]
    by_cases hid : id = v.id
    · rw [if_pos hid] at hcase ⊢
      exact ⟨object, rfl, hcase ▸ hshows⟩
    · rw [if_neg hid] at hcase ⊢
      exact hr.shows id c hcase
  · intro id slots hc
    have hcase := hback id _ hc
    by_cases hid : id = v.id
    · rw [if_pos hid] at hcase
      exact hshort slots hcase
    · rw [if_neg hid] at hcase
      exact Nat.le_trans (hr.short id slots hcase) hm

end Represents

/-! ## Reading

  A live box shows its object, so reading the one fails when and as reading the other does. -/

section

variable {n : Nat} {h : Heap} {w : Store} {v : Handle}

/-- A live box shows an object. -/
theorem Represents.object (hr : Represents n h w) (hv : h.isLive v.id = true) :
    ∃ content object, h.content? v.id = some content ∧ w.object? v.id = some object ∧
      Shows content object := by
  obtain ⟨cell, hcell⟩ := Heap.isLive_iff.mp hv
  have hc : h.content? v.id = some cell.content := by rw [Heap.content?, hcell]; rfl
  obtain ⟨object, hobject, hshows⟩ := hr.shows v.id cell.content hc
  exact ⟨cell.content, object, hc, hobject, hshows⟩

/-- Where the heap has a list, the store has one with the same elements. -/
theorem same_listOf (hr : Represents n h w) (hv : h.isLive v.id = true) (operation : String) :
    Same (fun slots elements => elements = slots.toList) (h.listOf operation v)
      (w.listOf operation v) := by
  obtain ⟨content, object, hc, ho, hshows⟩ := hr.object hv
  unfold Heap.listOf Store.listOf
  rw [hc, ho]
  cases hshows <;> rfl

/-- Where it has a set, the store has one with the same keys. -/
theorem same_setOf (hr : Represents n h w) (hv : h.isLive v.id = true) (operation : String) :
    Same (fun tree r => r.1 = tree.elementType ∧ ∀ k, k ∈ r.2 ↔
        ∃ e, Assoc.lookup k tree.toList = some e)
      (h.setOf operation v) (w.setOf operation v) := by
  -- The box is live, so it shows an object, and the object tells which kind of content it is.
  obtain ⟨content, object, hc, ho, hshows⟩ := hr.object hv
  unfold Heap.setOf Store.setOf
  rw [hc, ho]
  cases hshows with
  | set hkeys => exact ⟨rfl, hkeys⟩
  | _ => rfl

/-- Where it has a map, the store has one with the same keys and values. -/
theorem same_mapOf (hr : Represents n h w) (hv : h.isLive v.id = true) (operation : String) :
    Same (fun tree r => r.1 = tree.elementType ∧ ∀ k,
        r.2.lookup k = (Assoc.lookup k tree.toList).map Entry.item)
      (h.mapOf operation v) (w.mapOf operation v) := by
  obtain ⟨content, object, hc, ho, hshows⟩ := hr.object hv
  unfold Heap.mapOf Store.mapOf
  rw [hc, ho]
  cases hshows with
  | map hvalues => exact ⟨rfl, hvalues⟩
  | _ => rfl

end

/-! ## Operations

  Each plan against the operation on objects: the same fault, or the same result and a patched heap
  that represents the new store. -/

/-- The plan of an operation and the operation on objects come to the same. -/
def Agree {α : Type} (n : Nat) (h : Heap) (plan : Except Fault (α × Patch))
    (done : Except Fault (α × Store)) : Prop :=
  Same (fun r d => d.1 = r.1 ∧ Represents n (h.patch r.2) d.2) plan done

section

variable {n : Nat} {h : Heap} {w : Store} {outside : List Handle}

/-- **Appending.** The list grows only as far as there is room for all lists. -/
theorem same_listAppend (hr : Represents n h w) {limit : Nat} (hroom : Granted limit (2 * n))
    {list : Handle} (hlist : h.isLive list.id = true) (v : Handle) :
    Agree (n + 1) h (Plan.listAppend limit h list v) (w.listAppend list v) := by
  refine (same_listOf hr hlist "list_append").bind fun slots elements hslots helements => ?_
  have hcontent := Heap.content?_of_listOf hslots
  have hshort := hr.short list.id slots hcontent
  -- the allocator is asked for no more than twice the elements, and has room for that
  have hcapacity : ∃ capacity, slots.reservation limit = .ok capacity := by
    by_cases hfull : slots.size = slots.capacity
    · have hgranted : Granted limit (2 * slots.capacity) := hroom.mono (by omega)
      exact ⟨_, GrowList.reservation_of_full hfull hgranted⟩
    · exact ⟨_, GrowList.reservation_of_free hfull⟩
  obtain ⟨capacity, hcapacity⟩ := hcapacity
  rw [hcapacity]
  refine ⟨rfl, ?_⟩
  have hshows := Shows.list (slots.store capacity v)
  rw [GrowList.toList_store, ← helements] at hshows
  refine hr.revise rfl hcontent hshows (Nat.le_succ n) ?_
  intro slots' heq
  obtain rfl := Content.list.inj heq
  rw [GrowList.size_store]
  exact Nat.succ_le_succ hshort

/-- Reading an element by its position. -/
theorem same_listGet (hr : Represents n h w) {list : Handle} (hlist : h.isLive list.id = true)
    (i : Nat) : Agree n h (Plan.listGet h list i) (w.listGet list i) := by
  refine (same_listOf hr hlist "list_get").bind fun slots elements _ helements => ?_
  have hget : elements[i]? = slots.get? i := by
    rw [helements]
    exact Array.getElem?_toList
  -- The list of the reference is the slots as a list.
  unfold Plan.pick
  rw [hget]
  cases slots.get? i with
  | some v => exact ⟨rfl, hr.patch rfl⟩
  | none => exact ⟨rfl, hr.patch rfl⟩

/-- **Adding to a set.** Whatever chunks the tree splits, it has one key more, or none. -/
theorem same_setAdd (hr : Represents n h w) (hh : h.Healthy outside) {set : Handle}
    (hset : h.isLive set.id = true) (v : Handle) :
    Agree n h (Plan.setAdd h set v) (w.setAdd set v) := by
  refine (same_setOf hr hset "set_add").bind ?_
  rintro tree ⟨elementType, keys⟩ htree ⟨rfl, hkeys⟩
  have hcontent := Heap.content?_of_setOf htree
  have hsound : tree.Sound := hh.sound _ _ hcontent
  refine (same_insert hsound { key := v, item := () }).bind ?_
  rintro ⟨outcome, grown⟩ type - ⟨htype, hlookup⟩
  -- a value that was there keeps its first box, but its key is all that the set of objects has
  have hgrown : ∀ k, k ∈ insert v.toKey keys ↔ ∃ e, Assoc.lookup k grown.toList = some e := by
    intro k
    rw [hlookup, Finset.mem_insert, hkeys]
    by_cases hk : k = v.toKey
    · have hkey : (Entry.mk v ()).sortKey = k := hk.symm
      rw [if_pos hkey]
      exact ⟨fun _ => ⟨_, rfl⟩, fun _ => Or.inl hk⟩
    · have hkey : ¬(Entry.mk v ()).sortKey = k := fun heq => hk heq.symm
      rw [if_neg hkey]
      exact ⟨fun hor => hor.resolve_left hk, Or.inr⟩
  have hshows := Shows.set hgrown
  rw [htype] at hshows
  have hnolist : ∀ slots, Content.set grown = .list slots → slots.size ≤ n := by
    intro slots heq
    cases heq
  cases outcome with
  | added depth index split =>
    exact ⟨rfl, hr.revise rfl hcontent hshows (Nat.le_refl n) hnolist⟩
  | merged displaced =>
    exact ⟨rfl, hr.revise rfl hcontent hshows (Nat.le_refl n) hnolist⟩

/-- **Adding to a map.** The tree keeps the old key with the new value, and so does the store. -/
theorem same_mapAdd (hr : Represents n h w) (hh : h.Healthy outside) {map : Handle}
    (hmap : h.isLive map.id = true) (key value : Handle) :
    Agree n h (Plan.mapAdd h map key value) (w.mapAdd map key value) := by
  refine (same_mapOf hr hmap "map_add").bind ?_
  rintro tree ⟨keyType, values⟩ htree ⟨rfl, hvalues⟩
  have hcontent := Heap.content?_of_mapOf htree
  have hsound : tree.Sound := hh.sound _ _ hcontent
  refine (same_insert hsound { key, item := value }).bind ?_
  rintro ⟨outcome, grown⟩ type - ⟨htype, hlookup⟩
  -- of the entry under a key only the item is seen, and that is the later one
  have hgrown : ∀ k, (values.insert key.toKey value).lookup k =
      (Assoc.lookup k grown.toList).map Entry.item := by
    intro k
    rw [hlookup]
    by_cases hk : k = key.toKey
    · have hkey : (Entry.mk key value).sortKey = k := hk.symm
      rw [if_pos hkey, hk, Finmap.lookup_insert]
      rfl
    · have hkey : ¬(Entry.mk key value).sortKey = k := fun heq => hk heq.symm
      rw [if_neg hkey, Finmap.lookup_insert_of_ne _ hk]
      exact hvalues k
  have hshows := Shows.map hgrown
  rw [htype] at hshows
  have hnolist : ∀ slots, Content.map grown = .list slots → slots.size ≤ n := by
    intro slots heq
    cases heq
  cases outcome with
  | added depth index split =>
    exact ⟨rfl, hr.revise rfl hcontent hshows (Nat.le_refl n) hnolist⟩
  | merged displaced =>
    exact ⟨rfl, hr.revise rfl hcontent hshows (Nat.le_refl n) hnolist⟩

/-- The keys of a map of objects are those of the tree that shows it. -/
theorem mem_keys {tree : MapTree} {values : Finmap fun _ : Key => Handle}
    (hvalues : ∀ k, values.lookup k = (Assoc.lookup k tree.toList).map Entry.item) (k : Key) :
    k ∈ values.keys ↔ ∃ e, Assoc.lookup k tree.toList = some e := by
  rw [Finmap.mem_keys, ← Finmap.lookup_isSome, hvalues, Option.isSome_map,
    Option.isSome_iff_exists]

/-- A value that is looked up under a key. -/
theorem same_valueOf {tree : MapTree} (hs : tree.Sound)
    {values : Finmap fun _ : Key => Handle}
    (hvalues : ∀ k, values.lookup k = (Assoc.lookup k tree.toList).map Entry.item)
    (key : Handle) :
    Same (fun v u => u = v) (Plan.valueOf tree key)
      (Store.valueOf tree.elementType values key) := by
  -- a tree is empty by its count of entries, a map by its keys
  have hempty : tree.isEmpty = true ↔ values.keys = ∅ := by
    rw [SearchTree.isEmpty, beq_iff_eq, ← hs.card_keys (mem_keys hvalues), Finset.card_eq_zero]
  unfold Plan.valueOf Store.valueOf
  cases htype : tree.elementType with
  | none => rfl
  | some expected =>
    dsimp only
    by_cases hne : expected ≠ key.tag
    · rw [if_pos hne, if_pos hne]
      rfl
    · rw [if_neg hne, if_neg hne]
      by_cases hnone : tree.isEmpty = true
      · rw [if_pos hnone, if_pos (hempty.mp hnone)]
        rfl
      · rw [if_neg hnone, if_neg fun heq => hnone (hempty.mpr heq), hvalues]
        have htag : tree.elementType = some key.tag := by
          rw [htype, not_not.mp hne]
        rw [SearchTree.find_of_type hs htag]
        cases Assoc.lookup key.toKey tree.toList with
        | none => rfl
        | some e => rfl

theorem same_mapGet (hr : Represents n h w) (hh : h.Healthy outside) {map : Handle}
    (hmap : h.isLive map.id = true) (key : Handle) :
    Agree n h (Plan.mapGet h map key) (w.mapGet map key) := by
  refine (same_mapOf hr hmap "map_get").bind ?_
  rintro tree ⟨keyType, values⟩ htree ⟨rfl, hvalues⟩
  have hsound : tree.Sound := hh.sound _ _ (Heap.content?_of_mapOf htree)
  refine (same_valueOf hsound hvalues key).bind ?_
  rintro v u - rfl
  exact ⟨rfl, hr.patch rfl⟩

theorem same_length (hr : Represents n h w) (hh : h.Healthy outside) {v : Handle}
    (hv : h.isLive v.id = true) :
    Same (fun size count => count = size) (Plan.length h v) (w.length v) := by
  unfold Plan.length Store.length
  cases v.tag with
  | list =>
    refine (same_listOf hr hv "length_of").bind ?_
    rintro slots elements - rfl
    exact Array.length_toList
  | set =>
    refine (same_setOf hr hv "length_of").bind ?_
    rintro tree ⟨elementType, keys⟩ htree ⟨rfl, hkeys⟩
    have hsound : tree.Sound := hh.sound _ _ (Heap.content?_of_setOf htree)
    dsimp only
    rcases tree.elementType with _ | type
    · rfl
    -- sets of values of any type refuse to be counted on both sides
    · cases type with
      | any => rfl
      | _ => exact hsound.card_keys hkeys
  | map =>
    refine (same_mapOf hr hv "length_of").bind ?_
    rintro tree ⟨keyType, values⟩ htree ⟨-, hvalues⟩
    have hsound : tree.Sound := hh.sound _ _ (Heap.content?_of_mapOf htree)
    exact hsound.card_keys (mem_keys hvalues)
  | _ => rfl

theorem same_listIndex (hr : Represents n h w) {list : Handle} (hlist : h.isLive list.id = true)
    (index : Handle) : Agree n h (Plan.listIndex h list index) (w.listIndex list index) := by
  unfold Plan.listIndex Store.listIndex
  cases index.int? with
  | none => rfl
  | some i =>
    dsimp only
    by_cases hneg : i.toInt < 0
    · rw [if_pos hneg, if_pos hneg]
      rfl
    · rw [if_neg hneg, if_neg hneg]
      -- What an int picks is asked of the list only if it is not negative.
      refine (same_listOf hr hlist "length_of").bind ?_
      rintro slots elements - rfl
      -- The list of the reference is the elements of the slots, so both pick the same.
      have hget : slots.toList[i.toInt.toNat]? = slots.get? i.toInt.toNat :=
        Array.getElem?_toList
      have hlength : slots.toList.length = slots.size := Array.length_toList
      unfold Plan.pick
      rw [hget, hlength]
      cases slots.get? i.toInt.toNat with
      | some v => exact ⟨rfl, hr.patch rfl⟩
      | none => rfl

/-- What is found in a collection of any type. -/
theorem same_indexOf (hr : Represents n h w) (hh : h.Healthy outside) {collection : Handle}
    (hc : h.isLive collection.id = true) (key : Handle) :
    Agree n h (Plan.indexOf h collection key) (w.indexOf collection key) := by
  unfold Plan.indexOf Store.indexOf
  cases collection.tag with
  | list => exact same_listIndex hr hc key
  | map => exact same_mapGet hr hh hc key
  | _ => rfl

end

/-! ## New containers

  A new container is empty, and its object is the empty one. -/

/-- The allocator has room for the first reservation of every list. -/
theorem ofHint_granted {limit hint : Nat} (hhint : hint < 2 ^ 20) (hroom : 2 ^ 22 ≤ limit) :
    ∃ capacity, (GrowList.ofHint limit hint : Except Fault (GrowList Handle)) =
      .ok { slots := #[], capacity } := by
  obtain ⟨l, hok, hslots, -⟩ := GrowList.ofHint_fits (α := Handle) hhint hroom
  rw [hok, ← hslots]
  exact ⟨l.capacity, rfl⟩

/-- The contents of new boxes are the empty objects. -/
theorem shows_newList (capacity : Nat) :
    Shows (.list { slots := #[], capacity }) (.list []) :=
  Shows.list { slots := #[], capacity }

theorem shows_newSet (tag : Tag) :
    Shows (.set (.new tag)) (.set (if tag = .none then none else some tag) ∅) := by
  refine Shows.set fun k => ?_
  constructor
  · intro hk
    exact absurd hk (Finset.notMem_empty k)
  · rintro ⟨e, he⟩
    cases he

theorem shows_newMap (tag : Tag) :
    Shows (.map (.new tag)) (.map (if tag = .none then none else some tag) ∅) :=
  Shows.map fun _ => Finmap.lookup_empty _

end Reference

end BoxRuntime
