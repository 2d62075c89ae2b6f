/-
  Reservations, switches and loggers do not show.

  Let two machines have the same boxes, but for what their lists reserve, and let those reservations
  come from small size hints.  Loggers and configurations may differ altogether.  Then every
  operation gives the same result on both machines, or the same fault, and leaves two such machines
  (`reservations`).

  The proof is about plans, which know nothing of loggers and configurations.  Only two of them look
  at what lists reserve: making a list, and appending to one.  The others are the same on both
  heaps, as they read the elements of lists and no more (`Plan.…_like`).
-/
import BoxRuntime.Proofs.GrowList
import BoxRuntime.Proofs.Reference.Represents
import BoxRuntime.Proofs.Setup.Likeness

namespace BoxRuntime

/-! ## Heaps that differ in reservations

  Cell by cell: the same counts, and contents that are equal or are lists with the same elements. -/

/-- The contents are the same, or lists that are alike. -/
def Content.Like (limit : Nat) (c c' : Content) : Prop :=
  c' = c ∨ ∃ l l', c = .list l ∧ c' = .list l' ∧ l.Like limit l'

/-- The cells have the same count, and contents that are alike. -/
structure Cell.Like (limit : Nat) (c c' : Cell) : Prop where
  others : c'.others = c.others
  content : c.content.Like limit c'.content

/-- The patches do the same, but for what a list reserves. -/
structure Patch.Like (limit : Nat) (p p' : Patch) : Prop where
  retained : p'.retained = p.retained
  revised : Option.Rel (fun r r' => r'.1 = r.1 ∧ r.2.Like limit r'.2) p.revised p'.revised
  dropped : p'.dropped = p.dropped

/-- Contents that are alike give up the same handles in the same order. -/
theorem Content.Like.released {limit : Nat} {c c' : Content} (h : c.Like limit c') :
    c'.released = c.released := by
  rcases h with rfl | ⟨l, l', rfl, rfl, hl⟩
  · rfl
  · show l'.slots.toList = l.slots.toList
    rw [hl.slots]

theorem Patch.Like.refl (limit : Nat) (p : Patch) : p.Like limit p := by
  refine ⟨rfl, ?_, rfl⟩
  cases p.revised with
  | none => exact .none
  | some r => exact .some ⟨rfl, Or.inl rfl⟩

namespace Heap

/-- The heaps have the same boxes, but for what lists reserve. -/
structure Like (limit : Nat) (h h' : Heap) : Prop where
  next : h'.nextId = h.nextId
  cell : ∀ id, Option.Rel (Cell.Like limit) (h.cell? id) (h'.cell? id)

/-- A heap is like itself. -/
theorem Like.refl (limit : Nat) (h : Heap) : h.Like limit h := by
  refine ⟨rfl, fun id => ?_⟩
  cases h.cell? id with
  | none => exact .none
  | some c => exact .some ⟨rfl, Or.inl rfl⟩

namespace Like

variable {limit : Nat} {h h' : Heap}

/-- The same boxes are gone. -/
theorem cell_of_none (hl : h.Like limit h') {id : Nat} (hc : h.cell? id = none) :
    h'.cell? id = none := by
  have hrel := hl.cell id
  rw [hc] at hrel
  generalize h'.cell? id = c' at hrel
  cases hrel with
  | none => rfl

/-- The same boxes are live, with as many handles each. -/
theorem cell_of_some (hl : h.Like limit h') {id : Nat} {c : Cell} (hc : h.cell? id = some c) :
    ∃ c', h'.cell? id = some c' ∧ c.Like limit c' := by
  have hrel := hl.cell id
  rw [hc] at hrel
  generalize h'.cell? id = c' at hrel
  cases hrel with
  | some hcell => exact ⟨_, rfl, hcell⟩

theorem count (hl : h.Like limit h') (id : Nat) : h'.count id = h.count id := by
  cases hc : h.cell? id with
  | none => rw [count_of_none hc, count_of_none (hl.cell_of_none hc)]
  | some c =>
    obtain ⟨c', hc', hcell⟩ := hl.cell_of_some hc
    rw [count_of_cell? hc, count_of_cell? hc', Cell.count, hcell.others]
    rfl

theorem content (hl : h.Like limit h') (id : Nat) :
    Option.Rel (Content.Like limit) (h.content? id) (h'.content? id) := by
  unfold content?
  cases hc : h.cell? id with
  | none =>
    rw [hl.cell_of_none hc]
    exact .none
  | some c =>
    obtain ⟨c', hc', hcell⟩ := hl.cell_of_some hc
    rw [hc']
    exact .some hcell.content

/-- A new box gets the same handle on both heaps, whatever its list reserves. -/
theorem alloc (hl : h.Like limit h') (datum : Datum) {c c' : Content} (hc : c.Like limit c') :
    (h'.alloc datum c').1 = (h.alloc datum c).1 ∧
      (h.alloc datum c).2.Like limit (h'.alloc datum c').2 := by
  refine ⟨congrArg (fun id => Handle.mk id datum) hl.next, ?_, fun id => ?_⟩
  · rw [nextId_alloc, nextId_alloc, hl.next]
  · rw [cell?_alloc, cell?_alloc, hl.next]
    split
    · exact .some ⟨rfl, hc⟩
    · exact hl.cell id

/-- Updates that do the same keep heaps alike. -/
theorem update (hl : h.Like limit h') (i : Nat) {f f' : Cell → Cell}
    (hf : ∀ c c', c.Like limit c' → (f c).Like limit (f' c')) :
    (h.update i f).Like limit (h'.update i f') := by
  refine ⟨?_, fun id => ?_⟩
  · -- The same cells are there, and the one with the number is changed in like ways.
    rw [nextId_update, nextId_update, hl.next]
  · rw [cell?_update, cell?_update]
    split
    · cases hc : h.cell? id with
      | none =>
        rw [hl.cell_of_none hc]
        exact .none
      | some c =>
        obtain ⟨c', hc', hcell⟩ := hl.cell_of_some hc
        rw [hc']
        exact .some (hf c c' hcell)
    · exact hl.cell id

theorem free (hl : h.Like limit h') (i : Nat) : (h.free i).Like limit (h'.free i) := by
  refine ⟨?_, fun id => ?_⟩
  · rw [nextId_free, nextId_free, hl.next]
  · rw [cell?_free, cell?_free]
    split
    · exact .none
    · exact hl.cell id

theorem retainAll (hl : h.Like limit h') (vs : List Handle) :
    (h.retainAll vs).Like limit (h'.retainAll vs) := by
  induction vs generalizing h h' with
  | nil => exact hl
  | cons v vs ih =>
    exact ih (hl.update v.id fun _ _ hc => ⟨congrArg (· + 1) hc.others, hc.content⟩)

/-- Both cascades take the same course. -/
theorem dropAll (hl : h.Like limit h') (work : List Handle) :
    (h.dropAll work).Like limit (h'.dropAll work) := by
  -- On the handles that are left, by the cases of the teardown itself.
  fun_induction Heap.dropAll h work generalizing h' with
  | case1 h =>
    rw [dropAll_nil]
    exact hl
  | case2 h v rest hc ih =>
    rw [dropAll_freed (hl.cell_of_none hc)]
    exact ih hl
  -- The last handle: both free the box, and the contents give up the same handles.
  | case3 h v rest cell hc hlast ih =>
    obtain ⟨cell', hc', hcell⟩ := hl.cell_of_some hc
    rw [dropAll_last hc' (hcell.others ▸ hlast), hcell.content.released]
    exact ih (hl.free v.id)
  | case4 h v rest cell hc hothers ih =>
    obtain ⟨cell', hc', hcell⟩ := hl.cell_of_some hc
    rw [dropAll_other hc' (hcell.others ▸ hothers)]
    exact ih (hl.update v.id fun _ _ hc => ⟨congrArg (· - 1) hc.others, hc.content⟩)

/-- **Patches that are alike keep heaps alike.**. -/
theorem patch (hl : h.Like limit h') {p p' : Patch} (hp : p.Like limit p') :
    (h.patch p).Like limit (h'.patch p') := by
  unfold Heap.patch
  -- Handles made and given up are the same, so the machines differ in one content at most.
  rw [hp.retained, hp.dropped]
  refine Like.dropAll ?_ p.dropped
  have hretained := hl.retainAll p.retained
  have hrevised := hp.revised
  generalize p.revised = r at hrevised
  generalize p'.revised = r' at hrevised
  cases hrevised with
  | none => exact hretained
  | @some r r' hr =>
    obtain ⟨hbox, hcontent⟩ := hr
    show (setContent _ r.1.id r.2).Like limit (setContent _ r'.1.id r'.2)
    rw [hbox]
    exact hretained.update r.1.id fun _ _ hc => ⟨hc.others, hcontent⟩

end Like

end Heap

/-! ## Plans

  Plans read elements and not reservations, apart from two, so most come out equal on both heaps. -/

namespace Plan

open Heap Reference

variable {limit : Nat} {h h' : Heap}

/-- Results are the same, and patches alike. -/
def Like {α : Type} (limit : Nat) (r r' : α × Patch) : Prop :=
  r'.1 = r.1 ∧ r.2.Like limit r'.2

/-- Plans that are the same are alike. -/
theorem same_of_eq {α : Type} {x y : Except Fault (α × Patch)} (heq : y = x) :
    Same (Like limit) x y := by
  subst heq
  cases y with
  | error f => exact rfl
  | ok r => exact ⟨rfl, .refl limit r.2⟩

/-- Lists that are found have the same elements. -/
theorem listOf_like (hl : h.Like limit h') (operation : String) (v : Handle) :
    Same (GrowList.Like limit) (h.listOf operation v) (h'.listOf operation v) := by
  have hrel := hl.content v.id
  unfold listOf
  generalize h.content? v.id = c at hrel
  generalize h'.content? v.id = c' at hrel
  -- Neither holds anything, or both hold what is alike: the same content, or two lists.
  cases hrel with
  | none => exact rfl
  | some hc =>
    rcases hc with rfl | ⟨l, l', rfl, rfl, hl⟩
    · rename_i content
      cases content with
      | list l => exact ⟨rfl, Or.inl rfl⟩
      | _ => exact rfl
    · exact hl

/-- Sets reserve nothing, so they are the same. -/
theorem setOf_like (hl : h.Like limit h') (operation : String) (v : Handle) :
    h'.setOf operation v = h.setOf operation v := by
  have hrel := hl.content v.id
  unfold Heap.setOf
  generalize h.content? v.id = c at hrel
  generalize h'.content? v.id = c' at hrel
  cases hrel with
  | none => rfl
  | some hc => rcases hc with rfl | ⟨l, l', rfl, rfl, -⟩ <;> rfl

theorem mapOf_like (hl : h.Like limit h') (operation : String) (v : Handle) :
    h'.mapOf operation v = h.mapOf operation v := by
  have hrel := hl.content v.id
  unfold mapOf
  generalize h.content? v.id = c at hrel
  generalize h'.content? v.id = c' at hrel
  cases hrel with
  | none => rfl
  | some hc => rcases hc with rfl | ⟨l, l', rfl, rfl, -⟩ <;> rfl

/-- What is planned on either heap is the same, but for the one list that grows. -/
theorem release_like (hl : h.Like limit h') (v : Handle) (deep : Bool) :
    release h' v deep = release h v deep := by
  unfold release
  rw [hl.count]

/-- Here what a list reserves comes in. -/
theorem listAppend_like (hl : h.Like limit h') (list v : Handle) :
    Same (Like limit) (listAppend limit h list v) (listAppend limit h' list v) := by
  refine Same.bind (listOf_like hl "list_append" list) fun l l' _ hlist => ?_
  rcases hlist.reservation with ⟨f, herror, herror'⟩ | ⟨capacity, capacity', hok, hok', hstore⟩
  · rw [herror, herror']
    exact rfl
  · rw [hok, hok']
    exact ⟨rfl, rfl, .some ⟨rfl, Or.inr ⟨_, _, rfl, rfl, hstore v⟩⟩, rfl⟩

/-- The element at a position is the same. -/
theorem pick_like {l l' : GrowList Handle} (hl : l.Like limit l') (i : Nat) :
    pick l' i = pick l i := by
  have hget : l'.get? i = l.get? i := by
    show l'.slots[i]? = l.slots[i]?
    rw [hl.slots]
  unfold pick
  rw [hget]

theorem size_like {l l' : GrowList Handle} (hl : l.Like limit l') : l'.size = l.size :=
  congrArg Array.size hl.slots

/-- Plans that make the same of lists that are alike are the same. -/
theorem bind_like {α β : Type} {P : α → α → Prop} {x x' : Except Fault α}
    {k k' : α → Except Fault β} (hx : Same P x x') (hk : ∀ a a', P a a' → k' a' = k a) :
    x' >>= k' = x >>= k := by
  -- Both fail or both go on, and then they go on alike.
  cases x with
  | error f =>
    cases x' with
    | error g =>
      obtain rfl : g = f := hx
      rfl
    | ok a' => exact hx.elim
  | ok a =>
    cases x' with
    | error g => exact hx.elim
    | ok a' => exact hk a a' hx

/-- No reservation shows in what is read. -/
theorem listGet_like (hl : h.Like limit h') (list : Handle) (i : Nat) :
    listGet h' list i = listGet h list i := by
  refine bind_like (listOf_like hl "list_get" list) fun l l' hlist => ?_
  rw [pick_like hlist]

theorem setAdd_like (hl : h.Like limit h') (set v : Handle) : setAdd h' set v = setAdd h set v := by
  unfold setAdd
  rw [setOf_like hl]

theorem mapAdd_like (hl : h.Like limit h') (map key value : Handle) :
    mapAdd h' map key value = mapAdd h map key value := by
  unfold mapAdd
  rw [mapOf_like hl]

theorem mapGet_like (hl : h.Like limit h') (map key : Handle) :
    mapGet h' map key = mapGet h map key := by
  unfold mapGet
  rw [mapOf_like hl]

theorem listIndex_like (hl : h.Like limit h') (list index : Handle) :
    listIndex h' list index = listIndex h list index := by
  unfold listIndex
  cases index.int? with
  | none => rfl
  | some n =>
    dsimp only
    split
    · rfl
    · refine bind_like (listOf_like hl "length_of" list) fun l l' hlist => ?_
      rw [pick_like hlist, size_like hlist]

theorem indexOf_like (hl : h.Like limit h') (collection key : Handle) :
    indexOf h' collection key = indexOf h collection key := by
  unfold indexOf
  rw [listIndex_like hl, mapGet_like hl]

theorem length_like (hl : h.Like limit h') (v : Handle) : length h' v = length h v := by
  -- Of the three containers only a list has something that may differ, and its length does not.
  have hlist : (do
      let slots ← h'.listOf "length_of" v
      return slots.size : Except Fault Nat) = (do
      let slots ← h.listOf "length_of" v
      return slots.size) := by
    refine bind_like (listOf_like hl "length_of" v) fun l l' hlist => ?_
    rw [size_like hlist]
  unfold length
  rw [hlist, setOf_like hl, mapOf_like hl]

end Plan

/-! ## Machines

  The likeness, with small hints as good as each other. -/

namespace Machine

open Reference

/-- The machines have the same boxes, but for what lists reserve, and the same allocator. -/
structure Like (m m' : Machine) : Prop where
  heap : m.heap.Like m.slotLimit m'.heap
  slotLimit : m'.slotLimit = m.slotLimit
  roomy : 2 ^ 22 ≤ m.slotLimit

variable {α : Type} {op : Op α}

/-- An operation keeps machines alike if its plans are alike. -/
theorem keeps_of_does {plan : Machine → Except Fault (α × Patch)} (hd : ∀ m, Does m op (plan m))
    (hp : ∀ m m', m.Like m' → Same (Plan.Like m.slotLimit) (plan m) (plan m')) :
    Keeps Like op op := by
  intro m m' hm
  have hdoes := hd m
  have hdoes' := hd m'
  have hplan := hp m m' hm
  generalize plan m = x at hdoes hplan
  generalize plan m' = x' at hdoes' hplan
  -- Plans that are alike come out alike, and what they come to is done on both heaps.
  cases x with
  | error f =>
    cases x' with
    | error g =>
      obtain rfl : g = f := hplan
      rw [show op m = .error g m from hdoes, show op m' = .error g m' from hdoes']
      exact ⟨rfl, hm⟩
    | ok r' => exact hplan.elim
  | ok r =>
    cases x' with
    | error g => exact hplan.elim
    | ok r' =>
      obtain ⟨hresult, hpatch⟩ := hplan
      obtain ⟨logger, hok⟩ := hdoes
      obtain ⟨logger', hok'⟩ := hdoes'
      rw [hok, hok']
      exact ⟨hresult, hm.heap.patch hpatch, hm.slotLimit, hm.roomy⟩

/-- An operation that follows a plan of the heap, which does not look at reservations. -/
theorem keeps_of_same (plan : Heap → Except Fault (α × Patch))
    (hd : ∀ m : Machine, m.Does op (plan m.heap))
    (hp : ∀ limit (h h' : Heap), h.Like limit h' → plan h' = plan h) : Keeps Like op op :=
  keeps_of_does hd fun _ _ hm => Plan.same_of_eq (hp _ _ _ hm.heap)

/-- Operations that make a box, whose contents may differ in what a list reserves. -/
theorem keeps_of_boxes {op op' : Op Handle} {plan plan' : Machine → Except Fault (Datum × Content)}
    (hb : ∀ m, Boxes m op (plan m)) (hb' : ∀ m, Boxes m op' (plan' m))
    (hp : ∀ m m', m.Like m' →
      Same (fun r r' => r'.1 = r.1 ∧ r.2.Like m.slotLimit r'.2) (plan m) (plan' m')) :
    Keeps Like op op' := by
  intro m m' hm
  have hboxes := hb m
  have hboxes' := hb' m'
  have hplan := hp m m' hm
  generalize plan m = x at hboxes hplan
  generalize plan' m' = x' at hboxes' hplan
  -- The same with a new box in place of a patch.
  cases x with
  | error f =>
    cases x' with
    | error g =>
      obtain rfl : g = f := hplan
      rw [show op m = .error g m from hboxes, show op' m' = .error g m' from hboxes']
      exact ⟨rfl, hm⟩
    | ok r' => exact hplan.elim
  | ok r =>
    cases x' with
    | error g => exact hplan.elim
    | ok r' =>
      obtain ⟨datum, content⟩ := r
      obtain ⟨datum', content'⟩ := r'
      obtain ⟨rfl, hcontent⟩ := hplan
      obtain ⟨hhandle, hheap⟩ := hm.heap.alloc datum' hcontent
      rw [show op m = _ from hboxes, show op' m' = _ from hboxes']
      exact ⟨hhandle, hheap, hm.slotLimit, hm.roomy⟩

/-- Size hints that make the same list, or lists that differ in what they reserve. -/
def LikeHints (hint hint' : Nat) : Prop :=
  hint' = hint ∨ hint < 2 ^ 20 ∧ hint' < 2 ^ 20

/-- Lists may be made with different hints, as long as these are small: both get what they ask for.
-/
theorem keeps_newList {hint hint' : Nat} (hh : LikeHints hint hint') :
    Keeps Like (newList hint) (newList hint') := by
  refine keeps_of_boxes (fun _ => boxes_newList hint) (fun _ => boxes_newList hint') ?_
  intro m m' hm
  rw [hm.slotLimit]
  -- The same hint asks for the same; two small hints are both granted, whatever they are.
  rcases hh with rfl | ⟨hsmall, hsmall'⟩
  · cases GrowList.ofHint (α := Handle) m.slotLimit hint' with
    | error f => exact rfl
    | ok l => exact ⟨rfl, Or.inl rfl⟩
  · obtain ⟨l, hok, hslots, hfits⟩ := GrowList.ofHint_fits (α := Handle) hsmall hm.roomy
    obtain ⟨l', hok', hslots', hfits'⟩ := GrowList.ofHint_fits (α := Handle) hsmall' hm.roomy
    rw [hok, hok']
    have hlike : l.Like m.slotLimit l' := ⟨hslots'.trans hslots.symm, Or.inr ⟨hfits, hfits'⟩⟩
    exact ⟨rfl, Or.inr ⟨l, l', rfl, rfl, hlike⟩⟩

/-- Lengths have nothing to do with reservations. -/
theorem keeps_lengthOf (v : Handle) : Keeps Like (lengthOf v) (lengthOf v) := by
  refine keeps_of_boxes (fun _ => boxes_lengthOf v) (fun _ => boxes_lengthOf v) ?_
  intro m m' hm
  rw [Plan.length_like hm.heap]
  cases Plan.length m.heap v with
  | error f => exact rfl
  | ok n => exact ⟨rfl, Or.inl rfl⟩

end Machine

open Machine in
/-- Machines that differ in what lists reserve, in the configuration and in the logger. -/
def Likeness.reservations : Likeness where
  Rel := Machine.Like
  Hints := LikeHints
  same_hint hint := Or.inl rfl
  act e he m m' hm := ⟨hm.heap, hm.slotLimit, hm.roomy⟩
  newBox datum content := keeps_of_boxes (fun _ => boxes_newBox datum content)
    (fun _ => boxes_newBox datum content) fun _ _ _ => ⟨rfl, Or.inl rfl⟩
  newList hint hint' := keeps_newList
  retain v := keeps_of_same (fun _ => .ok ((), { retained := [v] }))
    (fun _ => does_retain v) fun _ _ _ _ => rfl
  drop v := keeps_of_same (fun _ => .ok ((), { dropped := [v] }))
    (fun _ => does_drop v) fun _ _ _ _ => rfl
  release v deep := keeps_of_same (fun h => Plan.release h v deep)
    (fun _ => does_release v deep) fun _ _ _ hl => Plan.release_like hl v deep
  listAppend list v := keeps_of_does (fun _ => does_listAppend list v) fun m m' hm => by
    rw [hm.slotLimit]
    exact Plan.listAppend_like hm.heap list v
  listGet list i := keeps_of_same (fun h => Plan.listGet h list i)
    (fun _ => does_listGet list i) fun _ _ _ hl => Plan.listGet_like hl list i
  setAdd set v := keeps_of_same (fun h => Plan.setAdd h set v)
    (fun _ => does_setAdd set v) fun _ _ _ hl => Plan.setAdd_like hl set v
  mapAdd map key value := keeps_of_same (fun h => Plan.mapAdd h map key value)
    (fun _ => does_mapAdd map key value) fun _ _ _ hl => Plan.mapAdd_like hl map key value
  indexOf collection key := keeps_of_same (fun h => Plan.indexOf h collection key)
    (fun _ => does_indexOf collection key) fun _ _ _ hl => Plan.indexOf_like hl collection key
  lengthOf := keeps_lengthOf

end BoxRuntime
