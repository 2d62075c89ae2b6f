/-
  The lists of a machine.

  A list holds the boxes that calls appended to it since it was made, in their order
  (`content?_after_alloc`), and has grown with them as lists do (`Grown.pushes`).  There are two
  ways to read an element: by a position, and by an int box.  They agree, as the int box gives a
  position unless its number is negative or too large; each of the two has its own fault
  (`HoldsList`).

  The main statement is `newList_account`.  It asks nothing of the allocator: a request that is not
  granted is one of the cases, and no request for `2 ^ 60` slots or more is ever granted, because an
  array of so many pointers would have more bytes than an array can have.
-/
import BoxRuntime.Proofs.Machine.History

namespace BoxRuntime

namespace Machine

open GrowList

variable {m : Machine}

/-- Reading the list gives these boxes, and nothing beyond them. -/
structure HoldsList (m : Machine) (list : Handle) (vs : List Handle) : Prop where
  listGet_eq : ∀ i, ∃ m', listGet list i m = .ok vs[i]? m'
  /-- An int box picks the same element as its number. -/
  indexOf_eq : ∀ (index : Handle) (r : Int64), index.int? = some r → ∀ (i : Nat) v,
    r.toInt = i → vs[i]? = some v → ∃ m', indexOf list index m = .ok v m'
  indexOf_under : ∀ (index : Handle) (r : Int64), index.int? = some r → r.toInt < 0 →
    indexOf list index m = .error (.indexUnderRange r.toInt) m
  indexOf_over : ∀ (index : Handle) (r : Int64), index.int? = some r → vs.length ≤ r.toInt →
    indexOf list index m = .error (.indexOverRange r.toInt vs.length) m

/-- An operation whose plan succeeds gives out what is planned. -/
theorem Does.succeeds {α : Type} {op : Op α} {r : α × Patch} (hd : m.Does op (.ok r)) :
    ∃ m', op m = .ok r.1 m' := by
  obtain ⟨logger, hok⟩ := hd
  exact ⟨_, hok⟩

/-- An element is given out with a new handle. -/
theorem pick_of_get? {slots : GrowList Handle} {i : Nat} {v : Handle}
    (h : slots.get? i = some v) : Plan.pick slots i = (some v, { retained := [v] }) := by
  rw [Plan.pick, h]

/-- Beyond the last one there is nothing to give. -/
theorem pick_of_get?_none {slots : GrowList Handle} {i : Nat} (h : slots.get? i = none) :
    Plan.pick slots i = (none, {}) := by
  rw [Plan.pick, h]

/-- What an int box picks from a list is settled by its number alone. -/
theorem indexOf_of_listOf {h : Heap} {list index : Handle} {slots : GrowList Handle} {r : Int64}
    (htag : list.tag = .list) (hread : ∀ operation, h.listOf operation list = .ok slots)
    (hr : index.int? = some r) :
    Plan.indexOf h list index =
      if r.toInt < 0 then .error (.indexUnderRange r.toInt)
      else
        match Plan.pick slots r.toInt.toNat with
        | (some v, p) => .ok (v, p)
        | (none, _) => .error (.indexOverRange r.toInt slots.size) := by
  rw [Plan.indexOf, htag]
  unfold Plan.listIndex
  rw [hr, hread]
  rfl

/-- A box with a list in it is read as the list is, in both ways. -/
theorem holdsList_of_content {list : Handle} {slots : GrowList Handle} {vs : List Handle}
    (htag : list.tag = .list) (hc : m.heap.content? list.id = some (.list slots))
    (hsize : slots.size = vs.length) (hget : ∀ i, slots.get? i = vs[i]?) : m.HoldsList list vs := by
  -- The box has the list, so reading it never fails.
  have hread : ∀ operation, m.heap.listOf operation list = .ok slots := by
    intro operation
    rw [Heap.listOf, hc]
  refine ⟨fun i => ?_, ?_, ?_, ?_⟩
  · -- By a position.
    have hdoes := does_listGet (m := m) list i
    rw [Plan.listGet, hread] at hdoes
    obtain ⟨m', hok⟩ := Does.succeeds (r := Plan.pick slots i) hdoes
    refine ⟨m', hok.trans (congrArg (fun found => EStateM.Result.ok found m') ?_)⟩
    rw [← hget]
    cases hfound : slots.get? i with
    | none => rw [pick_of_get?_none hfound]
    | some v => rw [pick_of_get? hfound]
  · -- By an index in the range.
    intro index r hr i v hi hv
    have hdoes := does_indexOf (m := m) list index
    have hposition : r.toInt.toNat = i := by omega
    rw [indexOf_of_listOf htag hread hr, if_neg (by omega), hposition,
      pick_of_get? ((hget i).trans hv)] at hdoes
    exact hdoes.succeeds
  · -- By an index below it.
    intro index r hr hneg
    have hdoes := does_indexOf (m := m) list index
    rw [indexOf_of_listOf htag hread hr, if_pos hneg] at hdoes
    exact hdoes
  · -- By an index past the end.
    intro index r hr hover
    have hdoes := does_indexOf (m := m) list index
    have hbeyond : slots.get? r.toInt.toNat = none := by
      rw [hget]
      exact List.getElem?_eq_none (by omega)
    rw [indexOf_of_listOf htag hread hr, if_neg (by omega), pick_of_get?_none hbeyond, hsize] at hdoes
    exact hdoes

/-! ## From the making on -/

/-- What comes of a list whose first reservation is `c₀`: by itself, and on the machine. -/
structure ListsFrom (m : Machine) (hint c₀ : Nat) : Prop where
  /-- Any elements can be pushed, of any type; those for which there is room are taken. -/
  pushed : ∀ (α : Type) (as : List α), ∃ l, ofHint m.slotLimit hint = .ok l ∧ l.capacity = c₀ ∧
    (as.foldl (GrowList.keep m.slotLimit) l).Account m.slotLimit c₀ as
  /-- A list that is still there after some calls has of what they appended as much as there was
  room for. -/
  made : ∃ list m', newList hint m = .ok list m' ∧ ∀ calls,
    (m'.after calls).heap.isLive list.id = true → ∃ l,
      (m'.after calls).heap.content? list.id = some (.list l) ∧
        l.Account m.slotLimit c₀ (calls.flatMap (Call.appended list.id)) ∧
          (m'.after calls).HoldsList list
            ((calls.flatMap (Call.appended list.id)).take l.size)
  /-- If the allocator grants what an array can have, there is room for `2 ^ 59` elements. -/
  room : 2 ^ 60 ≤ m.slotLimit → ∀ n, Holdable m.slotLimit c₀ n ↔ n ≤ 2 ^ 59

/-- What comes of a list once its first request was granted. -/
theorem listsFrom_of_capacity {hint k : Nat} (hgranted : Granted m.slotLimit (2 ^ k))
    (hok : initialCapacity m.slotLimit hint = .ok (2 ^ k)) : m.ListsFrom hint (2 ^ k) := by
  -- Whatever is pushed, the list has grown from the first capacity.
  have hgrown : ∀ α (as : List α), (as.foldl (GrowList.keep m.slotLimit)
      ({ slots := #[], capacity := 2 ^ k } : GrowList α)).Grown m.slotLimit (2 ^ k) as := by
    intro α as
    have hempty : ({ slots := #[], capacity := 2 ^ k } : GrowList α).Grown m.slotLimit (2 ^ k) [] :=
      grown_empty (Nat.two_pow_pos k) hgranted
    exact hempty.pushes as
  refine ⟨fun α as => ⟨_, ofHint_of_ok hok, rfl, (hgrown α as).account⟩, ?_,
    fun hlimit => holdable_iff_le hlimit hgranted⟩
  have hboxes := boxes_newList (m := m) hint
  rw [ofHint_of_ok hok] at hboxes
  -- The list of the new box is the pushes of the calls that name it.
  refine ⟨_, _, hboxes, fun calls hlive => ?_⟩
  have haccount := (hgrown Handle (calls.flatMap (Call.appended m.heap.nextId))).account
  have hcontent := content?_after_alloc .list hlive
  refine ⟨_, hcontent, haccount, holdsList_of_content rfl hcontent ?_ ?_⟩
  · exact (List.length_take_of_le haccount.size_le_pushed).symm
  · intro i
    rw [List.getElem?_take]
    exact haccount.get_eq i

/-- **A list has room for what is put in and gives out what was put in.**  A size hint is refused if
the hint and two are `2 ^ 63` or more.  With any other a list asks for the power of two above that
sum.  If that is granted, the list grows when it is full and not before, until it is refused the
double of what it has. -/
theorem newList_account (m : Machine) (hint : Nat) :
    (∀ n, (Fault.allocationFailed n).message = "failed to allocate " ++ toString n ++ " slots") ∧
      ((2 ^ 63 ≤ hint + 2 ∧ newList hint m = .error (.allocationFailed hint) m) ∨
        ∃ k, hint + 2 < 2 ^ 63 ∧ hint + 2 < 2 ^ k ∧ 2 ^ k ≤ 2 * (hint + 2) ∧
          (¬Granted m.slotLimit (2 ^ k) ∧ newList hint m = .error (.allocationFailed (2 ^ k)) m ∨
            Granted m.slotLimit (2 ^ k) ∧ m.ListsFrom hint (2 ^ k))) := by
  have hboxes := boxes_newList (m := m) hint
  refine ⟨fun n => rfl, ?_⟩
  -- The hint is too large for a capacity at all, or there is one and the allocator settles it.
  rcases initialCapacity_spec m.slotLimit hint with ⟨hlarge, hfail⟩ | ⟨k, hsmall, habove, hle, hask⟩
  · rw [ofHint_of_error hfail] at hboxes
    exact Or.inl ⟨hlarge, hboxes⟩
  · refine Or.inr ⟨k, hsmall, habove, hle, ?_⟩
    by_cases hgranted : Granted m.slotLimit (2 ^ k)
    · rw [reserve_of_granted hgranted] at hask
      exact Or.inr ⟨hgranted, listsFrom_of_capacity hgranted hask⟩
    · rw [reserve_of_not_granted hgranted] at hask
      rw [ofHint_of_error hask] at hboxes
      exact Or.inl ⟨hgranted, hboxes⟩

/-- With a size hint far below `2 ^ 63` no machine can make a list, whatever its allocator grants.
-/
theorem newList_fails_early : 2 ^ 60 + 2 < 2 ^ 63 ∧ ∀ m : Machine,
    newList (2 ^ 60) m = .error (.allocationFailed (2 ^ 61)) m := by
  refine ⟨by decide, fun m => ?_⟩
  have hboxes := boxes_newList (m := m) (2 ^ 60)
  have hask : initialCapacity m.slotLimit (2 ^ 60) = reserve m.slotLimit (2 ^ 61) := by
    have hfits : 2 ^ 60 + 2 < sizeBound ∧ 2 * highBit (2 ^ 60 + 2) < sizeBound := by decide
    rw [initialCapacity, if_pos hfits]
    exact congrArg (reserve m.slotLimit) (by decide)
  have hbytes : ¬Granted m.slotLimit (2 ^ 61) := fun hgranted => absurd hgranted.1 (by decide)
  rw [reserve_of_not_granted hbytes] at hask
  rw [ofHint_of_error hask] at hboxes
  exact hboxes

/-- On a machine as machines are made by default: a list that is too large to be made, and one for
eight boxes that is given one. -/
theorem newList_account_one_box :
    newList (2 ^ 63) ({} : Machine) = .error (.allocationFailed (2 ^ 63)) {} ∧
      ∃ c₀, ({} : Machine).ListsFrom 8 c₀ ∧
        ∃ m' : Machine, m'.HoldsList ⟨1, .list⟩ [⟨2, .int 5⟩] := by
  -- Twice the hint is no size: nothing is asked of the allocator.
  have hfails : newList (2 ^ 63) ({} : Machine) = .error (.allocationFailed (2 ^ 63)) {} := by
    rcases (newList_account {} (2 ^ 63)).2 with ⟨-, hfails⟩ | ⟨k, hsmall, -⟩
    · exact hfails
    · exact absurd hsmall (by decide)
  rcases (newList_account {} 8).2 with ⟨hlarge, -⟩ | ⟨k, -, -, hle, hgranted⟩
  · exact absurd hlarge (by decide)
  · rcases hgranted with ⟨hnot, -⟩ | ⟨-, hlists⟩
    · -- Twenty slots are granted here, so a hint of 8 gives a list.
      have hlimit : ({} : Machine).slotLimit = 2 ^ 50 := rfl
      exact absurd ⟨by omega, by omega⟩ hnot
    · obtain ⟨list, made, hmade, hholds⟩ := hlists.made
      obtain ⟨rfl, rfl⟩ := EStateM.Result.ok.inj hmade
      obtain ⟨l, hcontent, -, hheld⟩ :=
        hholds [.boxInt 5, .listAppend ⟨1, .list⟩ ⟨2, .int 5⟩] rfl
      cases hcontent
      exact ⟨hfails, _, hlists, _, hheld⟩

end Machine

end BoxRuntime
