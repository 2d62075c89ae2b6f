/-
  Which keys a tree takes.

  Comparators can fail: they are for operands of one type, and an insertion or a search calls one at
  every entry that it passes.  That such a call never fails is no property of the search.  It comes
  from an invariant about all entries in all chunks: their keys have the element type, and that type
  has an order (`Sound`).  A key of another type is turned away before anything is compared.

  So the type of a key alone decides whether a tree takes it (`Refuses`).  And the element type is
  settled once: by the tag that the tree was made with, or else by the first entry that it takes
  (`elementType_insertAll`).

  The main statement here, `settled_insertAll`, is about trees.  What it means for the sets and maps
  of a machine is in the module on the machine's collections.
-/
import BoxRuntime.Proofs.Tree.Contents

namespace BoxRuntime

/-- Boxes of this type have an order. -/
def Tag.Ordered (tag : Tag) : Prop :=
  ∃ cmp, comparator tag = .ok cmp

/-- A type without an order has no comparator, and that is the only reason. -/
theorem comparator_eq_error_iff {tag : Tag} {f : Fault} :
    comparator tag = .error f ↔ ¬ tag.Ordered ∧ f = .unordered tag := by
  constructor
  · intro h
    refine ⟨fun ⟨cmp, hcmp⟩ => ?_, ?_⟩
    · rw [hcmp] at h
      cases h
    · cases tag <;> cases h <;> rfl
  · rintro ⟨hnone, rfl⟩
    cases hcmp : comparator tag with
    | ok cmp => exact absurd ⟨cmp, hcmp⟩ hnone
    | error f =>
      cases tag <;> cases hcmp <;> rfl

namespace SearchTree

variable {shape : Shape} {β : Type} {t : SearchTree shape β}

/-- The tree does not take the key, for that reason. -/
inductive Refuses (t : SearchTree shape β) (k : Handle) : Fault → Prop where
  | mismatch {type : Tag} :
      t.elementType = some type → type ≠ k.tag → Refuses t k (.elementMismatch type k.tag)
  | unordered :
      (∀ type, t.elementType = some type → type = k.tag) → ¬ k.tag.Ordered →
        Refuses t k (.unordered k.tag)

/-- What a tree that was made with `tag`, and took the entries `taken`, knows about its keys. -/
structure Settled (t : SearchTree shape β) (tag : Tag) (taken : List (Entry β)) : Prop where
  /-- The element type is the one given or, if that was left open, that of the first entry. -/
  elementType_eq : t.elementType =
    if tag = .none then taken.head?.map fun e => e.key.tag else some tag
  /-- Once settled it is never another. -/
  lasting : ∀ type es, t.elementType = some type → (t.insertAll es).elementType = some type
  typed : ∀ e ∈ t.entries.toList, t.elementType = some e.key.tag
  /-- A tree that holds something has an element type with an order. -/
  ordered : t.isEmpty = false → ∃ type, t.elementType = some type ∧ type.Ordered
  insert_fails : ∀ e f, t.insert e = .error f t ↔ t.Refuses e.key f
  insert_succeeds : ∀ e, (∃ outcome t', t.insert e = .ok outcome t') ↔
    (∀ type, t.elementType = some type → type = e.key.tag) ∧ e.key.tag.Ordered
  find_fails : ∀ k f, t.find k = .error f ↔ t.isEmpty = false ∧
    ∃ type, t.elementType = some type ∧ type ≠ k.tag ∧ f = .elementMismatch type k.tag
  /-- No comparator ever meets an operand that it is not for. -/
  compares : ∀ e type found, (∀ t', t.insert e ≠ .error (.foreignOperand type found) t') ∧
    t.find e.key ≠ .error (.foreignOperand type found)
  /-- A tree for keys without an order stays empty. -/
  empty : tag ≠ .none → ¬ tag.Ordered → t.isEmpty = true

/-! ## One key

  For every tree that insertions can make, whether a key is refused is settled before the search
  begins, and the fault tells which of two reasons it was. -/

/-- A tree refuses a key of another type than its own, and if its own is open, a key of a type
without an order. -/
theorem resolve_eq_error_iff {k : Handle} {f : Fault} :
    t.resolve k.tag = .error f ↔ t.Refuses k f := by
  constructor
  · -- The type is open, or settled as another, or settled as that of the key.
    intro h
    unfold resolve at h
    cases htype : t.elementType with
    | none =>
      rw [htype] at h
      obtain ⟨hnone, rfl⟩ := comparator_eq_error_iff.mp h
      refine .unordered (fun type hsome => ?_) hnone
      rw [htype] at hsome
      cases hsome
    | some expected =>
      rw [htype] at h
      dsimp only at h
      -- A tree that has settled on the type of the key can still have no order for it.
      by_cases hsame : expected = k.tag
      · rw [if_pos hsame, hsame] at h
        obtain ⟨hnone, rfl⟩ := comparator_eq_error_iff.mp h
        refine .unordered (fun type hsome => ?_) hnone
        rw [← Option.some.inj (htype.symm.trans hsome)]
        exact hsame
      · rw [if_neg hsame] at h
        obtain rfl := Except.error.inj h
        exact .mismatch htype hsame
  · intro h
    cases h with
    | mismatch htype hne =>
      unfold resolve
      rw [htype]
      exact if_neg hne
    | unordered hsame hnone =>
      have herror := comparator_eq_error_iff.mpr ⟨hnone, rfl⟩
      unfold resolve
      cases htype : t.elementType with
      | none => exact herror
      | some expected =>
        dsimp only
        rw [if_pos (hsame expected htype), hsame expected htype]
        exact herror

/-- An insertion fails exactly if the key is refused, for the same reason, and leaves the tree. -/
theorem Sound.insert_fails (hs : t.Sound) (e : Entry β) (f : Fault) :
    t.insert e = .error f t ↔ t.Refuses e.key f :=
  hs.insert_eq_error_iff.trans resolve_eq_error_iff

/-- It succeeds exactly if the type is right and has an order. -/
theorem Sound.insert_succeeds (hs : t.Sound) (e : Entry β) :
    (∃ outcome t', t.insert e = .ok outcome t') ↔
      (∀ type, t.elementType = some type → type = e.key.tag) ∧ e.key.tag.Ordered := by
  constructor
  · rintro ⟨outcome, t', h⟩
    obtain ⟨-, cmp, hr⟩ := change_of_insert hs h
    obtain ⟨htype, hcmp⟩ := resolve_eq_ok.mp hr
    exact ⟨htype, cmp, hcmp⟩
  · rintro ⟨htype, cmp, hcmp⟩
    obtain ⟨outcome, t', h, -⟩ := insert_of_resolve hs (resolve_eq_ok.mpr ⟨htype, hcmp⟩)
    exact ⟨_, _, h⟩

/-- A tree that holds something has an element type, and that type has an order. -/
theorem Sound.ordered_of_nonempty (hs : t.Sound) (hne : t.isEmpty = false) :
    ∃ type, t.elementType = some type ∧ type.Ordered := by
  have hlist : t.toList ≠ [] := by
    intro hnil
    rw [hs.isEmpty_iff.mpr hnil] at hne
    cases hne
  obtain ⟨e, he⟩ := List.exists_mem_of_ne_nil _ hlist
  exact ⟨e.key.tag, hs.typed e he, hs.ordered e he⟩

/-- A search fails only for a key of another type, and in an empty tree not even then. -/
theorem Sound.find_fails (hs : t.Sound) (k : Handle) (f : Fault) :
    t.find k = .error f ↔ t.isEmpty = false ∧
      ∃ type, t.elementType = some type ∧ type ≠ k.tag ∧ f = .elementMismatch type k.tag := by
  -- An empty tree finds nothing; one that is not has settled on its type.
  cases hempty : t.isEmpty with
  | true =>
    have hfind : t.find k = .ok none := by rw [find, if_pos hempty]
    rw [hfind]
    constructor
    · intro h
      cases h
    · rintro ⟨h, -⟩
      cases h
  | false =>
    obtain ⟨type, htype, -⟩ := hs.ordered_of_nonempty hempty
    -- Of the right type a key is looked up in an order that exists, so nothing fails.
    by_cases hsame : type = k.tag
    · rw [find_of_type hs (hsame ▸ htype)]
      constructor
      · intro h
        cases h
      · rintro ⟨-, type', htype', hne, -⟩
        exact absurd ((Option.some.inj (htype'.symm.trans htype)).trans hsame) hne
    · have hfind : t.find k = .error (.elementMismatch type k.tag) := by
        rw [find, if_neg (by rw [hempty]; decide), resolve_eq_error_iff.mpr (.mismatch htype hsame)]
      rw [hfind]
      constructor
      · intro h
        exact ⟨rfl, type, htype, hsame, (Except.error.inj h).symm⟩
      · rintro ⟨-, type', htype', -, rfl⟩
        obtain rfl := Option.some.inj (htype'.symm.trans htype)
        rfl

/-! ## The element type

  It is there from the first accepted entry on, and no later entry changes it. -/

/-- The element type of a sound tree stays, and as long as it is open the first entry settles it. -/
theorem elementType_insertAll (hs : t.Sound) (es : List (Entry β)) :
    (t.insertAll es).elementType =
      t.elementType.or ((t.accepted es).head?.map fun e => e.key.tag) := by
  induction es generalizing t with
  | nil => exact Option.or_none.symm
  | cons e es ih =>
    cases h : t.insert e with
    | error f t' =>
      rw [insertAll, List.foldl_cons, keep_of_error h, accepted, h, insert_error h]
      exact ih hs
    | ok outcome t' =>
      obtain ⟨hchange, cmp, hr⟩ := change_of_insert hs h
      rw [insertAll, List.foldl_cons, keep_of_ok h, accepted, h]
      have hlater := ih (hchange.sound hs hr)
      -- whatever comes after, the type is now that of this key, and it was no other before
      rw [hchange.elementType_eq hs hr] at hlater
      refine hlater.trans ?_
      cases htype : t.elementType with
      | none => rfl
      | some type =>
        rw [(resolve_eq_ok.mp hr).1 type htype]
        rfl

/-- **The first key settles the type of all others, and no comparison fails.**  This is so in every
tree, whatever its shape, that insertions make, rejected ones included. -/
theorem settled_insertAll (tag : Tag) (es : List (Entry β)) :
    ((new tag : SearchTree shape β).insertAll es).Settled tag
      ((new tag : SearchTree shape β).accepted es) := by
  have hnew : (new tag : SearchTree shape β).Sound := sound_new tag
  obtain ⟨hs, -⟩ := insertAll_spec hnew es
  have htype := elementType_insertAll hnew es
  refine ⟨?_, ?_, ?_, hs.ordered_of_nonempty, hs.insert_fails, hs.insert_succeeds, hs.find_fails,
    ?_, ?_⟩
  · rw [htype]
    show (if tag = .none then none else some tag).or _ = _
    split
    · exact Option.none_or
    · rfl
  · intro type es' hsome
    rw [elementType_insertAll hs, hsome]
    rfl
  · intro e he
    rw [toList_entries] at he
    exact hs.typed e he
  · intro e type found
    refine ⟨fun t' h => ?_, fun h => ?_⟩
    · obtain rfl := insert_error h
      cases (hs.insert_fails e _).mp h
    · obtain ⟨-, _, -, -, hfault⟩ := (hs.find_fails e.key _).mp h
      cases hfault
  · intro hgiven hnone
    -- an entry would have a key of the given type, and that type an order
    rw [← Bool.not_eq_false]
    intro hne
    obtain ⟨type, hsome, hordered⟩ := hs.ordered_of_nonempty hne
    have hfixed : (new tag : SearchTree shape β).elementType = some tag := if_neg hgiven
    rw [htype, hfixed] at hsome
    obtain rfl : tag = type := Option.some.inj hsome
    exact hnone hordered

end SearchTree

end BoxRuntime
