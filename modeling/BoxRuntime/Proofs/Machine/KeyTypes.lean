/-
  Which keys sets and maps take.

  A set or map has a tree, and the calls that added to it since it was made have inserted into that
  tree one entry each, in their order; no other call has changed it (`content?_after_alloc`).  So
  what holds of trees that insertions make holds of the collection (`HoldsSet`, `HoldsMap`),
  whatever else was called on the machine in the meantime.

  Adding fails as inserting into the tree does, and asking a set for a value fails as searching it
  does.  The value under a key is another matter: a map looks at its key type before it looks
  whether it is empty, so even an empty map turns away keys of another type, which an empty set does
  not (`Withholds`).

  The main statement is `collections_settled`.
-/
import BoxRuntime.Proofs.Machine.History
import BoxRuntime.Proofs.Machine.Refusal
import BoxRuntime.Proofs.Tree.KeyTypes

namespace BoxRuntime

namespace Machine

open SearchTree

variable {α β : Type} {m : Machine}

/-! ## What collections hold

  Success and failure of an operation on the machine are compared with those of an operation on the
  tree, fault for fault. -/

/-- The operation fails as the computation does, and succeeds if that does. -/
structure FailsLike (m : Machine) (op : Op α) (computed : Except Fault β) : Prop where
  fails : ∀ f, op m = .error f m ↔ computed = .error f
  succeeds : (∃ a m', op m = .ok a m') ↔ ∃ b, computed = .ok b

/-- A map does not give out a value under the key, for that reason. -/
inductive Withholds (tree : MapTree) (key : Handle) : Fault → Prop where
  | untyped : tree.elementType = none → Withholds tree key .emptyMap
  | mismatch {type : Tag} : tree.elementType = some type → type ≠ key.tag →
      Withholds tree key (.elementMismatch type key.tag)
  | empty : tree.elementType = some key.tag → tree.isEmpty = true → Withholds tree key .emptyMap
  | unknown : tree.elementType = some key.tag → tree.isEmpty = false → tree.find key = .ok none →
      Withholds tree key .keyNotFound

/-- The box is a set with that tree, and goes by it. -/
structure HoldsSet (m : Machine) (set : Handle) (tree : SetTree) : Prop where
  content_eq : m.heap.content? set.id = some (.set tree)
  add : ∀ v, m.FailsLike (setAdd set v) (completed (tree.insert { key := v, item := () }))
  contains : ∀ v, m.FailsLike (setContains set v) (tree.find v)

/-- The box is a map with that tree, and goes by it. -/
structure HoldsMap (m : Machine) (map : Handle) (tree : MapTree) : Prop where
  content_eq : m.heap.content? map.id = some (.map tree)
  add : ∀ key value,
    m.FailsLike (mapAdd map key value) (completed (tree.insert { key, item := value }))
  get_fails : ∀ key f, mapGet map key m = .error f m ↔ Withholds tree key f
  get_compares : ∀ key type found m', mapGet map key m ≠ .error (.foreignOperand type found) m'

/-! ## Operations

  Each operation reads the collection and then does what the tree does, so it fails when and as the
  tree does. -/

/-- An operation fails as its plan does. -/
theorem failsLike_of_does {op : Op α} {plan : Except Fault (α × Patch)} {computed : Except Fault β}
    (hd : m.Does op plan) (hplan : ∀ f, plan = .error f ↔ computed = .error f) :
    m.FailsLike op computed := by
  -- Both ends of the plan, each compared with both ends of the computation.
  cases plan with
  | error f =>
    have hfail : op m = .error f m := hd
    have hcomputed := (hplan f).mp rfl
    rw [hcomputed]
    refine ⟨fun g => ?_, ?_⟩
    · rw [hfail]
      constructor
      · intro h
        rw [(EStateM.Result.error.inj h).1]
      · intro h
        rw [Except.error.inj h]
    · rw [hfail]
      constructor
      · rintro ⟨a, m', h⟩
        cases h
      · rintro ⟨b, h⟩
        cases h
  | ok r =>
    obtain ⟨logger, hok⟩ := hd
    cases computed with
    | error f => cases (hplan f).mpr rfl
    | ok b =>
      refine ⟨fun g => ?_, fun _ => ⟨b, rfl⟩, fun _ => ⟨_, _, hok⟩⟩
      rw [hok]
      constructor
      · intro h
        cases h
      · intro h
        cases h

/-- If only the first of two reads can fail, it is the one that did. -/
theorem bind_eq_error_iff {x : Except Fault α} {k : α → Except Fault β} {f : Fault}
    (hk : ∀ a g, k a ≠ .error g) : (x >>= k) = .error f ↔ x = .error f := by
  -- Only the first part can fail.
  cases x with
  | error g =>
    constructor
    · intro h
      rw [Except.error.inj h]
    · intro h
      rw [Except.error.inj h]
      rfl
  | ok a =>
    constructor
    · intro h
      exact absurd h (hk a f)
    · intro h
      cases h

/-- Adding to a set and asking it fail as inserting into its tree and looking up do. -/
theorem holdsSet_of_content {set : Handle} {tree : SetTree}
    (hc : m.heap.content? set.id = some (.set tree)) : m.HoldsSet set tree := by
  -- The box has the set, so reading it never fails and the rest of the plan is all there is.
  have hread : ∀ operation, m.heap.setOf operation set = .ok tree := by
    intro operation
    rw [Heap.setOf, hc]
  refine ⟨hc, fun v => ?_, fun v => ?_⟩
  · refine failsLike_of_does (does_setAdd set v) fun f => ?_
    rw [Plan.setAdd, hread]
    show (completed (tree.insert { key := v, item := () }) >>= _) = _ ↔ _
    -- Once the tree has taken the element, nothing can go wrong.
    refine bind_eq_error_iff fun result g h => ?_
    obtain ⟨outcome, grown⟩ := result
    cases outcome <;> cases h
  · refine failsLike_of_does (does_setContains set v) fun f => ?_
    rw [Plan.setContains, hread]
    show (tree.find v >>= _) = _ ↔ _
    refine bind_eq_error_iff fun found g h => ?_
    cases h

/-- What a map gives out depends on the type of the key, and only then on its entries. -/
theorem valueOf_eq_error_iff {tree : MapTree} (hs : tree.Sound) {key : Handle} {f : Fault} :
    Plan.valueOf tree key = .error f ↔ Withholds tree key f := by
  constructor
  · intro h
    unfold Plan.valueOf at h
    cases htype : tree.elementType with
    | none =>
      rw [htype] at h
      obtain rfl := Except.error.inj h
      exact .untyped htype
    | some expected =>
      rw [htype] at h
      dsimp only at h
      by_cases hsame : expected = key.tag
      · rw [if_neg (not_not_intro hsame)] at h
        subst hsame
        cases hempty : tree.isEmpty with
        | true =>
          rw [hempty] at h
          obtain rfl := Except.error.inj h
          exact .empty htype hempty
        | false =>
          -- the search has the right type, so it does not fail itself
          rw [hempty, find_of_type hs htype] at h
          cases hfound : Assoc.lookup key.toKey tree.toList with
          | some e =>
            rw [hfound] at h
            cases h
          | none =>
            rw [hfound] at h
            obtain rfl := Except.error.inj h
            exact .unknown htype hempty ((find_of_type hs htype).trans (congrArg _ hfound))
      · rw [if_pos hsame] at h
        obtain rfl := Except.error.inj h
        exact .mismatch htype hsame
  · intro h
    unfold Plan.valueOf
    cases h with
    | untyped htype => rw [htype]
    | mismatch htype hne =>
      rw [htype]
      exact if_pos hne
    | empty htype hempty =>
      rw [htype, hempty]
      exact (if_neg (not_not_intro rfl)).trans (if_pos rfl)
    | unknown htype hempty hfind =>
      rw [htype, hempty, hfind]
      exact if_neg (not_not_intro rfl)

theorem holdsMap_of_content {map : Handle} {tree : MapTree} (hs : tree.Sound)
    (hc : m.heap.content? map.id = some (.map tree)) : m.HoldsMap map tree := by
  -- As with sets: reading the map never fails.
  have hread : ∀ operation, m.heap.mapOf operation map = .ok tree := by
    intro operation
    rw [Heap.mapOf, hc]
  have hget : ∀ key f, Plan.mapGet m.heap map key = .error f ↔ Plan.valueOf tree key = .error f := by
    intro key f
    rw [Plan.mapGet, hread]
    show (Plan.valueOf tree key >>= _) = _ ↔ _
    refine bind_eq_error_iff fun v g h => ?_
    cases h
  have hfails : ∀ key f, mapGet map key m = .error f m ↔ Withholds tree key f := by
    intro key f
    rw [← valueOf_eq_error_iff hs]
    exact (failsLike_of_does (does_mapGet map key) (hget key)).fails f
  refine ⟨hc, fun key value => ?_, hfails, ?_⟩
  · refine failsLike_of_does (does_mapAdd map key value) fun f => ?_
    rw [Plan.mapAdd, hread]
    show (completed (tree.insert { key, item := value }) >>= _) = _ ↔ _
    refine bind_eq_error_iff fun result g h => ?_
    obtain ⟨outcome, grown⟩ := result
    cases outcome <;> cases h
  · -- A map that is searched is not changed, and what it withholds it does not give.
    intro key type found m' h
    obtain rfl : m' = m := (does_mapGet map key).restores h
    cases (hfails key _).mp h

/-! ## From the making on

  The tree of a collection is the insertions of the calls that named it, so what was shown of trees
  applies. -/

/-- **Every collection settles its key type once, and no comparison in it fails.**  This holds of
trees of any shape, and of the sets and maps of a machine as long as they live: whatever was called
with whatever boxes, they are the trees that the calls which added to them have made. -/
theorem collections_settled :
    (∀ (shape : Shape) (β : Type) (tag : Tag) (es : List (Entry β)),
      ((new tag : SearchTree shape β).insertAll es).Settled tag
        ((new tag : SearchTree shape β).accepted es)) ∧
    (∀ (m : Machine) (tag : Tag) (calls : List Call), ∃ set made, newSet tag m = .ok set made ∧
      ((made.after calls).heap.isLive set.id = true →
        (made.after calls).HoldsSet set
            ((new tag).insertAll (calls.flatMap (Call.added set.id))) ∧
          ((new tag : SetTree).insertAll (calls.flatMap (Call.added set.id))).Settled tag
            ((new tag : SetTree).accepted (calls.flatMap (Call.added set.id))))) ∧
    ∀ (m : Machine) (tag : Tag) (calls : List Call), ∃ map made, newMap tag m = .ok map made ∧
      ((made.after calls).heap.isLive map.id = true →
        (made.after calls).HoldsMap map
            ((new tag).insertAll (calls.flatMap (Call.stored map.id))) ∧
          ((new tag : MapTree).insertAll (calls.flatMap (Call.stored map.id))).Settled tag
            ((new tag : MapTree).accepted (calls.flatMap (Call.stored map.id)))) := by
  -- A new box has an empty tree, and after the calls what they added; the tree does the rest.
  refine ⟨fun shape β tag es => settled_insertAll tag es, fun m tag calls => ?_,
    fun m tag calls => ?_⟩
  · refine ⟨_, _, rfl, fun hlive => ⟨?_, settled_insertAll tag _⟩⟩
    exact holdsSet_of_content (content?_after_alloc .set hlive)
  · refine ⟨_, _, rfl, fun hlive => ⟨?_, settled_insertAll tag _⟩⟩
    exact holdsMap_of_content (insertAll_spec (sound_new tag) _).1 (content?_after_alloc .map hlive)

/-- A set that took a string first and then turns an int away, and a map that can hold nothing. -/
theorem collections_settled_refusals :
    (∃ (m : Machine) (tree : SetTree), m.HoldsSet ⟨1, .set⟩ tree ∧
      tree.Settled .none [⟨⟨2, .string "b"⟩, ()⟩] ∧ tree.elementType = some .string ∧
        setAdd ⟨1, .set⟩ ⟨3, .int 3⟩ m = .error (.elementMismatch .string .int) m) ∧
    ∃ (m : Machine) (tree : MapTree), m.HoldsMap ⟨1, .map⟩ tree ∧ tree.Settled .record [] ∧
      tree.isEmpty = true ∧ mapGet ⟨1, .map⟩ ⟨2, .record⟩ m = .error .emptyMap m := by
  -- One set settled by its first element, and one map that refused the only key.
  obtain ⟨-, hsets, hmaps⟩ := collections_settled
  obtain ⟨set, made, hset, hholds⟩ := hsets {} .none [.boxString "b", .boxInt 3,
    .setAdd ⟨1, .set⟩ ⟨2, .string "b"⟩, .setAdd ⟨1, .set⟩ ⟨3, .int 3⟩]
  obtain ⟨map, made', hmap, hholds'⟩ := hmaps {} .record [.emptyBox .record,
    .mapAdd ⟨1, .map⟩ ⟨2, .record⟩ ⟨2, .record⟩]
  obtain ⟨rfl, rfl⟩ := EStateM.Result.ok.inj hset
  obtain ⟨rfl, rfl⟩ := EStateM.Result.ok.inj hmap
  obtain ⟨hheld, hsettled⟩ := hholds (by decide +kernel)
  obtain ⟨hheld', hsettled'⟩ := hholds' (by decide +kernel)
  exact ⟨⟨_, _, hheld, hsettled, rfl, ((hheld.add _).fails _).mpr rfl⟩,
    _, _, hheld', hsettled', rfl, (hheld'.get_fails _ _).mpr (.empty rfl rfl)⟩

end Machine

end BoxRuntime
