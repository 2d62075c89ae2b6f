/-
  Which operands comparators take.

  What is asked of the comparator of a type is that it vets both operands (`Vets`): it orders two
  boxes of its type, and of any others it refuses the first that is not of its type, by a fault with
  that type and its own.

  Strings and ints are ordered by what is in them (`Tag.OrdersContents`).  Their comparators ask
  both operands for their contents, which only boxes of the type have, and so they vet them all
  (`vets_of_parts`).  The other types share one comparator, by number (`Tag.OrdersNumbers`), and it
  is not told for which of them it was fetched.  All that it can see is whether the operands are of
  one type.  So it vets them only if the first is of the right type; otherwise it orders two boxes
  of any one type, even of a type that has no order, and its fault names the type of the first
  operand in place of its own.

  The main statement is `operands_account`.
-/
import BoxRuntime.Proofs.KeyOrder

namespace BoxRuntime

/-- Boxes of this type are ordered by what is in them. -/
def Tag.OrdersContents (t : Tag) : Prop :=
  t = .string ∨ t = .int

/-- Boxes of this type are ordered by their numbers. -/
def Tag.OrdersNumbers (t : Tag) : Prop :=
  t = .any ∨ t = .wideInt ∨ t = .list ∨ t = .set

/-- A comparator orders two operands exactly if both are of its type, and otherwise refuses the
first that is not. -/
structure Vets (cmp : Comparator) (t : Tag) (a b : Handle) : Prop where
  orders_iff : (∃ answer, cmp a b = .ok answer) ↔ a.tag = t ∧ b.tag = t
  first : a.tag ≠ t → cmp a b = .error (.foreignOperand t a.tag)
  second : a.tag = t → b.tag ≠ t → cmp a b = .error (.foreignOperand t b.tag)

namespace Handle

variable {v : Handle}

/-- A box has a text exactly if it is a string. -/
theorem string?_eq_none_iff : v.string? = none ↔ v.tag ≠ .string := by
  obtain ⟨id, datum⟩ := v
  cases datum with
  | string s => exact iff_of_false nofun fun hne => hne rfl
  | _ => exact iff_of_true rfl nofun

/-- It has a number exactly if it is an int. -/
theorem int?_eq_none_iff : v.int? = none ↔ v.tag ≠ .int := by
  obtain ⟨id, datum⟩ := v
  cases datum with
  | int n => exact iff_of_false nofun fun hne => hne rfl
  | _ => exact iff_of_true rfl nofun

end Handle

section

variable {t : Tag} {cmp : Comparator} {a b : Handle}

/-- Three cases settle whether two operands are vetted: the first is foreign, only the second is, or
none. -/
theorem vets_of_cases (hfirst : a.tag ≠ t → cmp a b = .error (.foreignOperand t a.tag))
    (hsecond : a.tag = t → b.tag ≠ t → cmp a b = .error (.foreignOperand t b.tag))
    (hboth : a.tag = t → b.tag = t → ∃ answer, cmp a b = .ok answer) : Vets cmp t a b := by
  refine ⟨⟨?_, fun h => hboth h.1 h.2⟩, hfirst, hsecond⟩
  rintro ⟨answer, hanswer⟩
  by_cases ha : a.tag = t
  · by_cases hb : b.tag = t
    · exact ⟨ha, hb⟩
    · rw [hsecond ha hb] at hanswer
      cases hanswer
  · rw [hfirst ha] at hanswer
    cases hanswer

/-- A comparator vets its operands if it asks them, one after the other, for something that only
boxes of its type have. -/
theorem vets_of_parts {α : Type} {part : Handle → Option α} (hpart : ∀ v, part v = none ↔ v.tag ≠ t)
    (hfirst : part a = none → cmp a b = .error (.foreignOperand t a.tag))
    (hsecond : ∀ x, part a = some x → part b = none → cmp a b = .error (.foreignOperand t b.tag))
    (hboth : a.tag = t → b.tag = t → ∃ answer, cmp a b = .ok answer) : Vets cmp t a b := by
  refine vets_of_cases ?_ ?_ hboth
  · intro ha
    exact hfirst ((hpart a).mpr ha)
  · intro ha hb
    cases hx : part a with
    | none => exact absurd ha ((hpart a).mp hx)
    | some x => exact hsecond x hx ((hpart b).mpr hb)

/-- The comparators of strings and ints ask both operands for their contents. -/
theorem vets_of_contents (h : comparator t = .ok cmp) (ht : t.OrdersContents) (a b : Handle) :
    Vets cmp t a b := by
  have hboth : a.tag = t → b.tag = t → ∃ answer, cmp a b = .ok answer :=
    fun ha hb => ⟨_, compare_of_comparator h ha hb⟩
  rcases ht with rfl | rfl
  · obtain rfl := Except.ok.inj h
    -- A comparator of contents fails at the first operand that has none, which is one of another
    -- type.
    refine vets_of_parts (fun _ => Handle.string?_eq_none_iff) ?_ ?_ hboth
    · intro ha
      rw [compareStrings, ha]
    · intro s ha hb
      rw [compareStrings, ha, hb]
  · obtain rfl := Except.ok.inj h
    refine vets_of_parts (fun _ => Handle.int?_eq_none_iff) ?_ ?_ hboth
    · intro ha
      rw [compareInts, ha]
    · intro n ha hb
      rw [compareInts, ha, hb]

/-- The types that order numbers have the same comparator. -/
theorem comparator_of_ordersNumbers (ht : t.OrdersNumbers) :
    comparator t = .ok compareIdentity := by
  rcases ht with rfl | rfl | rfl | rfl <;> rfl

/-- The types that have a comparator are those that order contents or numbers. -/
theorem exists_comparator_iff :
    (∃ cmp, comparator t = .ok cmp) ↔ t.OrdersContents ∨ t.OrdersNumbers := by
  constructor
  · -- The type is looked up in the table.
    rintro ⟨cmp, h⟩
    cases t with
    | string => exact Or.inl (Or.inl rfl)
    | int => exact Or.inl (Or.inr rfl)
    | any => exact Or.inr (Or.inl rfl)
    | wideInt => exact Or.inr (Or.inr (Or.inl rfl))
    | list => exact Or.inr (Or.inr (Or.inr (Or.inl rfl)))
    | set => exact Or.inr (Or.inr (Or.inr (Or.inr rfl)))
    | none => cases h
    | map => cases h
    | record => cases h
    | fields => cases h
  · rintro ((rfl | rfl) | ht)
    · exact ⟨compareStrings, rfl⟩
    · exact ⟨compareInts, rfl⟩
    · exact ⟨compareIdentity, comparator_of_ordersNumbers ht⟩

/-- No type is ordered both by contents and by box numbers. -/
theorem Tag.OrdersNumbers.not_ordersContents (ht : t.OrdersNumbers) : ¬ t.OrdersContents := by
  rcases ht with rfl | rfl | rfl | rfl <;> rintro (h | h) <;> cases h

/-- Boxes of two types are not ordered by identity. -/
theorem compareIdentity_of_ne (h : a.tag ≠ b.tag) :
    compareIdentity a b = .error (.foreignOperand a.tag b.tag) := by
  rw [compareIdentity, if_neg h]

/-- The shared comparator vets a second operand against the first, so it does right by a type if the
first is of that type, and only then. -/
theorem vets_compareIdentity_iff : Vets compareIdentity t a b ↔ a.tag = t := by
  constructor
  · intro hv
    by_cases ha : a.tag = t
    · exact ha
    · have hrefused := hv.first ha
      by_cases hab : a.tag = b.tag
      · rw [compareIdentity_of_tag hab] at hrefused
        cases hrefused
      · rw [compareIdentity_of_ne hab] at hrefused
        -- the fault names the first operand's type as the comparator's
        exact (Fault.foreignOperand.inj (Except.error.inj hrefused)).1
  · intro ha
    subst ha
    refine vets_of_cases (fun hne => absurd rfl hne) ?_ ?_
    · intro _ hb
      exact compareIdentity_of_ne (Ne.symm hb)
    · intro _ hb
      exact ⟨_, compareIdentity_of_tag hb.symm⟩

/-- That is the only way to fail: the fault names the two types. -/
theorem compareIdentity_eq_error {f : Fault} (h : compareIdentity a b = .error f) :
    f = .foreignOperand a.tag b.tag := by
  by_cases hab : a.tag = b.tag
  · rw [compareIdentity_of_tag hab] at h
    cases h
  · rw [compareIdentity_of_ne hab] at h
    exact (Except.error.inj h).symm

/-- A comparator that vets its operands fails by naming one of a foreign type. -/
theorem Vets.eq_foreignOperand (hv : Vets cmp t a b) {f : Fault} (h : cmp a b = .error f) :
    ∃ found, f = .foreignOperand t found := by
  by_cases ha : a.tag = t
  · by_cases hb : b.tag = t
    · obtain ⟨answer, hanswer⟩ := hv.orders_iff.mpr ⟨ha, hb⟩
      rw [hanswer] at h
      cases h
    · rw [hv.second ha hb] at h
      exact ⟨b.tag, (Except.error.inj h).symm⟩
  · rw [hv.first ha] at h
    exact ⟨a.tag, (Except.error.inj h).symm⟩

/-- **Which operands a comparator vets, and what it does with the others.**  The comparator of a
type that orders contents vets all pairs of boxes.  That of a type that orders numbers vets those
pairs whose first box is of the type; of the rest it orders those of one type, whichever that is,
and else blames the second box for not being of the type of the first.  A refusal is always a
misuse. -/
theorem operands_account (h : comparator t = .ok cmp) :
    (∀ a b, Vets cmp t a b ↔ t.OrdersContents ∨ a.tag = t) ∧
    (t.OrdersNumbers → ∀ a b, a.tag ≠ t →
      (a.tag = b.tag → cmp a b = .ok (compare a.id b.id)) ∧
        (a.tag ≠ b.tag → cmp a b = .error (.foreignOperand a.tag b.tag))) ∧
    ∀ a b f, cmp a b = .error f → f.kind = .usage := by
  -- A comparator of contents knows its type; one of numbers only knows whether the two are alike.
  rcases exists_comparator_iff.mp ⟨cmp, h⟩ with ht | ht
  · refine ⟨fun a b => ?_, fun hnot => absurd ht hnot.not_ordersContents, ?_⟩
    · exact ⟨fun _ => Or.inl ht, fun _ => vets_of_contents h ht a b⟩
    · intro a b f hf
      obtain ⟨found, rfl⟩ := (vets_of_contents h ht a b).eq_foreignOperand hf
      rfl
  · obtain rfl := Except.ok.inj ((comparator_of_ordersNumbers ht).symm.trans h)
    refine ⟨fun a b => ?_, fun _ a b _ => ⟨compareIdentity_of_tag, compareIdentity_of_ne⟩, ?_⟩
    · rw [vets_compareIdentity_iff, or_iff_right ht.not_ordersContents]
    · intro a b f hf
      obtain rfl := compareIdentity_eq_error hf
      rfl

/-- The comparator of lists refuses an int after a list, and orders two records. -/
theorem operands_account_lists :
    comparator .list = .ok compareIdentity ∧
      compareIdentity ⟨1, .list⟩ ⟨2, .int 7⟩ = .error (.foreignOperand .list .int) ∧
        compareIdentity ⟨3, .record⟩ ⟨4, .record⟩ = .ok .lt := by
  have hlist : Tag.list.OrdersNumbers := Or.inr (Or.inr (Or.inl rfl))
  have hcmp : comparator .list = .ok compareIdentity := rfl
  obtain ⟨hvets, hothers, -⟩ := operands_account hcmp
  have hsecond := ((hvets ⟨1, .list⟩ ⟨2, .int 7⟩).mpr (Or.inr rfl)).second rfl (by decide)
  have hrecords := (hothers hlist ⟨3, .record⟩ ⟨4, .record⟩ (by decide)).1 rfl
  exact ⟨hcmp, hsecond, hrecords⟩

/-- The comparator of lists does not vet its operands.  It orders two boxes of a type that has no
order, and when it refuses a box it does so in the name of a type that has no comparator. -/
theorem list_comparator_takes_records : ∃ cmp, comparator .list = .ok cmp ∧
    cmp ⟨1, .record⟩ ⟨2, .record⟩ = .ok .lt ∧ ¬ Vets cmp .list ⟨1, .record⟩ ⟨2, .record⟩ ∧
      cmp ⟨3, .record⟩ ⟨4, .int 7⟩ = .error (.foreignOperand .record .int) ∧
        ¬ Vets cmp .list ⟨3, .record⟩ ⟨4, .int 7⟩ := by
  refine ⟨compareIdentity, rfl, rfl, ?_, rfl, ?_⟩
  · intro hv
    cases hv.first (by decide)
  · intro hv
    cases hv.first (by decide)

end

end BoxRuntime
