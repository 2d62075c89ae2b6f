/-
  What a list reserves.

  The program makes sure of a slot and then puts the element in.  Two questions settle what comes of
  that: which reservation the list has afterwards (`reservation`), and what is put in (`store`).  A
  push answers both (`push_eq`), and one that is refused leaves the list as it was.

  A request is granted or refused by its size alone (`Granted`): an array of pointers has fewer than
  `2 ^ 60` slots, and the allocator has a limit of its own.

  How much a list reserves makes no difference.  Reservations that begin with a small size hint are
  powers of two (`Fits`).  Let two lists have the same elements and such reservations, and let one
  reserve less than the other.  Then it reserves at most half as much, so what it asks for when it
  is full is no more than the other one has been granted.  So no list is refused a slot that the
  other one gets (`Like.reservation`); and lists with the same reservation are refused the same
  request.
-/
import BoxRuntime.GrowList
import Mathlib.Algebra.Group.Nat.Defs

namespace BoxRuntime

theorem sizeBound_eq : sizeBound = 2 ^ 64 :=
  rfl

/-- The highest bit is no more than the number itself. -/
theorem highBit_le (n : Nat) : highBit n ≤ n := by
  unfold highBit
  split
  · exact Nat.zero_le n
  · rename_i hn
    rw [Nat.shiftLeft_eq, Nat.one_mul]
    exact Nat.log2_self_le hn

theorem highBit_eq_pow {n : Nat} (hn : n ≠ 0) : highBit n = 2 ^ n.log2 := by
  rw [highBit, if_neg hn, Nat.shiftLeft_eq, Nat.one_mul]

/-- The first reservation is a power of two. -/
theorem double_highBit_eq_pow {n : Nat} (hn : n ≠ 0) : 2 * highBit n = 2 ^ (n.log2 + 1) := by
  rw [highBit_eq_pow hn, Nat.pow_succ, Nat.mul_comm]

/-! ## Requests

  Two limits, of which the one is fixed: an array may take so many bytes, and a slot takes eight.
  What is granted is below both. -/

/-- Both the byte limit and the allocator allow so many slots. -/
def Granted (limit n : Nat) : Prop :=
  n < 2 ^ 60 ∧ n < limit

/-- The byte limit is one byte short of `2 ^ 60` slots. -/
theorem inOnePiece_slots_iff {n : Nat} : InOnePiece n slotBytes ↔ n < 2 ^ 60 := by
  show n * 8 ≤ 2 ^ 63 - 1 ↔ n < 2 ^ 60
  omega

theorem reserve_of_granted {limit n : Nat} (h : Granted limit n) : reserve limit n = .ok n := by
  rw [reserve, if_pos ⟨inOnePiece_slots_iff.mpr h.1, h.2⟩]

/-- What is not granted is the number that the fault names. -/
theorem reserve_of_not_granted {limit n : Nat} (h : ¬Granted limit n) :
    reserve limit n = .error (.allocationFailed n) := by
  rw [reserve, if_neg fun hboth => h ⟨inOnePiece_slots_iff.mp hboth.1, hboth.2⟩]

/-- Whoever is granted a request is granted a smaller one. -/
theorem Granted.mono {limit n k : Nat} (h : Granted limit n) (hle : k ≤ n) : Granted limit k :=
  ⟨Nat.lt_of_le_of_lt hle h.1, Nat.lt_of_le_of_lt hle h.2⟩

theorem Granted.lt_sizeBound {limit n : Nat} (h : Granted limit n) : n < sizeBound := by
  have hbound := sizeBound_eq
  have hbytes := h.1
  omega

namespace GrowList

variable {α : Type} {limit : Nat} {l l' : GrowList α}

/-! ## Pushing in two halves

  The reservation may fail, storing cannot. A push that fails in the first half has not begun the
  second. -/

/-- The reservation a list has once one more element is pushed: doubled if it is full. -/
def reservation (limit : Nat) (l : GrowList α) : Except Fault Nat :=
  if l.isFull then
    if 2 * l.capacity < sizeBound then reserve limit (2 * l.capacity)
    else .error (.allocationFailed (sizeBound - 1))
  else .ok l.capacity

/-- Appends an element and sets the reservation. -/
def store (l : GrowList α) (capacity : Nat) (a : α) : GrowList α :=
  { slots := l.slots.push a, capacity }

/-- The element goes behind the others. -/
@[simp] theorem toList_store (l : GrowList α) (capacity : Nat) (a : α) :
    (l.store capacity a).toList = l.toList ++ [a] := by
  simp [store, toList]

@[simp] theorem size_store (l : GrowList α) (capacity : Nat) (a : α) :
    (l.store capacity a).size = l.size + 1 := by
  simp [store, size]

/-- A push sets the reservation and puts the element in, or it leaves the list as it was. -/
theorem push_eq (limit : Nat) (l : GrowList α) (a : α) :
    l.push limit a =
      match l.reservation limit with
      | .ok capacity => .ok l.isFull (l.store capacity a)
      | .error f => .error f l := by
  -- The push asks for room when the list is full, and so does the reservation, with the same two
  -- questions.
  unfold push reservation double
  by_cases hfull : l.isFull = true
  · rw [if_pos hfull, if_pos hfull]
    by_cases hsize : 2 * l.capacity < sizeBound
    · -- The size is one of 64 bits, so the allocator settles it.
      rw [if_pos hsize, if_pos hsize]
      cases reserve limit (2 * l.capacity) with
      | error f => rfl
      | ok capacity => exact congrArg (EStateM.Result.ok · _) hfull.symm
    · rw [if_neg hsize, if_neg hsize]
  · rw [if_neg hfull, if_neg hfull]
    exact congrArg (EStateM.Result.ok · _) (Bool.not_eq_true _ ▸ hfull).symm

/-- A push that gets its slot says whether the list was full. -/
theorem push_of_reservation {capacity : Nat} (h : l.reservation limit = .ok capacity) (a : α) :
    l.push limit a = .ok l.isFull (l.store capacity a) := by
  rw [push_eq, h]

/-- A push that gets none fails, and the list is the same. -/
theorem push_of_reservation_error {f : Fault} (h : l.reservation limit = .error f) (a : α) :
    l.push limit a = .error f l := by
  rw [push_eq, h]

/-- A list with a slot to spare keeps its reservation. -/
theorem reservation_of_free (hfree : l.size ≠ l.capacity) :
    l.reservation limit = .ok l.capacity :=
  if_neg fun hfull => hfree (beq_iff_eq.mp hfull)

/-- A full list asks for the double of what it has. -/
theorem reservation_of_full (hfull : l.size = l.capacity) (h : Granted limit (2 * l.capacity)) :
    l.reservation limit = .ok (2 * l.capacity) := by
  have hisFull : l.isFull = true := beq_iff_eq.mpr hfull
  rw [reservation, if_pos hisFull, if_pos h.lt_sizeBound, reserve_of_granted h]

/-! ## Reservations that do not show

  Lists that differ in their reservations only, and will go on to do so: whatever is pushed onto
  both, neither is refused. -/

/-- The list reserves a power of two, and the reservation was granted. -/
structure Fits (limit : Nat) (l : GrowList α) : Prop where
  power : ∃ k, l.capacity = 2 ^ k
  room : l.slots.size ≤ l.capacity
  granted : Granted limit l.capacity

/-- The lists have the same elements, and nobody can tell by pushing which is which. -/
structure Like (limit : Nat) (l l' : GrowList α) : Prop where
  slots : l'.slots = l.slots
  capacity : l'.capacity = l.capacity ∨ l.Fits limit ∧ l'.Fits limit

theorem Like.symm (h : l.Like limit l') : l'.Like limit l :=
  ⟨h.slots.symm, h.capacity.imp Eq.symm And.symm⟩

/-- A list with a small size hint begins with a power of two. -/
theorem ofHint_fits {hint : Nat} (hhint : hint < 2 ^ 20) (hroom : 2 ^ 22 ≤ limit) :
    ∃ l : GrowList α, ofHint limit hint = .ok l ∧ l.slots = #[] ∧ l.Fits limit := by
  have hbit := highBit_le (hint + 2)
  have hsize := sizeBound_eq
  have hhint' : hint + 2 < sizeBound := by omega
  have hcapacity : 2 * highBit (hint + 2) < sizeBound := by omega
  have hgranted : Granted limit (2 * highBit (hint + 2)) := ⟨by omega, by omega⟩
  have hpower := double_highBit_eq_pow (Nat.succ_ne_zero (hint + 1))
  refine ⟨{ slots := #[], capacity := 2 * highBit (hint + 2) }, ?_, rfl, ⟨_, hpower⟩,
    Nat.zero_le _, hgranted⟩
  unfold ofHint initialCapacity
  rw [if_pos ⟨hhint', hcapacity⟩, reserve_of_granted hgranted]
  rfl

/-- The list can take one more element if its elements leave a slot free in some reservation that
was granted. -/
theorem Fits.grows (h : l.Fits limit) {k : Nat} (hfree : l.slots.size < 2 ^ k)
    (hgranted : Granted limit (2 ^ k)) :
    ∃ capacity, l.reservation limit = .ok capacity ∧ ∀ a, (l.store capacity a).Fits limit := by
  have hsize : ∀ capacity a, (l.store capacity a).slots.size = l.slots.size + 1 :=
    fun capacity a => Array.size_push a
  obtain ⟨i, hi⟩ := h.power
  unfold reservation
  by_cases hfull : l.isFull = true
  · have heq : l.slots.size = l.capacity := beq_iff_eq.mp hfull
    -- the double is a power of two as well, and not beyond the one that was granted
    have hlt : i < k := (Nat.pow_lt_pow_iff_right (by decide)).mp (hi ▸ heq ▸ hfree)
    have hdouble : 2 * l.capacity = 2 ^ (i + 1) := by
      rw [hi, Nat.pow_succ, Nat.mul_comm]
    have hle : 2 * l.capacity ≤ 2 ^ k := hdouble ▸ Nat.pow_le_pow_right (by decide) hlt
    have hboth : Granted limit (2 * l.capacity) := hgranted.mono hle
    refine ⟨2 * l.capacity, ?_, fun a => ⟨⟨i + 1, hdouble⟩, ?_, hboth⟩⟩
    · rw [if_pos hfull, if_pos hboth.lt_sizeBound, reserve_of_granted hboth]
    · have hpositive : 0 < l.capacity := hi ▸ Nat.two_pow_pos i
      rw [hsize]
      show l.slots.size + 1 ≤ 2 * l.capacity
      omega
  · have hne : l.slots.size ≠ l.capacity := fun heq => hfull (beq_iff_eq.mpr heq)
    refine ⟨l.capacity, if_neg hfull, fun a => ⟨⟨i, hi⟩, ?_, h.granted⟩⟩
    have hroom := h.room
    rw [hsize]
    show l.slots.size + 1 ≤ l.capacity
    omega

/-- If two lists that are alike do not reserve the same, both can take one more element. -/
theorem Like.grows (h : l.Like limit l') (hlt : l.capacity < l'.capacity) :
    ∃ capacity capacity', l.reservation limit = .ok capacity ∧
      l'.reservation limit = .ok capacity' ∧
        ∀ a, (l.store capacity a).Like limit (l'.store capacity' a) := by
  obtain ⟨hfits, hfits'⟩ : l.Fits limit ∧ l'.Fits limit := by
    rcases h.capacity with heq | hfits
    · omega
    · exact hfits
  -- the larger reservation has a slot free, and it was granted
  obtain ⟨k, hk⟩ := hfits'.power
  have hfree : l.slots.size < 2 ^ k := hk ▸ Nat.lt_of_le_of_lt hfits.room hlt
  have hgranted : Granted limit (2 ^ k) := hk ▸ hfits'.granted
  obtain ⟨capacity, hok, hstore⟩ := hfits.grows hfree hgranted
  obtain ⟨capacity', hok', hstore'⟩ := hfits'.grows (h.slots ▸ hfree) hgranted
  refine ⟨capacity, capacity', hok, hok', fun a => ⟨?_, Or.inr ⟨hstore a, hstore' a⟩⟩⟩
  show l'.slots.push a = l.slots.push a
  rw [h.slots]

/-- **Reservations do not show.**  Of two lists that are alike, both are refused another element for
the same reason, or both take it and are alike again. -/
theorem Like.reservation (h : l.Like limit l') :
    (∃ f, l.reservation limit = .error f ∧ l'.reservation limit = .error f) ∨
      ∃ capacity capacity', l.reservation limit = .ok capacity ∧
        l'.reservation limit = .ok capacity' ∧
          ∀ a, (l.store capacity a).Like limit (l'.store capacity' a) := by
  rcases Nat.lt_trichotomy l.capacity l'.capacity with hlt | heq | hgt
  · exact Or.inr (h.grows hlt)
  · -- the same list twice
    have hsame : l' = l := by
      obtain ⟨slots, capacity⟩ := l
      obtain ⟨slots', capacity'⟩ := l'
      obtain rfl : slots' = slots := h.slots
      obtain rfl : capacity = capacity' := heq
      rfl
    rw [hsame]
    cases hresult : l.reservation limit with
    | error f => exact Or.inl ⟨f, rfl, rfl⟩
    | ok capacity => exact Or.inr ⟨capacity, capacity, rfl, rfl, fun a => ⟨rfl, Or.inl rfl⟩⟩
  · obtain ⟨capacity', capacity, hok', hok, hstore⟩ := h.symm.grows hgt
    exact Or.inr ⟨capacity, capacity', hok, hok', fun a => (hstore a).symm⟩

end GrowList

end BoxRuntime
