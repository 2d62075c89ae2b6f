/-
  How a list grows.

  1. **The first reservation** is the power of two above the size hint plus two, and at most twice
     as much; hints for which there is no such 64-bit size are refused before anything is asked for
     (`initialCapacity_spec`).

  2. **From then on** the reservation doubles whenever it is used up, and never otherwise.  So it is
     the least of the doublings that has a slot for every element (`Grown`).  A list that is full
     and is refused the double is stuck: it stays as it is whatever is pushed (`Stuck`).

  3. **The crux** (`Grown.keep`) is that one push keeps all of that, refused or not, so any run of
     pushes does (`Grown.pushes`).  The elements are then the first of those that were pushed, and
     they are all of them as long as some doubling that is granted has the slots (`Holdable`).

  Nothing is asked of the allocator here: `Granted` says which requests are granted, and the account
  says what comes of either answer.
-/
import BoxRuntime.Proofs.GrowList
import BoxRuntime.Proofs.Triple

namespace BoxRuntime

namespace GrowList

variable {α : Type} {limit c₀ : Nat} {as : List α} {l : GrowList α}

/-! ## The first reservation

  A power of two strictly above the hint plus two, as twice the highest bit is, and refused if it
  is no 64-bit size. -/

/-- Twice the highest bit is above the number. -/
theorem lt_double_highBit {n : Nat} (hn : n ≠ 0) : n < 2 * highBit n := by
  rw [double_highBit_eq_pow hn]
  exact Nat.lt_log2_self

/-- The first request is for the power of two above the hint plus two, or there is none. -/
theorem initialCapacity_spec (limit hint : Nat) :
    (2 ^ 63 ≤ hint + 2 ∧ initialCapacity limit hint = .error (.allocationFailed hint)) ∨
      ∃ k, hint + 2 < 2 ^ 63 ∧ hint + 2 < 2 ^ k ∧ 2 ^ k ≤ 2 * (hint + 2) ∧
        initialCapacity limit hint = reserve limit (2 ^ k) := by
  have hbound := sizeBound_eq
  have hne : hint + 2 ≠ 0 := Nat.succ_ne_zero _
  have habove := lt_double_highBit hne
  have hbelow := highBit_le (hint + 2)
  have hpow := double_highBit_eq_pow hne
  rcases Nat.lt_or_ge (hint + 2) (2 ^ 63) with hsmall | hlarge
  · refine Or.inr ⟨(hint + 2).log2 + 1, hsmall, hpow ▸ habove, by omega, ?_⟩
    have hfits : hint + 2 < sizeBound ∧ 2 * highBit (hint + 2) < sizeBound := by omega
    unfold initialCapacity
    rw [if_pos hfits, ← hpow]
  · refine Or.inl ⟨hlarge, ?_⟩
    -- a power of two above `2 ^ 63` is no 64-bit size
    have hlog : 63 < (hint + 2).log2 + 1 :=
      (Nat.pow_lt_pow_iff_right (by decide)).mp (Nat.lt_of_le_of_lt hlarge (hpow ▸ habove))
    have hover : 2 ^ 64 ≤ 2 * highBit (hint + 2) :=
      hpow ▸ Nat.pow_le_pow_right (by decide) hlog
    unfold initialCapacity
    rw [if_neg (by omega)]

/-- A list that is made is empty, and has the first reservation. -/
theorem ofHint_of_ok {hint capacity : Nat} (h : initialCapacity limit hint = .ok capacity) :
    (ofHint limit hint : Except Fault (GrowList α)) = .ok { slots := #[], capacity } := by
  rw [ofHint, h]
  rfl

/-- A list is refused if its first reservation is. -/
theorem ofHint_of_error {hint : Nat} {f : Fault} (h : initialCapacity limit hint = .error f) :
    (ofHint limit hint : Except Fault (GrowList α)) = .error f := by
  rw [ofHint, h]
  rfl

/-! ## One push

  Refused or not, a push onto a list that is stuck changes nothing, and one onto any other list
  adds the element. -/

/-- What a push leaves of the list. -/
def keep (limit : Nat) (l : GrowList α) (a : α) : GrowList α :=
  leftBy (l.push limit a)

/-- A push that gets its slot leaves the element there. -/
theorem keep_of_reservation {capacity : Nat} (h : l.reservation limit = .ok capacity) (a : α) :
    l.keep limit a = l.store capacity a := by
  rw [keep, push_of_reservation h]
  rfl

/-- One that does not leaves the list as it was. -/
theorem keep_of_reservation_error {f : Fault} (h : l.reservation limit = .error f) (a : α) :
    l.keep limit a = l := by
  rw [keep, push_of_reservation_error h]
  rfl

/-- All slots are in use, and the double of them is refused. -/
def Stuck (limit : Nat) (l : GrowList α) : Prop :=
  l.size = l.capacity ∧ ¬Granted limit (2 * l.capacity)

/-- A list that is full and not stuck is granted the double of what it has. -/
theorem granted_of_not_stuck (hfree : ¬l.Stuck limit) (hfull : l.size = l.capacity) :
    Granted limit (2 * l.capacity) :=
  Classical.byContradiction fun hnot => hfree ⟨hfull, hnot⟩

/-- Doubling what was granted is no more than a 64-bit size, so it is the request that fails. -/
theorem Stuck.reservation (h : l.Stuck limit) (hgranted : Granted limit l.capacity) :
    l.reservation limit = .error (.allocationFailed (2 * l.capacity)) := by
  have hfull : l.isFull = true := beq_iff_eq.mpr h.1
  have hbound := sizeBound_eq
  have hbytes := hgranted.1
  have hsize : 2 * l.capacity < sizeBound := by omega
  rw [GrowList.reservation, if_pos hfull, if_pos hsize, reserve_of_not_granted h.2]

/-! ## Any number of pushes

  The invariant says which doubling the reservation is, and why no smaller one would do. -/

/-- What came of pushing these elements, one after another, onto an empty list with `c₀` slots. -/
structure Grown (limit c₀ : Nat) (as : List α) (l : GrowList α) : Prop where
  size_le : l.size ≤ as.length
  toList_eq : l.toList = as.take l.size
  positive : 0 < c₀
  granted : Granted limit l.capacity
  /-- The reservation is the least doubling with slots for the elements. -/
  least : ∃ k, l.capacity = c₀ * 2 ^ k ∧ l.size ≤ c₀ * 2 ^ k ∧ ∀ j, l.size ≤ c₀ * 2 ^ j → k ≤ j
  /-- Elements are missing only from a list that is stuck. -/
  missing : l.size ≠ as.length → l.Stuck limit

/-- A list that is not stuck misses nothing. -/
theorem Grown.size_eq_of_not_stuck (h : l.Grown limit c₀ as) (hfree : ¬l.Stuck limit) :
    l.size = as.length :=
  Classical.byContradiction fun hne => hfree (h.missing hne)

/-- The double of a doubling is the next one. -/
theorem double_eq {n k : Nat} (h : n = c₀ * 2 ^ k) : 2 * n = c₀ * 2 ^ (k + 1) := by
  rw [h, Nat.pow_succ, Nat.mul_comm, Nat.mul_assoc]

/-- The list begins with its first reservation. -/
theorem grown_empty (hpos : 0 < c₀) (hgranted : Granted limit c₀) :
    ({ slots := #[], capacity := c₀ } : GrowList α).Grown limit c₀ [] :=
  ⟨Nat.le_refl _, rfl, hpos, hgranted, ⟨0, (Nat.mul_one c₀).symm, Nat.zero_le _, fun _ _ =>
    Nat.zero_le _⟩, fun h => absurd rfl h⟩

/-- The element goes behind all others, if the list gets the slots for it. -/
theorem Grown.store (h : l.Grown limit c₀ as) (hall : l.size = as.length) (a : α) {capacity : Nat}
    (hgranted : Granted limit capacity)
    (hleast : ∃ k, capacity = c₀ * 2 ^ k ∧ l.size + 1 ≤ c₀ * 2 ^ k ∧
      ∀ j, l.size + 1 ≤ c₀ * 2 ^ j → k ≤ j) :
    (l.store capacity a).Grown limit c₀ (as ++ [a]) := by
  have hsize := size_store l capacity a
  have hmore : (as ++ [a]).length = as.length + 1 := List.length_append
  refine ⟨by omega, ?_, h.positive, hgranted, ?_, fun hmissing => absurd ?_ hmissing⟩
  · rw [toList_store, h.toList_eq, hsize, hall, ← hmore, List.take_length, List.take_length]
  · rw [hsize]
    exact hleast
  · rw [hsize, hmore, hall]

/-- **One push**, refused or not. -/
theorem Grown.keep (h : l.Grown limit c₀ as) (a : α) :
    (l.keep limit a).Grown limit c₀ (as ++ [a]) := by
  obtain ⟨k, hk, hroom, hleast⟩ := h.least
  by_cases hstuck : l.Stuck limit
  · -- a list that is stuck stays as it is, and what it misses is one more
    rw [keep_of_reservation_error (hstuck.reservation h.granted)]
    have hle := h.size_le
    have hmore : (as ++ [a]).length = as.length + 1 := List.length_append
    refine ⟨by omega, ?_, h.positive, h.granted, h.least, fun _ => hstuck⟩
    rw [h.toList_eq, List.take_append_of_le_length hle]
  · have hall := h.size_eq_of_not_stuck hstuck
    by_cases hfull : l.size = l.capacity
    · have hgranted := granted_of_not_stuck hstuck hfull
      rw [keep_of_reservation (reservation_of_full hfull hgranted)]
      have hdouble := double_eq hk
      have hpositive : 0 < c₀ * 2 ^ k := Nat.mul_pos h.positive (Nat.two_pow_pos k)
      refine h.store hall a hgranted ⟨k + 1, hdouble, by omega, fun j hj => ?_⟩
      -- the doubling before is used up, so no smaller one will do
      refine Nat.lt_of_not_le fun hle => ?_
      have hpow : 2 ^ j ≤ 2 ^ k := Nat.pow_le_pow_right (by decide) hle
      have := Nat.mul_le_mul_left c₀ hpow
      omega
    · rw [keep_of_reservation (reservation_of_free hfull)]
      exact h.store hall a h.granted ⟨k, hk, by omega, fun j hj => hleast j (by omega)⟩

/-- **Any run of pushes**, refused or not. -/
theorem Grown.pushes (h : l.Grown limit c₀ as) (more : List α) :
    (more.foldl (GrowList.keep limit) l).Grown limit c₀ (as ++ more) := by
  induction more generalizing as l with
  | nil =>
    rw [List.append_nil]
    exact h
  | cons a more ih =>
    have hrest := ih (h.keep a)
    rw [List.append_assoc] at hrest
    exact hrest

/-! ## How many elements there is room for

  Room is counted by doublings that are granted, not by the allocator's limit: between two
  doublings there is no size that a list would ask for. -/

/-- Some doubling of the first reservation is granted and has slots for `n` elements. -/
def Holdable (limit c₀ n : Nat) : Prop :=
  ∃ k, n ≤ c₀ * 2 ^ k ∧ Granted limit (c₀ * 2 ^ k)

/-- A list that is stuck has as many elements as there is room for. -/
theorem Grown.not_holdable (h : l.Grown limit c₀ as) (hstuck : l.Stuck limit) {n : Nat}
    (hn : l.size < n) : ¬Holdable limit c₀ n := by
  rintro ⟨j, hj, hgranted⟩
  obtain ⟨k, hk, -, -⟩ := h.least
  have hfull := hstuck.1
  -- a doubling with more slots than all of these is at least the double that was refused
  have hpow : 2 ^ k < 2 ^ j := by
    refine Nat.lt_of_not_le fun hle => ?_
    have := Nat.mul_le_mul_left c₀ hle
    omega
  have hlt : k < j := (Nat.pow_lt_pow_iff_right (by decide)).mp hpow
  have hdouble := double_eq hk
  have hle : c₀ * 2 ^ (k + 1) ≤ c₀ * 2 ^ j :=
    Nat.mul_le_mul_left c₀ (Nat.pow_le_pow_right (by decide) hlt)
  exact hstuck.2 (hgranted.mono (hdouble ▸ hle))

/-- All elements are there if there is room for them. -/
theorem Grown.size_eq (h : l.Grown limit c₀ as) (hroom : Holdable limit c₀ as.length) :
    l.size = as.length := by
  refine Classical.byContradiction fun hne => ?_
  have hle := h.size_le
  exact h.not_holdable (h.missing hne) (by omega) hroom

/-- A list with room for one more element is not stuck, and one without is. -/
theorem Grown.holdable_succ_iff (h : l.Grown limit c₀ as) :
    Holdable limit c₀ (as.length + 1) ↔ ¬l.Stuck limit := by
  constructor
  · intro hroom hstuck
    -- A list that is stuck has the most elements that it can hold, so one more is too many.
    exact h.not_holdable hstuck (Nat.lt_succ_of_le h.size_le) hroom
  · intro hfree
    have hall := h.size_eq_of_not_stuck hfree
    -- A list that is not: it has them all, in its present room or in the next one.
    obtain ⟨k, hk, hroom, -⟩ := h.least
    by_cases hfull : l.size = l.capacity
    · have hgranted := granted_of_not_stuck hfree hfull
      have hdouble := double_eq hk
      have hpositive : 0 < c₀ * 2 ^ k := Nat.mul_pos h.positive (Nat.two_pow_pos k)
      exact ⟨k + 1, by omega, hdouble ▸ hgranted⟩
    · exact ⟨k, by omega, hk ▸ h.granted⟩

/-- To an allocator that grants whatever an array can have, there is room for `2 ^ 59` elements. -/
theorem holdable_iff_le {i : Nat} (hlimit : 2 ^ 60 ≤ limit) (hfirst : Granted limit (2 ^ i))
    (n : Nat) : Holdable limit (2 ^ i) n ↔ n ≤ 2 ^ 59 := by
  -- The sizes are powers of two, so what counts is the exponent.
  have hi : i < 60 := (Nat.pow_lt_pow_iff_right (by decide)).mp hfirst.1
  constructor
  · -- A power of two that is granted is below `2 ^ 60`, so its exponent is 59 at most.
    rintro ⟨k, hn, hgranted⟩
    have hsum : i + k < 60 := by
      refine (Nat.pow_lt_pow_iff_right (by decide : 1 < 2)).mp ?_
      rw [Nat.pow_add]
      exact hgranted.1
    have hle : 2 ^ (i + k) ≤ 2 ^ 59 := Nat.pow_le_pow_right (by decide) (by omega)
    rw [Nat.pow_add] at hle
    exact Nat.le_trans hn hle
  · -- The largest such size is reached by doubling.
    intro hn
    refine ⟨59 - i, ?_⟩
    have hlast : 2 ^ i * 2 ^ (59 - i) = 2 ^ 59 := by
      rw [← Nat.pow_add]
      exact congrArg (2 ^ ·) (by omega)
    rw [hlast]
    exact ⟨hn, by decide, by omega⟩

/-! ## The account of a list

  What anyone may ask of a list after any pushes, in terms of what was pushed. -/

/-- What a list reserves, holds, and does with one more element, if these elements were pushed onto
an empty list with `c₀` slots. -/
structure Account (limit c₀ : Nat) (as : List α) (l : GrowList α) : Prop where
  /-- All elements are there, if some doubling that is granted has slots for them. -/
  size_eq : Holdable limit c₀ as.length → l.size = as.length
  size_le : l.size ≤ l.capacity
  size_le_pushed : l.size ≤ as.length
  /-- The capacity is a doubling of the first one, and no smaller doubling has enough slots. -/
  capacity_eq : ∃ k, l.capacity = c₀ * 2 ^ k ∧ ∀ j, l.size ≤ c₀ * 2 ^ j → k ≤ j
  get_eq : ∀ i, l.get? i = if i < l.size then as[i]? else none
  /-- A push for which there is room succeeds and reports growth exactly if the list was full. -/
  push_eq : Holdable limit c₀ (as.length + 1) → ∀ a, ∃ l',
    l.push limit a = .ok (decide (l.size = l.capacity)) l'
  /-- Any other push comes to a full list, names the slots it did not get, and changes nothing. -/
  push_refused : ¬Holdable limit c₀ (as.length + 1) → l.size = l.capacity ∧
    ∀ a, l.push limit a = .error (.allocationFailed (2 * l.capacity)) l
  /-- The first `c₀` pushes do not make the list grow. -/
  roomy : as.length < c₀ → l.capacity = c₀ ∧ l.size = as.length ∧ l.size ≠ l.capacity

/-- A list that is not stuck takes one more element. -/
theorem push_of_not_stuck (hfree : ¬l.Stuck limit) (a : α) :
    ∃ l', l.push limit a = .ok (decide (l.size = l.capacity)) l' := by
  have hisFull : l.isFull = decide (l.size = l.capacity) := rfl
  by_cases hfull : l.size = l.capacity
  · have hgranted := granted_of_not_stuck hfree hfull
    exact ⟨_, push_of_reservation (reservation_of_full hfull hgranted) a⟩
  · exact ⟨_, push_of_reservation (reservation_of_free hfull) a⟩

/-- What has grown in this way answers as lists do. -/
theorem Grown.account (h : l.Grown limit c₀ as) : l.Account limit c₀ as := by
  -- The number of doublings is the least that makes room, and with it all fields are read off.
  obtain ⟨k, hk, hroom, hleast⟩ := h.least
  refine ⟨h.size_eq, by omega, h.size_le, ⟨k, hk, hleast⟩, ?_, ?_, ?_, ?_⟩
  · intro i
    rw [get?, ← Array.getElem?_toList, ← toList, h.toList_eq, List.getElem?_take]
  · intro hmore a
    exact push_of_not_stuck (h.holdable_succ_iff.mp hmore) a
  · -- With no room for one more the list is stuck, and stuck it refuses whatever is pushed.
    intro hmore
    have hstuck : l.Stuck limit :=
      Classical.byContradiction fun hfree => hmore (h.holdable_succ_iff.mpr hfree)
    exact ⟨hstuck.1, push_of_reservation_error (hstuck.reservation h.granted)⟩
  · -- No doubling was needed, so the capacity is the first one, and nothing was refused.
    intro hfew
    have hle := h.size_le
    have hzero : k ≤ 0 := hleast 0 (by omega)
    obtain rfl : k = 0 := Nat.le_zero.mp hzero
    have hcapacity : l.capacity = c₀ := hk.trans (Nat.mul_one c₀)
    have hall : l.size = as.length := Classical.byContradiction fun hne => by
      have hfull := (h.missing hne).1
      omega
    omega

end GrowList

end BoxRuntime
