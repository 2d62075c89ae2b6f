/-
  Box numbers, and the order of boxes.

  The boxes that a run makes are known by the handles that it gives of boxes never given before, in
  the order in which it gives them (`Client.made`).  They are numbered 1, 2, 3, … in that order: a
  call that makes a box takes the next number, and a call that makes none takes none, be it that it
  failed or that it only copied handles (`Reachable.met_step`).  So no number is used twice, and a
  box made later has the larger number.

  On the boxes of its type every comparator is a total order, up to what it calls equal
  (`OrdersTotally`).  That much holds of any boxes, because a comparator orders keys.  What equal
  means is another matter.  Texts are ordered by the bytes of their encoding, and equal texts have
  the same bytes; ints are ordered by value.  Boxes ordered by number are equal if they are the same
  box, and there it matters how numbers are given out.

  The main statement is `order_account`.  Numbers are unbounded here.  As long as fewer than `2 ^
  64` boxes were made, nothing would be different if they were kept in 64 bits (`Handle.word`).
-/
import BoxRuntime.Proofs.Machine.Identity
import BoxRuntime.Proofs.Operands

namespace BoxRuntime

/-! ## Total orders

  Any comparator that agrees with the order of keys on some boxes is a total order of these. -/

/-- The comparator is a total order of these boxes, up to what it calls equal. -/
structure OrdersTotally (cmp : Comparator) (boxes : Handle → Prop) : Prop where
  /-- Of the three answers it gives exactly one. -/
  answers : ∀ a b, boxes a → boxes b → ∃ answer, ∀ other, cmp a b = .ok other ↔ other = answer
  equal_self : ∀ a, boxes a → cmp a a = .ok .eq
  equal_symm : ∀ a b, boxes a → boxes b → cmp a b = .ok .eq → cmp b a = .ok .eq
  equal_trans : ∀ a b c, boxes a → boxes b → boxes c →
    cmp a b = .ok .eq → cmp b c = .ok .eq → cmp a c = .ok .eq
  swap : ∀ a b, boxes a → boxes b → ∀ answer, cmp a b = .ok answer → cmp b a = .ok answer.swap
  less_trans : ∀ a b c, boxes a → boxes b → boxes c →
    cmp a b = .ok .lt → cmp b c = .ok .lt → cmp a c = .ok .lt
  /-- Equal boxes compare alike with all others. -/
  equal_congr : ∀ a b c, boxes a → boxes b → boxes c → cmp a b = .ok .eq → cmp a c = cmp b c

section

variable {t : Tag} {cmp : Comparator}

/-- A comparator that orders boxes by their keys is a total order. -/
theorem ordersTotally_of_keys {boxes : Handle → Prop}
    (h : ∀ a b, boxes a → boxes b → cmp a b = .ok (a.toKey.compare b.toKey)) :
    OrdersTotally cmp boxes := by
  -- Equality of answers is equality of keys, from which all laws of an equivalence follow.
  have heq : ∀ a b, boxes a → boxes b → (cmp a b = .ok .eq ↔ a.toKey = b.toKey) := by
    intro a b ha hb
    rw [h a b ha hb, Except.ok.injEq, Key.compare_eq_iff]
  refine ⟨?_, ?_, ?_, ?_, ?_, ?_, ?_⟩
  · -- There is exactly one answer.
    intro a b ha hb
    refine ⟨a.toKey.compare b.toKey, fun other => ?_⟩
    rw [h a b ha hb, Except.ok.injEq]
    exact eq_comm
  · -- Reflexivity, symmetry and transitivity of being equal.
    intro a ha
    exact (heq a a ha ha).mpr rfl
  · intro a b ha hb hab
    exact (heq b a hb ha).mpr ((heq a b ha hb).mp hab).symm
  · intro a b c ha hb hc hab hbc
    exact (heq a c ha hc).mpr (((heq a b ha hb).mp hab).trans ((heq b c hb hc).mp hbc))
  · -- The other way round the answer is turned.
    intro a b ha hb answer hab
    rw [h a b ha hb] at hab
    rw [h b a hb ha, Key.compare_swap, Except.ok.inj hab]
  · -- Transitivity of being less.
    intro a b c ha hb hc hab hbc
    rw [h a b ha hb] at hab
    rw [h b c hb hc] at hbc
    rw [h a c ha hc, Key.lt_trans (Except.ok.inj hab) (Except.ok.inj hbc)]
  · -- Equal boxes are in the same place.
    intro a b c ha hb hc hab
    rw [h a c ha hc, h b c hb hc, (heq a b ha hb).mp hab]

/-- The comparator of a type is a total order of the boxes of that type. -/
theorem ordersTotally_comparator (h : comparator t = .ok cmp) :
    OrdersTotally cmp fun v => v.tag = t :=
  ordersTotally_of_keys fun _ _ ha hb => compare_of_comparator h ha hb

/-- An order of many boxes orders fewer. -/
theorem OrdersTotally.mono {boxes boxes' : Handle → Prop} (h : OrdersTotally cmp boxes)
    (hsub : ∀ v, boxes' v → boxes v) : OrdersTotally cmp boxes' := by
  refine ⟨?_, ?_, ?_, ?_, ?_, ?_, ?_⟩
  · exact fun a b ha hb => h.answers a b (hsub a ha) (hsub b hb)
  · exact fun a ha => h.equal_self a (hsub a ha)
  · exact fun a b ha hb => h.equal_symm a b (hsub a ha) (hsub b hb)
  · exact fun a b c ha hb hc => h.equal_trans a b c (hsub a ha) (hsub b hb) (hsub c hc)
  · exact fun a b ha hb => h.swap a b (hsub a ha) (hsub b hb)
  · exact fun a b c ha hb hc => h.less_trans a b c (hsub a ha) (hsub b hb) (hsub c hc)
  · exact fun a b c ha hb hc => h.equal_congr a b c (hsub a ha) (hsub b hb) (hsub c hc)

end

/-! ## What equal and less mean

  Texts are ordered by the bytes of their encoding, ints by value, and all other boxes by number. -/

/-- The UTF-8 encoding of a text, one character after the other. -/
def utf8 (s : String) : List UInt8 :=
  s.toList.flatMap String.utf8EncodeChar

/-- The key of a text is made of its bytes. -/
theorem bytes_eq_utf8 (s : String) : Key.bytes s = utf8 s := by
  show s.toByteArray.data.toList = utf8 s
  rw [← String.utf8Encode_toList]
  exact List.toList_data_toByteArray

/-- Comparing lists of bytes is comparing them by the first byte in which they differ. -/
theorem compare_bytes_eq_lt {xs ys : List UInt8} : compare xs ys = .lt ↔ xs < ys := by
  induction xs generalizing ys with
  | nil =>
    cases ys with
    | nil => decide
    | cons y ys => exact iff_of_true List.compare_nil_cons (List.nil_lt_cons y ys)
  | cons x xs ih =>
    cases ys with
    | nil => exact iff_of_false (by rw [List.compare_cons_nil]; decide) (List.not_lt_nil _)
    | cons y ys =>
      rw [List.compare_cons_cons, List.cons_lt_cons_iff, Ordering.then_eq_lt, Std.compare_eq_lt,
        Std.LawfulEqOrd.compare_eq_iff_eq, ih]

section

variable {v w : Handle}

/-- Strings are equal if their texts are, and less by the bytes of the encoding. -/
theorem compareStrings_spec {s u : String} (hv : v.datum = .string s) (hw : w.datum = .string u) :
    (compareStrings v w = .ok .eq ↔ s = u) ∧ (compareStrings v w = .ok .lt ↔ utf8 s < utf8 u) := by
  have hcmp : compareStrings v w = .ok (compare (Key.bytes s) (Key.bytes u)) := by
    rw [compareStrings, Handle.string?, Handle.string?, hv, hw]
    rfl
  rw [hcmp, Except.ok.injEq, Except.ok.injEq, compare_bytes_eq_lt, bytes_eq_utf8, bytes_eq_utf8,
    ← Key.bytes_inj, bytes_eq_utf8, bytes_eq_utf8]
  exact ⟨Std.LawfulEqOrd.compare_eq_iff_eq, Iff.rfl⟩

theorem compareInts_spec {m n : Int64} (hv : v.datum = .int m) (hw : w.datum = .int n) :
    (compareInts v w = .ok .eq ↔ m = n) ∧ (compareInts v w = .ok .lt ↔ m.toInt < n.toInt) := by
  have hcmp : compareInts v w = .ok (compare m.toInt n.toInt) := by
    rw [compareInts, Handle.int?, Handle.int?, hv, hw]
  rw [hcmp, Except.ok.injEq, Except.ok.injEq, Std.LawfulEqOrd.compare_eq_iff_eq, Int64.toInt_inj]
  exact ⟨Iff.rfl, Std.compare_eq_lt⟩

/-- Boxes that are ordered by number are equal and less by number. -/
theorem compareIdentity_spec (h : v.tag = w.tag) :
    (compareIdentity v w = .ok .eq ↔ v.id = w.id) ∧
      (compareIdentity v w = .ok .lt ↔ v.id < w.id) := by
  rw [compareIdentity_of_tag h, Except.ok.injEq, Except.ok.injEq]
  exact ⟨Std.LawfulEqOrd.compare_eq_iff_eq, Nat.compare_eq_lt⟩

end

/-! ## The boxes that are made

  Met by the client for the first time. One call makes one box at most, and its number is the
  next. -/

namespace Client

variable {c : Client} {call : Call} {calls : List Call}

/-- The handles that a call gives. -/
def given (c : Client) (call : Call) : List Handle :=
  match call.perform c.machine with
  | .ok gained _ => gained
  | .error .. => []

/-- The handles that a call gives of boxes that were not given before. -/
def met (c : Client) (call : Call) : List Handle :=
  (c.given call).filter fun v => !c.known.contains v

/-- The boxes that calls make, in the order of their making. -/
def made (c : Client) : List Call → List Handle
  | [] => []
  | call :: calls => c.met call ++ (c.step call).made calls

/-- A client knows the boxes that it knew and those that a call meets. -/
theorem mem_known_step (v : Handle) :
    v ∈ (c.step call).known ↔ v ∈ c.known ∨ v ∈ c.met call := by
  have hknown : (c.step call).known = c.given call ++ c.known := by
    unfold step given
    cases call.perform c.machine <;> rfl
  rw [hknown, List.mem_append, met, List.mem_filter]
  by_cases hv : v ∈ c.known
  · exact iff_of_true (Or.inr hv) (Or.inl hv)
  · have hnew : (!c.known.contains v) = true := by simpa using hv
    rw [or_iff_left hv, or_iff_right hv, and_iff_left hnew]

/-- A call that makes a box gives the one new handle. -/
theorem Identified.met_of_some (hc : c.Identified) {datum : Datum} {content : Content}
    (hmade : call.made c.machine = some (datum, content)) :
    c.met call = [⟨c.machine.heap.nextId, datum⟩] := by
  have hnew : (⟨c.machine.heap.nextId, datum⟩ : Handle) ∉ c.known :=
    fun hmem => Nat.lt_irrefl _ (hc.known_lt _ hmem)
  rw [met, given, Call.perform_of_made hmade]
  simpa using hnew

/-- Any other call gives handles of boxes that were given before. -/
theorem Identified.met_of_none (hc : c.Identified) (hh : c.Healthy) (hallow : c.Allows call)
    (hmade : call.made c.machine = none) : c.met call = [] := by
  rw [met, List.filter_eq_nil_iff]
  intro v hv
  -- A call that makes no box gives only what it has found, and what is found is known.
  have hknown : v ∈ c.known := by
    unfold given at hv
    cases hresult : call.perform c.machine with
    | error f m =>
      rw [hresult] at hv
      exact absurd hv List.not_mem_nil
    | ok gained m =>
      rw [hresult] at hv
      exact hc.finds hallow ((call.gives hh.sound hmade).found gained m hresult v hv)
  simpa using hknown

/-- A call gives the box that it makes the next number, and otherwise leaves that number to come. -/
theorem Reachable.met_step (hr : Reachable c) (hallow : c.Allows call) :
    (c.met call).map Handle.id = List.range' c.machine.heap.nextId (c.met call).length ∧
      (c.step call).machine.heap.nextId = c.machine.heap.nextId + (c.met call).length := by
  cases hmade : call.made c.machine with
  | none =>
    rw [hr.identified.met_of_none hr.healthy hallow hmade, machine_step]
    exact ⟨rfl, (call.gives hr.healthy.sound hmade).nextId_eq⟩
  | some r =>
    obtain ⟨datum, content⟩ := r
    rw [hr.identified.met_of_some hmade, step_of_made hmade]
    exact ⟨rfl, Heap.nextId_alloc c.machine.heap datum content⟩

/-- **The boxes that a run makes are numbered one after another**, from the next number on, and
after it the client knows them besides those that it knew. -/
theorem Reachable.made_run (hr : Reachable c) (hallow : c.AllowsAll calls) :
    (c.made calls).map Handle.id = List.range' c.machine.heap.nextId (c.made calls).length ∧
      (c.after calls).machine.heap.nextId = c.machine.heap.nextId + (c.made calls).length ∧
      ∀ v, v ∈ (c.after calls).known ↔ v ∈ c.known ∨ v ∈ c.made calls := by
  induction calls generalizing c with
  -- Before any call the handles that are known are those from before.
  | nil =>
    refine ⟨rfl, rfl, fun v => ?_⟩
    exact (or_iff_left List.not_mem_nil).symm
  | cons call calls ih =>
    obtain ⟨hids, hnext⟩ := hr.met_step hallow.1
    obtain ⟨hids', hnext', hknown'⟩ := ih (hr.step hallow.1) hallow.2
    -- The numbers of the first call and those of the others are two ranges, one after the other.
    refine ⟨?_, ?_, fun v => ?_⟩
    · rw [made, List.map_append, hids, hids', hnext, List.length_append]
      exact List.range'_append_1
    · rw [after_cons, hnext', hnext, made, List.length_append, Nat.add_assoc]
    · rw [after_cons, hknown', mem_known_step, made, List.mem_append, or_assoc]

end Client

/-! ## The order of the boxes of a run

  All that was shown, for the boxes that a run from the start has made. -/

/-- The number of a box as 64 bits hold it. -/
def Handle.word (v : Handle) : UInt64 :=
  UInt64.ofNat v.id

/-- The number of a box fits into a word as long as there are not too many. -/
theorem Handle.toNat_word {v : Handle} (h : v.id < UInt64.size) : v.word.toNat = v.id :=
  UInt64.toNat_ofNat_of_lt' h

namespace Client

/-- The client of a machine that was not used yet. -/
def start (config : RuntimeConfig) (logger : Logger) (slotLimit : Nat) : Client :=
  { machine := { config, logger, slotLimit } }

/-- How the boxes that were made are numbered and ordered. -/
structure Ordered (c : Client) (made : List Handle) : Prop where
  /-- They are all the boxes that there are or were. -/
  known_iff : ∀ v, v ∈ c.known ↔ v ∈ made
  live_made : ∀ id, c.isLive id = true → ∃ v ∈ made, v.id = id
  /-- They are numbered from 1 in the order of their making, without a gap. -/
  numbers : made.map Handle.id = List.range' 1 made.length
  nextId_eq : c.machine.heap.nextId = made.length + 1
  /-- In 64 bits their numbers would be no different. -/
  words : ∀ v ∈ made, ∀ w ∈ made, (v.word = w.word ↔ v = w) ∧ (v.word < w.word ↔ v.id < w.id)
  /-- Every type that has an order has a total one. -/
  total : ∀ t, t.OrdersContents ∨ t.OrdersNumbers →
    ∃ cmp, comparator t = .ok cmp ∧ OrdersTotally cmp fun v => v ∈ made ∧ v.tag = t
  /-- No other type has an order. -/
  unordered : ∀ t, (∃ cmp, comparator t = .ok cmp) → t.OrdersContents ∨ t.OrdersNumbers
  /-- Strings go by text: equal texts are equal, and less are those whose encoding is. -/
  texts : ∃ cmp, comparator .string = .ok cmp ∧ ∀ v w s u, v.datum = .string s →
    w.datum = .string u → (cmp v w = .ok .eq ↔ s = u) ∧ (cmp v w = .ok .lt ↔ utf8 s < utf8 u)
  /-- Ints go by value. -/
  ints : ∃ cmp, comparator .int = .ok cmp ∧ ∀ v w m n, v.datum = .int m → w.datum = .int n →
    (cmp v w = .ok .eq ↔ m = n) ∧ (cmp v w = .ok .lt ↔ m.toInt < n.toInt)
  /-- All others go by age: equal is only the very same box, and less is the one made earlier. -/
  ages : ∀ t, t.OrdersNumbers → ∃ cmp, comparator t = .ok cmp ∧ ∀ (i j : Nat) (v w : Handle),
    made[i]? = some v → made[j]? = some w → v.tag = t → w.tag = t →
    (cmp v w = .ok .eq ↔ v = w) ∧ (cmp v w = .ok .lt ↔ i < j)

/-- The box made after `i` others has the number `i + 1`. -/
theorem id_of_numbers {made : List Handle} (h : made.map Handle.id = List.range' 1 made.length)
    {i : Nat} {v : Handle} (hv : made[i]? = some v) : v.id = i + 1 := by
  have hi : i < made.length := by
    obtain ⟨hi, -⟩ := List.getElem?_eq_some_iff.mp hv
    exact hi
  have hid : (made.map Handle.id)[i]? = some v.id := by
    rw [List.getElem?_map, hv]
    rfl
  rw [h, List.getElem?_range' hi] at hid
  have := Option.some.inj hid
  omega

/-- **Boxes are numbered in the order of their making, and comparators are total orders of them.**
This holds after every run in which fewer than `2 ^ 64` boxes were made, whatever was called and
whether or not it failed. -/
theorem order_account (config : RuntimeConfig) (logger : Logger) (slotLimit : Nat)
    {calls : List Call} (hallow : (start config logger slotLimit).AllowsAll calls)
    (hfew : ((start config logger slotLimit).made calls).length < UInt64.size) :
    ((start config logger slotLimit).after calls).Ordered
      ((start config logger slotLimit).made calls) := by
  have hstart : Reachable (start config logger slotLimit) :=
    Reachable.start config logger slotLimit
  -- From here on only the handles that were made matter, and not the calls that made them.
  obtain ⟨hnumbers, hnext, hknown⟩ := hstart.made_run hallow
  have hidentified := (hstart.after hallow).identified
  generalize (start config logger slotLimit).made calls = made at *
  generalize (start config logger slotLimit).after calls = c at *
  have hnumbers : made.map Handle.id = List.range' 1 made.length := hnumbers
  have hknown : ∀ v, v ∈ c.known ↔ v ∈ made := by
    intro v
    rw [hknown v]
    exact or_iff_right List.not_mem_nil
  -- Numbers are given out once, so handles with one number are one handle.
  have hsame : ∀ v ∈ made, ∀ w ∈ made, (v.id = w.id ↔ v = w) := by
    intro v hv w hw
    refine ⟨fun hid => ?_, fun h => congrArg Handle.id h⟩
    exact hidentified.known_eq v ((hknown v).mpr hv) w ((hknown w).mpr hw) hid
  -- There are fewer numbers than words, so no word stands for two.
  have hbound : ∀ v ∈ made, v.id < UInt64.size := by
    intro v hv
    obtain ⟨i, hi⟩ := List.getElem?_of_mem hv
    have hid := id_of_numbers hnumbers hi
    obtain ⟨hlt, -⟩ := List.getElem?_eq_some_iff.mp hi
    omega
  refine ⟨hknown, ?_, hnumbers, hnext.trans (Nat.add_comm _ _), ?_, ?_, ?_, ?_, ?_, ?_⟩
  · intro id hlive
    obtain ⟨v, hv, hid⟩ := hidentified.has_handle id hlive
    exact ⟨v, (hknown v).mp hv, hid⟩
  · intro v hv w hw
    have hwordv := Handle.toNat_word (hbound v hv)
    have hwordw := Handle.toNat_word (hbound w hw)
    rw [← UInt64.toNat_inj, UInt64.lt_iff_toNat_lt, hwordv, hwordw]
    exact ⟨hsame v hv w hw, Iff.rfl⟩
  · intro t ht
    obtain ⟨cmp, hcmp⟩ := exists_comparator_iff.mpr ht
    exact ⟨cmp, hcmp, (ordersTotally_comparator hcmp).mono fun v hv => hv.2⟩
  · exact fun t ht => exists_comparator_iff.mp ht
  · exact ⟨compareStrings, rfl, fun v w s u hv hw => compareStrings_spec hv hw⟩
  · exact ⟨compareInts, rfl, fun v w m n hv hw => compareInts_spec hv hw⟩
  · intro t ht
    refine ⟨compareIdentity, comparator_of_ordersNumbers ht, fun i j v w hi hj hv hw => ?_⟩
    obtain ⟨hequal, hless⟩ := compareIdentity_spec (hv.trans hw.symm)
    have hid := id_of_numbers hnumbers hi
    -- The position among the numbers is the number less one.
    have hid' := id_of_numbers hnumbers hj
    refine ⟨?_, ?_⟩
    · exact hequal.trans (hsame v (List.mem_of_getElem? hi) w (List.mem_of_getElem? hj))
    · rw [hless]
      omega

/-- A client that makes two boxes and frees the first of them in between, and that also fails to
make one. -/
theorem order_account_after_failure : ∃ calls : List Call,
    (start {} .silent (1 <<< 50)).AllowsAll calls ∧
      (start {} .silent (1 <<< 50)).made calls = [⟨1, .any⟩, ⟨2, .any⟩] ∧
        ((start {} .silent (1 <<< 50)).after calls).isLive 1 = false ∧
          ((start {} .silent (1 <<< 50)).after calls).Ordered [⟨1, .any⟩, ⟨2, .any⟩] := by
  let calls : List Call := [.emptyBox .any, .emptyBox .string, .drop ⟨1, .any⟩, .emptyBox .any]
  have hallow : (start {} .silent (1 <<< 50)).AllowsAll calls := by
    decide +kernel
  have hmade : (start {} .silent (1 <<< 50)).made calls = [⟨1, .any⟩, ⟨2, .any⟩] := by
    decide +kernel
  have hfreed : ((start {} .silent (1 <<< 50)).after calls).isLive 1 = false := by
    decide +kernel
  have hordered := order_account {} .silent (1 <<< 50) hallow (by rw [hmade]; decide)
  rw [hmade] at hordered
  exact ⟨calls, hallow, hmade, hfreed, hordered⟩

end Client

end BoxRuntime
