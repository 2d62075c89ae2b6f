/-
  The order of keys.

  A comparator looks at two boxes and may refuse them.  What it looks at is small: the number in
  an int, the text in a string, the box number of anything else.  That part of a box is its `Key`,
  and keys have a total order in which equal means the same key (`Key.compare_eq_iff`,
  `Key.compare_swap`, `Key.lt_trans`).

  The crux is `compare_of_comparator`: on two boxes of the type it was fetched for, every comparator
  answers, and its answer is the order of the two keys.  Nothing that is proved about trees needs to
  know more about comparators than that.
-/
import BoxRuntime.Order

namespace BoxRuntime

/-- What a box is known by among the keys of a collection. -/
inductive Key where
  | int (n : Int64)
  | text (s : String)
  | box (id : Nat)
deriving DecidableEq

namespace Key

/-- The bytes of an encoded text. -/
def bytes (s : String) : List UInt8 :=
  s.toByteArray.data.toList

/-- Numbers by value, texts by bytes, boxes by number.  A collection never mixes the three; here
they follow one another, so that the order is total. -/
def compare : Key → Key → Ordering
  | int m, int n => Ord.compare m.toInt n.toInt
  | int _, _ => .lt
  | text _, int _ => .gt
  | text s, text t => Ord.compare (bytes s) (bytes t)
  | text _, box _ => .lt
  | box m, box n => Ord.compare m n
  | box _, _ => .gt

/-- Texts with the same bytes are the same. -/
theorem bytes_inj {s t : String} : bytes s = bytes t ↔ s = t := by
  constructor
  · intro h
    apply String.toByteArray_inj.mp
    exact ByteArray.ext (Array.toList_inj.mp h)
  · intro h
    rw [h]

/-- Keys compare as equal only if they are the same. -/
theorem compare_eq_iff {k l : Key} : k.compare l = .eq ↔ k = l := by
  -- On keys of one kind each order decides equality; keys of two kinds are never equal.
  cases k with
  | int m =>
    cases l with
    | int n =>
      show Ord.compare m.toInt n.toInt = .eq ↔ _
      rw [Std.LawfulEqOrd.compare_eq_iff_eq, Int64.toInt_inj, int.injEq]
    | text t => simp [compare]
    | box n => simp [compare]
  | text s =>
    cases l with
    | int n => simp [compare]
    | text t =>
      show Ord.compare (bytes s) (bytes t) = .eq ↔ _
      rw [Std.LawfulEqOrd.compare_eq_iff_eq, bytes_inj, text.injEq]
    | box n => simp [compare]
  | box m =>
    cases l with
    | int n => simp [compare]
    | text t => simp [compare]
    | box n =>
      show Ord.compare m n = .eq ↔ _
      rw [Std.LawfulEqOrd.compare_eq_iff_eq, box.injEq]

/-- Swapping the operands reverses the answer. -/
theorem compare_swap (k l : Key) : k.compare l = (l.compare k).swap := by
  -- Within a kind the order is symmetric; between kinds it is a table.
  cases k with
  | int m =>
    cases l with
    | int n => exact Std.OrientedOrd.eq_swap
    | text t => rfl
    | box n => rfl
  | text s =>
    cases l with
    | int n => rfl
    | text t => exact Std.OrientedOrd.eq_swap
    | box n => rfl
  | box m =>
    cases l with
    | int n => rfl
    | text t => rfl
    | box n => exact Std.OrientedOrd.eq_swap

/-- The two directions of the order fit together. -/
theorem gt_iff_lt {k l : Key} : k.compare l = .gt ↔ l.compare k = .lt := by
  rw [compare_swap k l]
  cases l.compare k <;> decide

theorem lt_trans {j k l : Key} (hjk : j.compare k = .lt) (hkl : k.compare l = .lt) :
    j.compare l = .lt := by
  -- keys of different sorts compare by their sorts alone; a step down contradicts `hjk` or `hkl`
  cases j with
  | int i =>
    cases k with
    | int m =>
      cases l with
      | int n =>
        show Ord.compare i.toInt n.toInt = .lt
        exact Std.TransCmp.lt_trans hjk hkl
      | text t => rfl
      | box n => rfl
    | text s => cases l <;> first | rfl | nomatch hkl
    | box m => cases l <;> first | rfl | nomatch hkl
  | text r =>
    cases k with
    | int m => nomatch hjk
    | text s =>
      cases l with
      | int n => nomatch hkl
      | text t =>
        show Ord.compare (bytes r) (bytes t) = .lt
        exact Std.TransCmp.lt_trans hjk hkl
      | box n => rfl
    | box m => cases l <;> first | rfl | nomatch hkl
  | box i =>
    cases k with
    | int m => nomatch hjk
    | text s => nomatch hjk
    | box m =>
      cases l with
      | int n => nomatch hkl
      | text t => nomatch hkl
      | box n =>
        show Ord.compare i n = .lt
        exact Std.TransCmp.lt_trans hjk hkl

end Key

/-- What the box is known by among the keys of a collection. -/
def Handle.toKey (v : Handle) : Key :=
  match v.datum with
  | .int n => .int n
  | .string s => .text s
  | _ => .box v.id

/-- Boxes of one type are ordered by their numbers. -/
theorem compareIdentity_of_tag {a b : Handle} (h : a.tag = b.tag) :
    compareIdentity a b = .ok (compare a.id b.id) := by
  rw [compareIdentity, if_pos h]

/-- On two boxes of the type it is for, a comparator answers, by the order of the keys. -/
theorem compare_of_comparator {t : Tag} {cmp : Comparator} (h : comparator t = .ok cmp)
    {a b : Handle} (ha : a.tag = t) (hb : b.tag = t) :
    cmp a b = .ok (a.toKey.compare b.toKey) := by
  obtain ⟨i, d⟩ := a
  obtain ⟨j, e⟩ := b
  have hd : d.tag = t := ha
  have he : e.tag = t := hb
  have hde : compareIdentity ⟨i, d⟩ ⟨j, e⟩ = .ok (compare i j) :=
    compareIdentity_of_tag (ha.trans hb.symm)
  subst hd
  -- the types that have no comparator go by `h`, and every other box must have type `t`
  cases d with
  | string s => cases e <;> first | (cases h; rfl) | nomatch he
  | int n => cases e <;> first | (cases h; rfl) | nomatch he
  | any => cases e <;> first | (cases h; exact hde) | nomatch he
  | wideInt => cases e <;> first | (cases h; exact hde) | nomatch he
  | list => cases e <;> first | (cases h; exact hde) | nomatch he
  | set => cases e <;> first | (cases h; exact hde) | nomatch he
  | none => cases h
  | map => cases h
  | record => cases h
  | fields => cases h

end BoxRuntime
