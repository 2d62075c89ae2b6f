/-
  Sizes.

  Sizes are 64-bit numbers.  What lies in one piece of memory, such as the slots of a list or the
  records of a queue, has no more than `byteLimit` bytes: a request for more fails before the
  allocator hears of it, however much there is.
-/

namespace BoxRuntime

/-- Sizes are below this bound. -/
def sizeBound : Nat :=
  UInt64.size

/-- The largest number of bytes in one piece. -/
def byteLimit : Nat :=
  (1 <<< 63) - 1

/-- So many things, of so many bytes each, can lie in one piece. -/
def InOnePiece (n bytes : Nat) : Prop :=
  n * bytes ≤ byteLimit

instance (n bytes : Nat) : Decidable (InOnePiece n bytes) :=
  inferInstanceAs (Decidable (n * bytes ≤ byteLimit))

end BoxRuntime
