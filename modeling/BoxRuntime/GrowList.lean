/-
  Growable lists.

  A list reserves its slots ahead of use.  The first reservation is twice the highest bit of the
  size hint plus two, so it is a power of two, at least four, and larger than the hint; whenever
  the slots are used up, the reservation doubles.  Sizes are 64-bit numbers.

  A request for slots can be refused twice over.  The slots have to lie in one piece, and of the
  requests for which they can, the allocator grants those for fewer slots than its limit.  Both
  refusals are the same fault.

  A push first makes sure of the slot, and only then is the reservation changed and the element
  put in.  A push that fails gives back the list that it leaves.
-/
import BoxRuntime.Fault
import BoxRuntime.Sizes

namespace BoxRuntime

/-- The largest power of two that is at most `n`; zero for zero. -/
def highBit (n : Nat) : Nat :=
  if n = 0 then 0 else 1 <<< n.log2

example : highBit 0 = 0 ∧ highBit 1 = 1 ∧ highBit 7 = 4 ∧ highBit 8 = 8 := by decide

/-- The bytes of a slot, which holds a pointer. -/
def slotBytes : Nat :=
  8

/-- A request for `n` slots, to an allocator that grants requests below `limit`. -/
def reserve (limit n : Nat) : Except Fault Nat :=
  if InOnePiece n slotBytes ∧ n < limit then .ok n else .error (.allocationFailed n)

/-- The first reservation of a list with a given size hint.  When that number is no 64-bit size,
the hint itself is what cannot be allocated. -/
def initialCapacity (limit hint : Nat) : Except Fault Nat :=
  let capacity := 2 * highBit (hint + 2)
  if hint + 2 < sizeBound ∧ capacity < sizeBound then reserve limit capacity
  else .error (.allocationFailed hint)

/-- The elements of a list and the number of slots reserved for it. -/
structure GrowList (α : Type) where
  slots : Array α
  capacity : Nat

namespace GrowList

variable {α : Type}

/-- An empty list with room for the hinted number of elements. -/
def ofHint (limit hint : Nat) : Except Fault (GrowList α) :=
  (initialCapacity limit hint).map fun capacity => { slots := #[], capacity }

def size (l : GrowList α) : Nat :=
  l.slots.size

def isEmpty (l : GrowList α) : Bool :=
  l.slots.isEmpty

def get? (l : GrowList α) (i : Nat) : Option α :=
  l.slots[i]?

def toList (l : GrowList α) : List α :=
  l.slots.toList

/-- Every reserved slot is in use. -/
def isFull (l : GrowList α) : Bool :=
  l.slots.size == l.capacity

/-- Doubles the reservation.  A list that is refused the slots keeps those that it has. -/
def double (limit : Nat) (l : GrowList α) : EStateM.Result Fault (GrowList α) Unit :=
  if 2 * l.capacity < sizeBound then
    match reserve limit (2 * l.capacity) with
    | .ok capacity => .ok () { l with capacity }
    | .error f => .error f l
  else .error (.allocationFailed (sizeBound - 1)) l

/-- Puts an element into the next slot. -/
def put (l : GrowList α) (a : α) : GrowList α :=
  { l with slots := l.slots.push a }

/-- Appends an element, and says whether the reservation had to grow for it. -/
def push (limit : Nat) (l : GrowList α) (a : α) : EStateM.Result Fault (GrowList α) Bool :=
  if l.isFull then
    match l.double limit with
    | .ok () l => .ok true (l.put a)
    | .error f l => .error f l
  else .ok false (l.put a)

end GrowList

end BoxRuntime
