/-
  Ring buffers.

  A ring buffer keeps the last records that were written to it, up to its capacity, so that a
  program that stops at an error can show what led there.  It counts the records it let go.

  Room for all records is made at the beginning and in one piece, so not every number is the
  capacity of a ring buffer (`RingSize`).  A program that asks for more comes to an end at that
  point.
-/
import BoxRuntime.Log.Record
import BoxRuntime.Sizes

namespace BoxRuntime

/-- The bytes of a record in a queue: its time and its span, its level, and where its texts are. -/
def recordBytes : Nat :=
  72

/-- A number of records for which there can be room. -/
structure RingSize where
  slots : Nat
  fits : InOnePiece slots recordBytes
deriving DecidableEq

/-- The size with so many slots, if there is one. -/
def RingSize.ofNat? (n : Nat) : Option RingSize :=
  if h : InOnePiece n recordBytes then some ⟨n, h⟩ else none

/-- The last records written, oldest first. -/
structure Ring where
  capacity : RingSize
  records : Array Record
  /-- The records let go for want of room. -/
  dropped : Nat

/-- How full a ring buffer is. -/
structure RingStats where
  held : Nat
  dropped : Nat
  capacity : Nat
deriving DecidableEq

namespace Ring

def empty (capacity : RingSize) : Ring :=
  { capacity, records := #[], dropped := 0 }

/-- Writes a record.  A full ring lets its oldest record go; one without any room lets go of the
new record. -/
def push (ring : Ring) (r : Record) : Ring :=
  if ring.capacity.slots = 0 then { ring with dropped := ring.dropped + 1 }
  else if ring.records.size < ring.capacity.slots then { ring with records := ring.records.push r }
  else
    { ring with
      records := (ring.records.extract 1 ring.records.size).push r
      dropped := ring.dropped + 1 }

/-- Forgets the records and the count of those let go. -/
def clear (ring : Ring) : Ring :=
  empty ring.capacity

def size (ring : Ring) : Nat :=
  ring.records.size

def isEmpty (ring : Ring) : Bool :=
  ring.records.isEmpty

def stats (ring : Ring) : RingStats :=
  { held := ring.size, dropped := ring.dropped, capacity := ring.capacity.slots }

/-- The records as text, one after another, with a line break between two. -/
def dump (ring : Ring) : String :=
  "\n".intercalate (ring.records.toList.map Record.format)

end Ring

end BoxRuntime
