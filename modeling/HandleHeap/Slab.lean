import HandleHeap.Buffer

/-!
# Slabs

A buffer cut into equal slots, with a flag for each slot that is in use.

* `Slab.claim` takes the lowest free slot;
* `Slab.release` gives a slot back and clears its bytes;
* `Slab.wipe` clears all bytes and leaves the flags alone.
-/

namespace HandleHeap

/-- Equal slots of one buffer and the flags of those in use. -/
structure Slab where
  /-- Bytes per slot. -/
  chunkSize : Nat
  /-- For each slot whether it is in use. -/
  used : Array Bool
  /-- The bytes of all slots. -/
  buffer : Buffer

namespace Slab

/-- A slab of zeros without a slot in use. -/
def fresh (chunkSize slotCount : Nat) : Slab where
  chunkSize := chunkSize
  used := Array.replicate slotCount false
  buffer := Buffer.zeroed (chunkSize * slotCount)

/-- The number of slots. -/
def slotCount (slab : Slab) : Nat := slab.used.size

/-- Whether a slot is in use; a slot that does not exist is not. -/
def isUsed (slab : Slab) (slot : Nat) : Bool := slab.used[slot]?.getD false

/-- Takes the lowest free slot, if there is one. -/
def claim (slab : Slab) : Option (Nat × Slab) :=
  (slab.used.findIdx? (· == false)).map fun slot =>
    (slot, { slab with used := slab.used.setIfInBounds slot true })

/-- Gives back a slot in use and clears its bytes. -/
def release (slab : Slab) (slot : Nat) : Option Slab :=
  if slab.isUsed slot then
    some { slab with
      used := slab.used.setIfInBounds slot false
      buffer := slab.buffer.put (slot * slab.chunkSize) (List.replicate slab.chunkSize 0) }
  else
    none

/-- Clears all bytes. -/
def wipe (slab : Slab) : Slab :=
  { slab with buffer := Buffer.zeroed slab.buffer.size }

end Slab

end HandleHeap
