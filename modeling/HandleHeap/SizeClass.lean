import HandleHeap.Address
import HandleHeap.Slab

/-!
# Size classes

The chain of slabs that serves one chunk size.  A position of the chain gets its slab when it is
first used.  Beside the slabs runs a counter of the slots in use at each position, so that the
first slab with room is found without looking at any flag.

* `SizeClass.allocate`: first fit over the chain, lengthening it when every slab is full;
* `SizeClass.free`: gives a slot back, and clears the whole slab with its last slot.
-/

namespace HandleHeap

/-- The slabs of one chunk size. -/
structure SizeClass where
  /-- Bytes per chunk. -/
  chunkSize : Nat
  /-- Slots per slab. -/
  slotCount : Nat
  /-- The slab at each position, absent until first used. -/
  slabs : Array (Option Slab)
  /-- The number of slots in use at each position. -/
  counters : Array UInt8

namespace SizeClass

/-- A size class whose chain has positions but no slab yet. -/
def fresh (chunkSize slotCount length : Nat) : SizeClass where
  chunkSize := chunkSize
  slotCount := slotCount
  slabs := Array.replicate length none
  counters := Array.replicate length 0

/-- The index of the chunk size. -/
def index (sizeClass : SizeClass) : Nat := ChunkSize.toIndex sizeClass.chunkSize

/-- The number of positions, with or without a slab. -/
def length (sizeClass : SizeClass) : Nat := sizeClass.slabs.size

/-- The slab at a position, if the position has one. -/
def slab? (sizeClass : SizeClass) (position : Nat) : Option Slab :=
  sizeClass.slabs[position]?.join

/-- The counter at a position, zero beyond the chain. -/
def liveAt (sizeClass : SizeClass) (position : Nat) : Nat :=
  (sizeClass.counters[position]?.getD 0).toNat

/-- The first position whose counter leaves room. -/
def firstOpen? (sizeClass : SizeClass) : Option Nat :=
  sizeClass.counters.findIdx? fun counter => counter.toNat < sizeClass.slotCount

/-- Puts a slab at a position. -/
def setSlab (sizeClass : SizeClass) (position : Nat) (slab : Slab) : SizeClass :=
  { sizeClass with slabs := sizeClass.slabs.setIfInBounds position (some slab) }

/-- Sets the counter at a position. -/
def setCounter (sizeClass : SizeClass) (position : Nat) (counter : UInt8) : SizeClass :=
  { sizeClass with counters := sizeClass.counters.setIfInBounds position counter }

/-- Lengthens the chain by `increment` positions unless it would become longer than `bound`. -/
def extend (sizeClass : SizeClass) (increment bound : Nat) : Except HeapError SizeClass :=
  if bound < sizeClass.length + increment then
    .error (.chainFull sizeClass.chunkSize bound)
  else
    .ok { sizeClass with
      slabs := sizeClass.slabs ++ Array.replicate increment none
      counters := sizeClass.counters ++ Array.replicate increment 0 }

/-- Takes the lowest free slot at a position, where a missing slab is made first. -/
def claimAt (sizeClass : SizeClass) (position : Nat) : Except HeapError Nat × SizeClass :=
  let slab := (sizeClass.slab? position).getD (Slab.fresh sizeClass.chunkSize sizeClass.slotCount)
  match slab.claim with
  | none => (.error (.slabFull position sizeClass.chunkSize), sizeClass.setSlab position slab)
  | some (slot, slab) =>
    (.ok slot, (sizeClass.setSlab position slab).setCounter position
      (sizeClass.counters[position]?.getD 0 + 1))

/-- Takes the first free slot of the chain; the answer is its position and slot. -/
def allocate (sizeClass : SizeClass) (increment bound : Nat) :
    Except HeapError (Nat × Nat) × SizeClass :=
  match sizeClass.firstOpen? with
  | some position =>
    let (slot, sizeClass) := sizeClass.claimAt position
    (slot.map (position, ·), sizeClass)
  | none =>
    match sizeClass.extend increment bound with
    | .error e => (.error e, sizeClass)
    | .ok longer =>
      let (slot, longer) := longer.claimAt sizeClass.length
      (slot.map (sizeClass.length, ·), longer)

/-- Gives a slot back.  `handle` names the refused call. -/
def free (sizeClass : SizeClass) (handle : Handle) (position slot : Nat) :
    Except HeapError SizeClass :=
  match (sizeClass.slab? position).bind (·.release slot) with
  | none => .error (.invalidHandle handle)
  | some slab =>
    let counter := sizeClass.counters[position]?.getD 0 - 1
    let slab := if counter = 0 then slab.wipe else slab
    .ok ((sizeClass.setSlab position slab).setCounter position counter)

/-- The number of positions that have a slab. -/
def slabCount (sizeClass : SizeClass) : Nat := sizeClass.slabs.countP (·.isSome)

/-- The number of slots in use, by the counters. -/
def liveSlots (sizeClass : SizeClass) : Nat :=
  (sizeClass.counters.toList.map (·.toNat)).foldr (· + ·) 0

/-- The number of slots in all slabs. -/
def totalSlots (sizeClass : SizeClass) : Nat := sizeClass.slabCount * sizeClass.slotCount

/-- The number of slots not in use, by the counters. -/
def freeSlots (sizeClass : SizeClass) : Nat := sizeClass.totalSlots - sizeClass.liveSlots

end SizeClass

end HandleHeap
