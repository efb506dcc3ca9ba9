import Std.Data.ExtTreeMap
import HandleHeap.Settings
import HandleHeap.SizeClass
import HandleHeap.Slab.Capacity

/-!
# The chunk pool

Memory of 1 to 1024 bytes comes from slabs, with one size class per byte count.  A size class is
made by the first allocation of its size.

* `ChunkPool.allocate`, `ChunkPool.free`, `ChunkPool.sizeOf`: life of a chunk;
* `ChunkPool.read`, `ChunkPool.write`: access to bytes within one chunk.  The length is checked
  before it is asked whether the chunk is live.
-/

namespace HandleHeap

/-- Size classes and the settings they are made with. -/
structure ChunkPool where
  /-- The size that slabs aim for, in bytes. -/
  slabBufferSize : Nat
  /-- The positions by which a full chain becomes longer, and the length it starts with. -/
  chainIncrement : Nat
  /-- The length beyond which no chain grows. -/
  maxChainLength : Nat
  /-- The size classes in use, by chunk size. -/
  classes : Std.ExtTreeMap Nat SizeClass

namespace ChunkPool

/-- A pool without size classes. -/
def fresh (settings : Settings) : ChunkPool where
  slabBufferSize := settings.slabBufferSize
  chainIncrement := settings.chainIncrement
  maxChainLength := settings.maxChainLength
  classes := ∅

/-- The slots per slab of a chunk size, if chunks have that size. -/
def slotCount? (pool : ChunkPool) (chunkSize : Nat) : Option Nat :=
  if ChunkSize.IsChunk chunkSize then
    some (Slab.capacity chunkSize pool.slabBufferSize)
  else
    none

/-- The size class of a chunk size, if it is in use. -/
def sizeClass? (pool : ChunkPool) (chunkSize : Nat) : Option SizeClass :=
  pool.classes[chunkSize]?

/-- The size class of a chunk size, a fresh one if it is not in use. -/
def sizeClass (pool : ChunkPool) (chunkSize : Nat) : SizeClass :=
  (pool.sizeClass? chunkSize).getD
    (SizeClass.fresh chunkSize (Slab.capacity chunkSize pool.slabBufferSize) pool.chainIncrement)

/-- Replaces the size class of a chunk size. -/
def setSizeClass (pool : ChunkPool) (chunkSize : Nat) (sizeClass : SizeClass) : ChunkPool :=
  { pool with classes := pool.classes.insert chunkSize sizeClass }

/-- Hands out a chunk of exactly `size` bytes.  A refused size is reported as the signed word with
its bits. -/
def allocate (pool : ChunkPool) (size : Nat) : Except HeapError Handle × ChunkPool :=
  if ChunkSize.IsChunk size then
    let (place, sizeClass) :=
      (pool.sizeClass size).allocate pool.chainIncrement pool.maxChainLength
    (place.map fun (position, slot) => Handle.ofSlot (ChunkSize.toIndex size) position slot,
      pool.setSizeClass size sizeClass)
  else
    (.error (.sizeOutOfRange (Int64.ofNat size).toInt), pool)

/-- Takes back a chunk, given the start of it. -/
def free (pool : ChunkPool) (handle : Handle) (address : ChunkAddress) :
    Except HeapError ChunkPool :=
  if address.slotOffset ≠ 0 then
    .error (.notBaseAddress handle address.slotOffset)
  else
    match pool.sizeClass? address.chunkSize with
    | none => .error (.invalidHandle handle)
    | some sizeClass =>
      if address.slot < sizeClass.slotCount then
        (sizeClass.free handle address.chainIndex address.slot).map
          (pool.setSizeClass address.chunkSize)
      else
        .error (.invalidHandle handle)

/-- The slab of a live chunk. -/
def liveSlab (pool : ChunkPool) (handle : Handle) (address : ChunkAddress) :
    Except HeapError Slab :=
  match (pool.sizeClass? address.chunkSize).bind (·.slab? address.chainIndex) with
  | none => .error (.invalidHandle handle)
  | some slab => if slab.isUsed address.slot then .ok slab else .error (.invalidHandle handle)

/-- The size of a live chunk, given the start of it. -/
def sizeOf (pool : ChunkPool) (handle : Handle) (address : ChunkAddress) :
    Except HeapError Nat :=
  if address.slotOffset ≠ 0 then
    .error (.notBaseAddress handle address.slotOffset)
  else
    (pool.liveSlab handle address).map fun _ => address.chunkSize

/-- The slab of a live chunk that holds `length` bytes from the address on.  The end of the range
is computed before anything else is looked at, and must be a 64-bit word. -/
def slabFor (pool : ChunkPool) (handle : Handle) (address : ChunkAddress) (length : Nat) :
    Except HeapError Slab :=
  if 0x10000000000000000 ≤ address.slotOffset + length then
    .error (.wrappedRange handle length)
  else if address.chunkSize < address.slotOffset + length then
    .error (.outOfBounds handle length)
  else
    pool.liveSlab handle address

/-- The bytes at an address. -/
def read (pool : ChunkPool) (handle : Handle) (address : ChunkAddress) (length : Nat) :
    Except HeapError (List UInt8) :=
  (pool.slabFor handle address length).map fun slab => slab.buffer.read address.position length

/-- Replaces the bytes at an address. -/
def write (pool : ChunkPool) (handle : Handle) (address : ChunkAddress) (bytes : List UInt8) :
    Except HeapError ChunkPool :=
  (pool.slabFor handle address bytes.length).map fun slab =>
    pool.setSizeClass address.chunkSize <|
      (pool.sizeClass address.chunkSize).setSlab address.chainIndex
        { slab with buffer := slab.buffer.put address.position bytes }

end ChunkPool

end HandleHeap
