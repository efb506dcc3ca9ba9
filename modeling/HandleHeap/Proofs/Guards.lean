import HandleHeap.Proofs.Actions

/-!
# Guards

The calls and queries of a heap once more, on words and buffers that can fail.  Where the plain
operations fall back on a default, stop at zero or drop bits, the guarded ones have no answer: an
entry must lie in its array, a range in its buffer, a number in its field or word, and what is
copied must be as long as the range that it goes to.  That none of these failures is ever met is
shown for them in `HandleHeap.Proofs.Faults`.

* `Fault`, `Guarded`: the failures, and computations that can end in one;
* `Guarded.entry`, `Guarded.setEntry`, `Guarded.slice`, `Guarded.overwrite`: arrays and buffers;
* `Guarded.word`, `Guarded.field`, `Guarded.difference`, `Guarded.raise`, `Guarded.lower`: numbers;
* `Heap.performGuarded`, `Heap.runGuarded`: actions and their runs.
-/

namespace HandleHeap

/-- What an operation on words and buffers can fail at. -/
inductive Fault where
  /-- An entry beyond the end of an array. -/
  | index (index size : Nat)
  /-- A range beyond the end of a buffer. -/
  | range (start length size : Nat)
  /-- Bytes for a range of another length. -/
  | mismatch (target source : Nat)
  /-- A number too large for its field or word. -/
  | width (value limit : Nat)
  /-- A difference below zero. -/
  | negative (whole part : Nat)
deriving DecidableEq, Repr

/-- A computation that gives a value or fails. -/
abbrev Guarded (α : Type) := Except Fault α

namespace Guarded

/-- The entry at an index. -/
def entry {α : Type} (array : Array α) (index : Nat) : Guarded α :=
  match array[index]? with
  | some value => .ok value
  | none => .error (.index index array.size)

/-- Replaces the entry at an index. -/
def setEntry {α : Type} (array : Array α) (index : Nat) (value : α) : Guarded (Array α) :=
  if h : index < array.size then .ok (array.set index value h)
  else .error (.index index array.size)

/-- The bytes of a range. -/
def slice (buffer : Buffer) (start length : Nat) : Guarded (List UInt8) :=
  if start + length ≤ buffer.size then .ok (buffer.read start length)
  else .error (.range start length buffer.size)

/-- Bytes that take the place of `length` others. -/
def exactly (length : Nat) (bytes : List UInt8) : Guarded (List UInt8) :=
  if bytes.length = length then .ok bytes else .error (.mismatch length bytes.length)

/-- Replaces the bytes of a range by as many others. -/
def overwrite (buffer : Buffer) (start length : Nat) (bytes : List UInt8) : Guarded Buffer :=
  if start + length ≤ buffer.size then (exactly length bytes).map (buffer.put start)
  else .error (.range start length buffer.size)

/-- A number that is below a limit. -/
def field (limit value : Nat) : Guarded Nat :=
  if value < limit then .ok value else .error (.width value limit)

/-- A number of 64 bits. -/
def word (value : Nat) : Guarded Nat := field 0x10000000000000000 value

/-- A difference that is not below zero. -/
def difference (whole part : Nat) : Guarded Nat :=
  if part ≤ whole then .ok (whole - part) else .error (.negative whole part)

/-- A counter of slots, raised by one; no slab has more than 127. -/
def raise (counter : UInt8) : Guarded UInt8 :=
  if counter < 127 then .ok (counter + 1) else .error (.width (counter.toNat + 1) 128)

/-- A counter of slots, lowered by one. -/
def lower (counter : UInt8) : Guarded UInt8 :=
  if 0 < counter then .ok (counter - 1) else .error (.negative counter.toNat 1)

end Guarded

open Guarded

/-! ### Handles -/

/-- The handle of a slot, every field of which must fit its place. -/
def Handle.ofSlotGuarded (sizeIndex chainIndex slot : Nat) : Guarded Handle := do
  let sizeIndex ← field 0x400 sizeIndex
  let chainIndex ← field 0x100000 chainIndex
  let position ← field 0x100000000 (slot * (sizeIndex + 1))
  return ofWord (0x4000000000000000 + (sizeIndex * 0x100000 + chainIndex) * 0x100000000 + position)

/-- The handle of a block.  Its identifier is one more than its index, so it is not zero. -/
def Handle.ofIndexGuarded (index : Nat) : Guarded Handle := do
  let identifier ← field (BlockTable.greatestIdentifier + 1) (index + 1)
  return ofWord (identifier * 0x100000000)

/-! ### Slabs -/

namespace Slab

/-- `Slab.fresh`. -/
def freshGuarded (chunkSize slotCount : Nat) : Guarded Slab := do
  let size ← word (chunkSize * slotCount)
  return { chunkSize := chunkSize, used := Array.replicate slotCount false,
           buffer := Buffer.zeroed size }

/-- `Slab.claim`. -/
def claimGuarded (slab : Slab) : Guarded (Option (Nat × Slab)) :=
  match slab.used.findIdx? (· == false) with
  | none => return none
  | some slot => do
    let used ← setEntry slab.used slot true
    return some (slot, { slab with used := used })

/-- `Slab.release`. -/
def releaseGuarded (slab : Slab) (slot : Nat) : Guarded (Option Slab) :=
  if slab.isUsed slot then do
    let used ← setEntry slab.used slot false
    let start ← word (slot * slab.chunkSize)
    let _ ← word (start + slab.chunkSize)
    let buffer ← overwrite slab.buffer start slab.chunkSize (List.replicate slab.chunkSize 0)
    return some { slab with used := used, buffer := buffer }
  else
    return none

end Slab

/-! ### Size classes -/

namespace SizeClass

/-- `SizeClass.extend`. -/
def extendGuarded (sizeClass : SizeClass) (increment bound : Nat) :
    Guarded (Except HeapError SizeClass) := do
  let _ ← word (sizeClass.length + increment)
  return sizeClass.extend increment bound

/-- Puts a slab and its counter at a position. -/
def putGuarded (sizeClass : SizeClass) (position : Nat) (slab : Slab) (counter : UInt8) :
    Guarded SizeClass := do
  let slabs ← setEntry sizeClass.slabs position (some slab)
  let counters ← setEntry sizeClass.counters position counter
  return { sizeClass with slabs := slabs, counters := counters }

/-- The slab at a position, a fresh one where there is none. -/
def slabGuarded (sizeClass : SizeClass) (position : Nat) : Guarded Slab := do
  match ← entry sizeClass.slabs position with
  | some slab => return slab
  | none => Slab.freshGuarded sizeClass.chunkSize sizeClass.slotCount

/-- `SizeClass.claimAt`. -/
def claimAtGuarded (sizeClass : SizeClass) (position : Nat) :
    Guarded (Except HeapError Nat × SizeClass) := do
  let slab ← sizeClass.slabGuarded position
  match ← slab.claimGuarded with
  | none =>
    let slabs ← setEntry sizeClass.slabs position (some slab)
    return (.error (.slabFull position sizeClass.chunkSize), { sizeClass with slabs := slabs })
  | some (slot, slab) =>
    let counter ← raise (← entry sizeClass.counters position)
    return (.ok slot, ← sizeClass.putGuarded position slab counter)

/-- `SizeClass.allocate`. -/
def allocateGuarded (sizeClass : SizeClass) (increment bound : Nat) :
    Guarded (Except HeapError (Nat × Nat) × SizeClass) :=
  match sizeClass.firstOpen? with
  | some position => do
    let (slot, sizeClass) ← sizeClass.claimAtGuarded position
    return (slot.map (position, ·), sizeClass)
  | none => do
    match ← sizeClass.extendGuarded increment bound with
    | .error e => return (.error e, sizeClass)
    | .ok longer =>
      let (slot, longer) ← longer.claimAtGuarded sizeClass.length
      return (slot.map (sizeClass.length, ·), longer)

/-- `SizeClass.free`. -/
def freeGuarded (sizeClass : SizeClass) (handle : Handle) (position slot : Nat) :
    Guarded (Except HeapError SizeClass) :=
  match sizeClass.slab? position with
  | none => return .error (.invalidHandle handle)
  | some slab => do
    match ← slab.releaseGuarded slot with
    | none => return .error (.invalidHandle handle)
    | some slab =>
      let counter ← lower (← entry sizeClass.counters position)
      let slab := if counter = 0 then slab.wipe else slab
      return .ok (← sizeClass.putGuarded position slab counter)

/-- `SizeClass.usage`. -/
def usageGuarded (sizeClass : SizeClass) : Guarded ClassUsage := do
  let liveSlots ← word sizeClass.liveSlots
  let totalSlots ← word (sizeClass.slabCount * sizeClass.slotCount)
  let freeSlots ← difference totalSlots liveSlots
  return { chunkSize := ChunkSize.ofIndex sizeClass.index
           slotCount := sizeClass.slotCount
           chainLength := sizeClass.length
           slabCount := sizeClass.slabCount
           liveSlots := liveSlots
           freeSlots := freeSlots }

end SizeClass

/-! ### The pool -/

namespace ChunkPool

/-- The index of a chunk size, below the number of chunk sizes. -/
def indexGuarded (size : Nat) : Guarded Nat := do
  field ChunkSize.greatest (← difference size 1)

/-- `ChunkPool.slotCount?`. -/
def slotCountGuarded (pool : ChunkPool) (chunkSize : Nat) : Guarded (Option Nat) :=
  if ChunkSize.IsChunk chunkSize then do
    let index ← indexGuarded chunkSize
    return some (Slab.capacity (ChunkSize.ofIndex index) pool.slabBufferSize)
  else
    return none

/-- `ChunkPool.sizeClass?`. -/
def sizeClassGuarded (pool : ChunkPool) (chunkSize : Nat) : Guarded (Option SizeClass) :=
  if ChunkSize.IsChunk chunkSize then do
    let index ← indexGuarded chunkSize
    return pool.sizeClass? (ChunkSize.ofIndex index)
  else
    return none

/-- `ChunkPool.allocate`. -/
def allocateGuarded (pool : ChunkPool) (size : Nat) :
    Guarded (Except HeapError Handle × ChunkPool) :=
  if ChunkSize.IsChunk size then do
    let index ← indexGuarded size
    let (place, sizeClass) ←
      (pool.sizeClass size).allocateGuarded pool.chainIncrement pool.maxChainLength
    match place with
    | .error e => return (.error e, pool.setSizeClass size sizeClass)
    | .ok (position, slot) =>
      let handle ← Handle.ofSlotGuarded index position slot
      return (.ok handle, pool.setSizeClass size sizeClass)
  else
    return (.error (.sizeOutOfRange (Int64.ofNat size).toInt), pool)

/-- `ChunkPool.free`. -/
def freeGuarded (pool : ChunkPool) (handle : Handle) (address : ChunkAddress) :
    Guarded (Except HeapError ChunkPool) :=
  if address.slotOffset ≠ 0 then
    return .error (.notBaseAddress handle address.slotOffset)
  else
    match pool.sizeClass? address.chunkSize with
    | none => return .error (.invalidHandle handle)
    | some sizeClass =>
      if address.slot < sizeClass.slotCount then do
        let outcome ← sizeClass.freeGuarded handle address.chainIndex address.slot
        return outcome.map (pool.setSizeClass address.chunkSize)
      else
        return .error (.invalidHandle handle)

/-- `ChunkPool.slabFor`, which computes both ends of the range before it looks for the slab. -/
def slabForGuarded (pool : ChunkPool) (handle : Handle) (address : ChunkAddress) (length : Nat) :
    Guarded (Except HeapError Slab) := do
  let inner ← word (address.slotOffset + length)
  if address.chunkSize < inner then
    return .error (.outOfBounds handle length)
  else
    let _ ← word (address.position + length)
    return pool.liveSlab handle address

/-- `ChunkPool.read`. -/
def readGuarded (pool : ChunkPool) (handle : Handle) (address : ChunkAddress) (length : Nat) :
    Guarded (Except HeapError (List UInt8)) := do
  match ← pool.slabForGuarded handle address length with
  | .error e => return .error e
  | .ok slab => return .ok (← slice slab.buffer address.position length)

/-- `ChunkPool.write`, to a range of `length` bytes. -/
def writeGuarded (pool : ChunkPool) (handle : Handle) (address : ChunkAddress) (length : Nat)
    (bytes : List UInt8) : Guarded (Except HeapError ChunkPool) := do
  match ← pool.slabForGuarded handle address length with
  | .error e => return .error e
  | .ok slab =>
    let buffer ← overwrite slab.buffer address.position length bytes
    return .ok <| pool.setSizeClass address.chunkSize <|
      (pool.sizeClass address.chunkSize).setSlab address.chainIndex { slab with buffer := buffer }

/-- `ChunkPool.usage`. -/
def usageGuarded (pool : ChunkPool) : Guarded (List ClassUsage) :=
  pool.classes.toList.mapM fun (_, sizeClass) => sizeClass.usageGuarded

end ChunkPool

/-! ### The block table -/

namespace BlockTable

/-- Puts a fresh buffer at an index; the answer is the handle of the block. -/
def makeGuarded (buffers : Array (Option Buffer)) (spare : List Nat) (index size : Nat) :
    Guarded (Except HeapError Handle × BlockTable) := do
  let buffers ← setEntry buffers index (some (Buffer.zeroed size))
  let handle ← Handle.ofIndexGuarded index
  return (.ok handle, { buffers := buffers, spare := spare })

/-- `BlockTable.allocate`. -/
def allocateGuarded (table : BlockTable) (size : Nat) :
    Guarded (Except HeapError Handle × BlockTable) :=
  match table.spare with
  | index :: spare => makeGuarded table.buffers spare index size
  | [] =>
    if table.length < greatestIdentifier then do
      let buffers := table.buffers.push none
      makeGuarded buffers [] (← difference buffers.size 1) size
    else
      return (.error (.tableFull greatestIdentifier), table)

/-- `BlockTable.read`. -/
def readGuarded (table : BlockTable) (handle : Handle) (address : BlockAddress) (length : Nat) :
    Guarded (Except HeapError (List UInt8)) :=
  match table.bufferFor handle address length with
  | .error e => return .error e
  | .ok buffer => return .ok (← slice buffer address.offset length)

/-- `BlockTable.write`, to a range of `length` bytes. -/
def writeGuarded (table : BlockTable) (handle : Handle) (address : BlockAddress) (length : Nat)
    (bytes : List UInt8) : Guarded (Except HeapError BlockTable) :=
  match table.bufferFor handle address length with
  | .error e => return .error e
  | .ok buffer => do
    let buffer ← overwrite buffer address.offset length bytes
    let buffers ← setEntry table.buffers (← difference address.identifier 1) (some buffer)
    return .ok { table with buffers := buffers }

/-- `BlockTable.liveCount`. -/
def liveCountGuarded (table : BlockTable) : Guarded Nat :=
  difference table.length table.spare.length

end BlockTable

/-! ### The heap -/

namespace Heap

/-- `Heap.allocate`. -/
def allocateGuarded (heap : Heap) (size : Int) : Guarded (Except HeapError Handle × Heap) :=
  if size = 0 then
    return (.ok Handle.null, heap)
  else if size < 1 ∨ greatestSize < size then
    return (.error (.sizeOutOfRange size), heap)
  else if size.toNat ≤ ChunkSize.greatest then do
    let (handle, chunks) ← heap.chunks.allocateGuarded size.toNat
    return (handle, { heap with chunks := chunks })
  else do
    let (handle, blocks) ← heap.blocks.allocateGuarded size.toNat
    return (handle, { heap with blocks := blocks })

/-- `Heap.free`. -/
def freeGuarded (heap : Heap) (handle : Handle) : Guarded (Except HeapError Heap) :=
  if handle = Handle.null then
    return .ok heap
  else
    match Address.ofHandle handle with
    | .error e => return .error e
    | .ok (.chunk address) => do
      let outcome ← heap.chunks.freeGuarded handle address
      return outcome.map fun chunks => { heap with chunks := chunks }
    | .ok (.block address) =>
      return (heap.blocks.free handle address).map fun blocks => { heap with blocks := blocks }

/-- `Heap.read`. -/
def readGuarded (heap : Heap) (handle : Handle) (length : Nat) :
    Guarded (Except HeapError (List UInt8)) :=
  match Address.ofHandle handle with
  | .error e => return .error e
  | .ok (.chunk address) => heap.chunks.readGuarded handle address length
  | .ok (.block address) => heap.blocks.readGuarded handle address length

/-- `Heap.write`, to a range of `length` bytes. -/
def writeGuarded (heap : Heap) (handle : Handle) (length : Nat) (bytes : List UInt8) :
    Guarded (Except HeapError Heap) :=
  match Address.ofHandle handle with
  | .error e => return .error e
  | .ok (.chunk address) => do
    let outcome ← heap.chunks.writeGuarded handle address length bytes
    return outcome.map fun chunks => { heap with chunks := chunks }
  | .ok (.block address) => do
    let outcome ← heap.blocks.writeGuarded handle address length bytes
    return outcome.map fun blocks => { heap with blocks := blocks }

/-- `Heap.move`. -/
def moveGuarded (heap : Heap) (source target : Handle) (length : Nat) :
    Guarded (Except HeapError Heap) := do
  match ← heap.readGuarded source length with
  | .error e => return .error e
  | .ok kept =>
    match ← heap.writeGuarded target length kept with
    | .error e => return .error e
    | .ok heap => heap.freeGuarded source

/-- `Heap.reallocate`. -/
def reallocateGuarded (heap : Heap) (handle : Handle) (size : Int) :
    Guarded (Except HeapError Handle × Heap) :=
  if handle = Handle.null then
    heap.allocateGuarded size
  else
    match heap.sizeOf handle with
    | .error e => return (.error e, heap)
    | .ok oldSize => do
      match ← heap.allocateGuarded size with
      | (.error e, heap) => return (.error e, heap)
      | (.ok target, heap) =>
        let moved ←
          if target = Handle.null then heap.freeGuarded handle
          else heap.moveGuarded handle target (min oldSize size.toNat)
        match moved with
        | .error e => return (.error e, heap)
        | .ok heap => return (.ok target, heap)

/-- `Heap.fill`. -/
def fillGuarded (heap : Heap) (handle : Handle) (length : Int) (value : UInt8) :
    Guarded (Except HeapError Heap) :=
  match lengthOf length with
  | .error e => return .error e
  | .ok length => heap.writeGuarded handle length (List.replicate length value)

/-- `Heap.copy`. -/
def copyGuarded (heap : Heap) (source target : Handle) (length : Int) :
    Guarded (Except HeapError Heap) :=
  match lengthOf length with
  | .error e => return .error e
  | .ok length => do
    match ← heap.readGuarded source length with
    | .error e => return .error e
    | .ok bytes => heap.writeGuarded target length bytes

/-- `Heap.load`, from exactly the bytes of one value. -/
def loadGuarded (heap : Heap) (scalar : Scalar) (order : ByteOrder) (handle : Handle) :
    Guarded (Except HeapError scalar.Value) := do
  match ← heap.readGuarded handle scalar.width with
  | .error e => return .error e
  | .ok bytes => return .ok (scalar.decode order (← exactly scalar.width bytes))

/-- `Heap.store`. -/
def storeGuarded (heap : Heap) (scalar : Scalar) (order : ByteOrder) (handle : Handle)
    (value : scalar.Value) : Guarded (Except HeapError Heap) :=
  heap.writeGuarded handle scalar.width (scalar.encode order value)

/-- `Heap.loadArray`. -/
def loadArrayGuarded (heap : Heap) (scalar : Scalar) (order : ByteOrder) (handle : Handle)
    (into : List scalar.Value) : Guarded (Except HeapError (List scalar.Value)) := do
  let length ← word (into.length * scalar.width)
  match ← heap.readGuarded handle length with
  | .error e => return .error e
  | .ok bytes => return .ok (scalar.decodeInto order (← exactly length bytes) into)

/-- `Heap.storeArray`. -/
def storeArrayGuarded (heap : Heap) (scalar : Scalar) (order : ByteOrder) (handle : Handle)
    (values : List scalar.Value) : Guarded (Except HeapError Heap) := do
  let length ← word (values.length * scalar.width)
  heap.writeGuarded handle length (values.flatMap (scalar.encode order))

/-- `Heap.usage`. -/
def usageGuarded (heap : Heap) : Guarded Usage := do
  let classes ← heap.chunks.usageGuarded
  let liveChunks ← word (classes.map (·.liveSlots)).sum
  let bytes ← classes.mapM fun row => word (row.liveSlots * row.chunkSize)
  let liveChunkBytes ← word bytes.sum
  let liveBlocks ← heap.blocks.liveCountGuarded
  let liveBlockBytes ← word heap.blocks.liveBytes
  return { classes := classes
           liveChunks := liveChunks
           liveChunkBytes := liveChunkBytes
           liveBlocks := liveBlocks
           liveBlockBytes := liveBlockBytes
           tableLength := heap.blocks.length }

end Heap

/-- `Scalar.storeIn`. -/
def Scalar.storeInGuarded (scalar : Scalar) (order : ByteOrder) (bytes : List UInt8) (index : Nat)
    (value : scalar.Value) : Guarded (Except HeapError (List UInt8)) :=
  if index + scalar.width ≤ bytes.length then do
    let encoded ← exactly scalar.width (scalar.encode order value)
    return .ok (bytes.take index ++ encoded ++ bytes.drop (index + scalar.width))
  else
    return .error (.indexOutOfBounds index bytes.length)

/-! ### Actions -/

namespace Heap

/-- `Heap.call`. -/
def callGuarded (heap : Heap) : Call → Guarded (Except HeapError (Option Handle) × Heap)
  | .allocate size => return Prod.map (Except.map some) id (← heap.allocateGuarded size)
  | .reallocate handle size =>
    return Prod.map (Except.map some) id (← heap.reallocateGuarded handle size)
  | .free handle => return heap.settle (← heap.freeGuarded handle)
  | .fill handle length value => return heap.settle (← heap.fillGuarded handle length value)
  | .store scalar order handle value =>
    return heap.settle (← heap.storeGuarded scalar order handle value)
  | .copy source target length => return heap.settle (← heap.copyGuarded source target length)
  | .storeArray scalar order handle values =>
    return heap.settle (← heap.storeArrayGuarded scalar order handle values)

/-- `Heap.answer`. -/
def answerGuarded (heap : Heap) : Query → Guarded (Except HeapError Answer)
  | .sizeOf handle => return (heap.sizeOf handle).map .size
  | .load scalar order handle =>
    return (← heap.loadGuarded scalar order handle).map (.value scalar)
  | .loadArray scalar order handle into =>
    return (← heap.loadArrayGuarded scalar order handle into).map (.values scalar)
  | .storeIn scalar order bytes index value =>
    return (← scalar.storeInGuarded order bytes index value).map .bytes
  | .usage => return .ok (.usage (← heap.usageGuarded))
  | .chainLength chunkSize =>
    return .ok (.count ((← heap.chunks.sizeClassGuarded chunkSize).map (·.length)))
  | .occupancy chunkSize chainIndex =>
    return .ok (.count ((← heap.chunks.sizeClassGuarded chunkSize).map (·.liveAt chainIndex)))
  | .slotCount chunkSize => return .ok (.count (← heap.chunks.slotCountGuarded chunkSize))

/-- `Heap.perform`. -/
def performGuarded (heap : Heap) : Action → Guarded (Except HeapError Answer × Heap)
  | .call call => return Prod.map (Except.map Answer.ofCall) id (← heap.callGuarded call)
  | .query query => return (← heap.answerGuarded query, heap)

/-- The answers of a run of actions, in order, beside the heap that it leaves. -/
def runGuarded : Heap → List Action → Guarded (List (Except HeapError Answer) × Heap)
  | heap, [] => return ([], heap)
  | heap, action :: rest => do
    let (answer, next) ← heap.performGuarded action
    let (answers, last) ← runGuarded next rest
    return (answer :: answers, last)

end Heap

/-- The lengths of an action are those of machine words: a length is a signed number of 64 bits, and
no array has more bytes than such a number counts. -/
def Action.Fits : Action → Prop
  | .call (.fill _ length _) | .call (.copy _ _ length) => length < 0x8000000000000000
  | .call (.storeArray scalar _ _ values) | .query (.loadArray scalar _ _ values) =>
    values.length * scalar.width < 0x8000000000000000
  | _ => True

end HandleHeap
