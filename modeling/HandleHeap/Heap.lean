import HandleHeap.BlockTable
import HandleHeap.ChunkPool

/-!
# The heap

Allocation and byte access by handle.  Sizes up to 1024 are served by the chunk pool, larger ones
by the block table, and the handle tells which of the two it belongs to.

* `Heap.allocate`, `Heap.reallocate`, `Heap.free`, `Heap.sizeOf`: life of an allocation;
* `Heap.checkRange`, `Heap.read`, `Heap.write`: access to bytes within one allocation;
* `Heap.fill`, `Heap.copy`: ranges given by a signed length.

A call that can fail after it has begun to change the heap returns the heap beside its outcome.
-/

namespace HandleHeap

/-- Everything that is allocated. -/
structure Heap where
  /-- The small allocations. -/
  chunks : ChunkPool
  /-- The large allocations. -/
  blocks : BlockTable

namespace Heap

/-- The largest allocation: positions within it stay below the sign of a 32-bit word. -/
def greatestSize : Int := 0x7fffffff

/-- A heap without allocations. -/
def fresh (settings : Settings) : Heap where
  chunks := ChunkPool.fresh settings
  blocks := BlockTable.empty

/-- Hands out `size` zero bytes; no bytes have the null handle. -/
def allocate (heap : Heap) (size : Int) : Except HeapError Handle × Heap :=
  if size = 0 then
    (.ok Handle.null, heap)
  else if size < 1 ∨ greatestSize < size then
    (.error (.sizeOutOfRange size), heap)
  else if size.toNat ≤ ChunkSize.greatest then
    let (handle, chunks) := heap.chunks.allocate size.toNat
    (handle, { heap with chunks := chunks })
  else
    let (handle, blocks) := heap.blocks.allocate size.toNat
    (handle, { heap with blocks := blocks })

/-- Takes back the allocation that starts at a handle; the null handle is accepted. -/
def free (heap : Heap) (handle : Handle) : Except HeapError Heap :=
  if handle = Handle.null then
    .ok heap
  else
    match Address.ofHandle handle with
    | .error e => .error e
    | .ok (.chunk address) =>
      (heap.chunks.free handle address).map fun chunks => { heap with chunks := chunks }
    | .ok (.block address) =>
      (heap.blocks.free handle address).map fun blocks => { heap with blocks := blocks }

/-- The size of the allocation that starts at a handle. -/
def sizeOf (heap : Heap) (handle : Handle) : Except HeapError Nat :=
  match Address.ofHandle handle with
  | .error e => .error e
  | .ok (.chunk address) => heap.chunks.sizeOf handle address
  | .ok (.block address) =>
    if address.offset ≠ 0 then .error (.notBaseAddress handle address.offset)
    else heap.blocks.sizeOf handle address

/-- Accepts a range that lies within one live allocation. -/
def checkRange (heap : Heap) (handle : Handle) (length : Nat) : Except HeapError Unit :=
  match Address.ofHandle handle with
  | .error e => .error e
  | .ok (.chunk address) => (heap.chunks.slabFor handle address length).map fun _ => ()
  | .ok (.block address) => (heap.blocks.bufferFor handle address length).map fun _ => ()

/-- The bytes from a handle on. -/
def read (heap : Heap) (handle : Handle) (length : Nat) : Except HeapError (List UInt8) :=
  match Address.ofHandle handle with
  | .error e => .error e
  | .ok (.chunk address) => heap.chunks.read handle address length
  | .ok (.block address) => heap.blocks.read handle address length

/-- Replaces the bytes from a handle on. -/
def write (heap : Heap) (handle : Handle) (bytes : List UInt8) : Except HeapError Heap :=
  match Address.ofHandle handle with
  | .error e => .error e
  | .ok (.chunk address) =>
    (heap.chunks.write handle address bytes).map fun chunks => { heap with chunks := chunks }
  | .ok (.block address) =>
    (heap.blocks.write handle address bytes).map fun blocks => { heap with blocks := blocks }

/-- Moves the first `length` bytes of one allocation into another and gives up the first. -/
def move (heap : Heap) (source target : Handle) (length : Nat) : Except HeapError Heap := do
  let kept ← heap.read source length
  let heap ← heap.write target kept
  heap.free source

/-- Replaces an allocation by one of another size that starts with the same bytes.  The new one is
made before the old one is given up. -/
def reallocate (heap : Heap) (handle : Handle) (size : Int) : Except HeapError Handle × Heap :=
  if handle = Handle.null then
    heap.allocate size
  else
    match heap.sizeOf handle with
    | .error e => (.error e, heap)
    | .ok oldSize =>
      match heap.allocate size with
      | (.error e, heap) => (.error e, heap)
      | (.ok target, heap) =>
        let moved :=
          if target = Handle.null then heap.free handle
          else heap.move handle target (min oldSize size.toNat)
        match moved with
        | .error e => (.error e, heap)
        | .ok heap => (.ok target, heap)

/-- The length of a range, refused when negative. -/
def lengthOf (length : Int) : Except HeapError Nat :=
  if length < 0 then .error (.sizeOutOfRange length) else .ok length.toNat

/-- Sets a range to one byte. -/
def fill (heap : Heap) (handle : Handle) (length : Int) (value : UInt8) :
    Except HeapError Heap := do
  let length ← lengthOf length
  heap.checkRange handle length
  heap.write handle (List.replicate length value)

/-- Copies a range; the ranges may overlap. -/
def copy (heap : Heap) (source target : Handle) (length : Int) : Except HeapError Heap := do
  let length ← lengthOf length
  let bytes ← heap.read source length
  heap.write target bytes

end Heap

end HandleHeap
