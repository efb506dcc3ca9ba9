import HandleHeap.ChunkSize
import HandleHeap.Heap.Error

/-!
# Addresses

What a valid handle means: a position inside a slab, or an offset inside a block.

* `Address.ofHandle`: the address of a handle, refused for the null handle and for negative words;
* `ChunkAddress.slot`, `ChunkAddress.slotOffset`: a position as a slot and a distance into it;
* `Address.text`: the address in words.
-/

namespace HandleHeap

/-- A byte position inside a slab. -/
structure ChunkAddress where
  /-- The index of the chunk size. -/
  sizeIndex : Nat
  /-- The place of the slab in the chain of its size class. -/
  chainIndex : Nat
  /-- The byte within the slab. -/
  position : Nat
deriving DecidableEq, Repr

namespace ChunkAddress

/-- The size of the chunks in the addressed slab. -/
def chunkSize (address : ChunkAddress) : Nat := ChunkSize.ofIndex address.sizeIndex

/-- The slot that holds the addressed byte. -/
def slot (address : ChunkAddress) : Nat := address.position / address.chunkSize

/-- The distance of the addressed byte from the start of its slot. -/
def slotOffset (address : ChunkAddress) : Nat := address.position % address.chunkSize

end ChunkAddress

/-- A byte inside a block. -/
structure BlockAddress where
  /-- The number of the block. -/
  identifier : Nat
  /-- The byte within the block. -/
  offset : Nat
deriving DecidableEq, Repr

/-- The two kinds of memory that a handle can point into. -/
inductive Address where
  | chunk (address : ChunkAddress)
  | block (address : BlockAddress)
deriving DecidableEq, Repr

/-- Refuses every handle that no memory can have. -/
def Handle.validate (handle : Handle) : Except HeapError Unit :=
  if handle = Handle.null then .error .nullHandle
  else if handle < 1 then .error (.invalidHandle handle)
  else .ok ()

/-- The fields of a handle, read as its kind demands. -/
def Handle.address (handle : Handle) : Address :=
  if handle.isChunk then
    .chunk ⟨handle.sizeIndex, handle.chainIndex, handle.offset⟩
  else
    .block ⟨handle.identifier, handle.offset⟩

/-- The address that a valid handle stands for. -/
def Address.ofHandle (handle : Handle) : Except HeapError Address := do
  handle.validate
  return handle.address

/-- The address in words. -/
def Address.text : Address → String
  | chunk address =>
    s!"Small(size={address.chunkSize}, chain={address.chainIndex}, "
      ++ s!"slot={address.slot}, offset={address.slotOffset})"
  | block address => s!"Big(id={address.identifier}, offset={address.offset})"

end HandleHeap
