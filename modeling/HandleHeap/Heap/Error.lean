import HandleHeap.Handle

/-!
# Failures of memory calls

Each constructor is one cause; `message` gives its wording.
-/

namespace HandleHeap

/-- Why a memory call was refused. -/
inductive HeapError where
  /-- The null handle was used as an address. -/
  | nullHandle
  /-- Nothing live is where the handle points. -/
  | invalidHandle (handle : Handle)
  /-- The handle points past the start of its chunk or block. -/
  | notBaseAddress (handle : Handle) (offset : Nat)
  /-- Every slab of the chain is full and the chain may not become longer. -/
  | chainFull (chunkSize bound : Nat)
  /-- A slab has no free slot although its counter promises one. -/
  | slabFull (position chunkSize : Nat)
  /-- Every identifier of a block is in use. -/
  | tableFull (limit : Nat)
  /-- No memory of this size exists. -/
  | sizeOutOfRange (size : Int)
  /-- The bytes are not all within the chunk or block that the handle points into. -/
  | outOfBounds (handle : Handle) (length : Nat)
  /-- The end of the range is no 64-bit word.  The call does not return then: it ends the program,
  with an overflow. -/
  | wrappedRange (handle : Handle) (length : Nat)
  /-- The value does not fit into a byte array at the index. -/
  | indexOutOfBounds (index length : Nat)
deriving DecidableEq, Repr

/-- The wording of a failure. -/
def HeapError.message : HeapError → String
  | nullHandle => "Null handle"
  | invalidHandle handle => s!"Invalid handle: {handle.toInt}"
  | notBaseAddress handle offset =>
    s!"Not the base address of an allocated memory range: {handle.toInt} (offset = {offset})"
  | chainFull chunkSize bound =>
    "Memory allocation capacity exceeded: "
      ++ s!"chain of size class {chunkSize} cannot grow beyond {bound} slabs"
  | slabFull position chunkSize =>
    "Memory allocation capacity exceeded: "
      ++ s!"slab {position} of size class {chunkSize} has no free slot"
  | tableFull limit =>
    "Memory allocation capacity exceeded: "
      ++ s!"big allocation table is limited to {limit} entries"
  | sizeOutOfRange size => s!"Invalid memory range: {size}"
  | outOfBounds handle length =>
    s!"Access of {length} bytes at {handle.toInt} exceeds the allocated range"
  | wrappedRange handle length =>
    s!"Access of {length} bytes at {handle.toInt} ends beyond every word"
  | indexOutOfBounds index length => s!"Index {index} out of bounds for {length} bytes"

end HandleHeap
