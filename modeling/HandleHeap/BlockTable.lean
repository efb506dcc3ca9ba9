import HandleHeap.Address
import HandleHeap.Buffer

/-!
# The block table

Memory of more than 1024 bytes gets a buffer of its own.  The table numbers the buffers; a number
that became free is used again, the last one first, before the table grows.

* `BlockTable.allocate`, `BlockTable.free`, `BlockTable.sizeOf`: life of a block;
* `BlockTable.read`, `BlockTable.write`: access to bytes within one block.  Here it is asked
  whether the block is live before the length is checked.
-/

namespace HandleHeap

/-- Buffers by number, and the numbers that are free. -/
structure BlockTable where
  /-- The buffer at each index, absent while the index is free. -/
  buffers : Array (Option Buffer) := #[]
  /-- The free indices, the one freed last in front. -/
  spare : List Nat := []

namespace BlockTable

/-- The largest number of a block: one more bit would reach the mark of slab handles. -/
def greatestIdentifier : Nat := 0x3fffffff

/-- A table without buffers. -/
def empty : BlockTable := {}

/-- The index behind an identifier; identifier 0 is left out because it would make null handles. -/
def indexOf? : Nat → Option Nat
  | 0 => none
  | index + 1 => some index

/-- The number of indices, live or free. -/
def length (table : BlockTable) : Nat := table.buffers.size

/-- The buffer of a block, if it is live. -/
def buffer? (table : BlockTable) (identifier : Nat) : Option Buffer :=
  (indexOf? identifier).bind fun index => table.buffers[index]?.join

/-- Makes a block of zeros. -/
def allocate (table : BlockTable) (size : Nat) : Except HeapError Handle × BlockTable :=
  match table.spare with
  | index :: spare =>
    (.ok (Handle.ofBlock (index + 1) 0),
      { buffers := table.buffers.setIfInBounds index (some (Buffer.zeroed size)), spare := spare })
  | [] =>
    if table.length < greatestIdentifier then
      (.ok (Handle.ofBlock (table.length + 1) 0),
        { table with buffers := table.buffers.push (some (Buffer.zeroed size)) })
    else
      (.error (.tableFull greatestIdentifier), table)

/-- Gives up a block, given the start of it. -/
def free (table : BlockTable) (handle : Handle) (address : BlockAddress) :
    Except HeapError BlockTable :=
  if address.offset ≠ 0 then
    .error (.notBaseAddress handle address.offset)
  else
    match indexOf? address.identifier with
    | none => .error (.invalidHandle handle)
    | some index =>
      if table.buffers[index]?.join.isSome then
        .ok { buffers := table.buffers.setIfInBounds index none, spare := index :: table.spare }
      else
        .error (.invalidHandle handle)

/-- The buffer of a live block. -/
def liveBuffer (table : BlockTable) (handle : Handle) (address : BlockAddress) :
    Except HeapError Buffer :=
  match table.buffer? address.identifier with
  | none => .error (.invalidHandle handle)
  | some buffer => .ok buffer

/-- The size of a live block. -/
def sizeOf (table : BlockTable) (handle : Handle) (address : BlockAddress) :
    Except HeapError Nat :=
  (table.liveBuffer handle address).map (·.size)

/-- The buffer of a live block that holds `length` bytes from the address on. -/
def bufferFor (table : BlockTable) (handle : Handle) (address : BlockAddress) (length : Nat) :
    Except HeapError Buffer :=
  match table.liveBuffer handle address with
  | .error e => .error e
  | .ok buffer =>
    if address.offset + length ≤ buffer.size then .ok buffer
    else .error (.outOfBounds handle length)

/-- The bytes at an address. -/
def read (table : BlockTable) (handle : Handle) (address : BlockAddress) (length : Nat) :
    Except HeapError (List UInt8) :=
  (table.bufferFor handle address length).map (·.read address.offset length)

/-- Replaces the bytes at an address. -/
def write (table : BlockTable) (handle : Handle) (address : BlockAddress) (bytes : List UInt8) :
    Except HeapError BlockTable :=
  (table.bufferFor handle address bytes.length).map fun buffer =>
    { table with
      buffers := table.buffers.setIfInBounds (address.identifier - 1)
        (some (buffer.put address.offset bytes)) }

/-- The number of live blocks. -/
def liveCount (table : BlockTable) : Nat := table.length - table.spare.length

/-- The bytes in live blocks. -/
def liveBytes (table : BlockTable) : Nat :=
  (table.buffers.toList.map fun buffer => (buffer.map (·.size)).getD 0).foldr (· + ·) 0

end BlockTable

end HandleHeap
