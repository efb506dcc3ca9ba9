/-!
# Handles

A handle is a signed 64-bit word that behaves like a raw address: adding to it moves within the
memory it points into.  Zero is the null handle and negative words are never issued.

    bit   63   62   61 … 52      51 … 32        31 … 0
        +----+----+------------+-------------+-----------+
        | 0  | 1  | size index | chain index | position  |   a chunk inside a slab
        +----+----+------------+-------------+-----------+
        | 0  | 0  |        identifier        |  offset   |   a block of its own
        +----+----+--------------------------+-----------+

The fields of a word are read by division and remainder, and none of the readers looks at the
others' bits.  A packed word holds what was packed whenever the fields fit their widths.
-/

namespace HandleHeap

/-- An address in the emulated memory. -/
abbrev Handle := Int64

namespace Handle

/-- The handle that points nowhere. -/
def null : Handle := 0

/-- The bits of a handle as an unsigned number. -/
def word (handle : Handle) : Nat := handle.toUInt64.toNat

/-- The handle with the given bits, those above the lowest 64 dropped. -/
def ofWord (n : Nat) : Handle := (UInt64.ofNat n).toInt64

/-- Whether the handle points into a slab, which bit 62 tells. -/
def isChunk (handle : Handle) : Bool := handle.word.testBit 62

/-- The upper four bytes, which name the memory that the lower four bytes point into. -/
def identifier (handle : Handle) : Nat := handle.word / 0x100000000

/-- The lower four bytes. -/
def offset (handle : Handle) : Nat := handle.word % 0x100000000

/-- The size class of a handle into a slab: all bits above the chain index, with the bit that
marks such handles flipped. -/
def sizeIndex (handle : Handle) : Nat := (handle.identifier ^^^ 0x40000000) / 0x100000

/-- The position of the slab in the chain of its size class. -/
def chainIndex (handle : Handle) : Nat := handle.identifier % 0x100000

/-- The handle of a slot.  A field that is wider than its place spills upward into the next one
and is cut off at the end of its half of the word. -/
def ofSlot (sizeIndex chainIndex slot : Nat) : Handle :=
  let upper := (sizeIndex * 0x100000 ||| chainIndex) % 0x100000000
  let lower := slot * (sizeIndex + 1) % 0x100000000
  ofWord (0x4000000000000000 ||| (upper * 0x100000000 + lower))

/-- The handle of a byte of a block. -/
def ofBlock (identifier offset : Nat) : Handle :=
  ofWord (identifier * 0x100000000 + offset)

end Handle

end HandleHeap
