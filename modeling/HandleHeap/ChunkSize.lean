/-!
# Chunk sizes

Every byte count from 1 to 1024 has chunks of its own.  A handle stores the count less one, so that
1024 fits into ten bits.
-/

namespace HandleHeap.ChunkSize

/-- The smallest chunk, in bytes. -/
def least : Nat := 1

/-- The largest chunk, in bytes. -/
def greatest : Nat := 1024

/-- Whether memory of this size is handed out as a chunk of a slab. -/
def IsChunk (size : Nat) : Prop := least ≤ size ∧ size ≤ greatest

instance (size : Nat) : Decidable (IsChunk size) :=
  inferInstanceAs (Decidable (least ≤ size ∧ size ≤ greatest))

/-- The index under which a chunk size is stored, in sixteen bits. -/
def toIndex (size : Nat) : Nat := (size - 1) % 0x10000

/-- The chunk size stored under an index. -/
def ofIndex (index : Nat) : Nat := index + 1

end HandleHeap.ChunkSize
