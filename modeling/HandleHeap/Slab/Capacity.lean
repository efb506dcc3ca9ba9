/-!
# Slots per slab

How many slots a slab gets, from the chunk size and the size that slabs aim for.  The number falls
in steps as chunks grow: it starts at `most`, is as many as fit in between, and does not fall below
`fewest`, where slabs become larger than aimed for instead.
-/

namespace HandleHeap.Slab

/-- No slab has more slots. -/
def most : Nat := 127

/-- No slab has fewer slots. -/
def fewest : Nat := 4

/-- The smallest chunk size of which at most `slots` chunks fit into `bufferSize` bytes. -/
def leastChunkFor (slots bufferSize : Nat) : Nat := 1 + bufferSize / (slots + 1)

/-- The number of slots in a slab of the given chunk size. -/
def capacity (chunkSize bufferSize : Nat) : Nat :=
  if leastChunkFor 8 bufferSize ≤ chunkSize then
    ((List.range' fewest 4).find? fun slots => leastChunkFor slots bufferSize ≤ chunkSize).getD 8
  else if chunkSize < leastChunkFor (most - 1) bufferSize then
    most
  else
    bufferSize / chunkSize

end HandleHeap.Slab
