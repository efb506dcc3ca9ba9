import HandleHeap.Heap

/-!
# Usage

What a heap holds, counted: one row per size class in use and totals for both kinds of memory.

* `Heap.usage`: the report;
* `Usage.text`: the report as an indented document.
-/

namespace HandleHeap

/-- The counts of one size class. -/
structure ClassUsage where
  /-- Bytes per chunk. -/
  chunkSize : Nat
  /-- Slots per slab. -/
  slotCount : Nat
  /-- Positions of the chain. -/
  chainLength : Nat
  /-- Positions that have a slab. -/
  slabCount : Nat
  /-- Slots in use. -/
  liveSlots : Nat
  /-- Slots of the slabs that are not in use. -/
  freeSlots : Nat
deriving DecidableEq, Repr

/-- The counts of a heap. -/
structure Usage where
  /-- The size classes in use, smallest chunks first. -/
  classes : List ClassUsage
  /-- Chunks in use. -/
  liveChunks : Nat
  /-- Bytes in them. -/
  liveChunkBytes : Nat
  /-- Blocks in use. -/
  liveBlocks : Nat
  /-- Bytes in them. -/
  liveBlockBytes : Nat
  /-- Indices of the block table, live or free. -/
  tableLength : Nat
deriving DecidableEq, Repr

/-- The counts of a size class. -/
def SizeClass.usage (sizeClass : SizeClass) : ClassUsage where
  chunkSize := ChunkSize.ofIndex sizeClass.index
  slotCount := sizeClass.slotCount
  chainLength := sizeClass.length
  slabCount := sizeClass.slabCount
  liveSlots := sizeClass.liveSlots
  freeSlots := sizeClass.freeSlots

/-- The counts of the size classes in use, smallest chunks first. -/
def ChunkPool.usage (pool : ChunkPool) : List ClassUsage :=
  pool.classes.toList.map fun (_, sizeClass) => sizeClass.usage

/-- The counts of a heap. -/
def Heap.usage (heap : Heap) : Usage :=
  let classes := heap.chunks.usage
  { classes := classes
    liveChunks := (classes.map (·.liveSlots)).foldr (· + ·) 0
    liveChunkBytes := (classes.map fun row => row.liveSlots * row.chunkSize).foldr (· + ·) 0
    liveBlocks := heap.blocks.liveCount
    liveBlockBytes := heap.blocks.liveBytes
    tableLength := heap.blocks.length }

/-- The named counts of a size class, in the order in which they are written. -/
def ClassUsage.fields (row : ClassUsage) : List (String × Nat) :=
  [("chunk_size", row.chunkSize), ("slot_count", row.slotCount),
    ("chain_length", row.chainLength), ("materialized_slabs", row.slabCount),
    ("live_slots", row.liveSlots), ("free_slots", row.freeSlots)]

/-- The named totals of a heap, in the order in which they are written. -/
def Usage.totals (usage : Usage) : List (String × Nat) :=
  [("small_live_chunks", usage.liveChunks), ("small_live_bytes", usage.liveChunkBytes),
    ("big_live_allocations", usage.liveBlocks), ("big_live_bytes", usage.liveBlockBytes),
    ("big_table_len", usage.tableLength)]

/-- A member of an object, indented. -/
def fieldLine (indent : String) (field : String × Nat) : String :=
  indent ++ "\"" ++ field.1 ++ "\": " ++ toString field.2

/-- A size class as an object inside the list of size classes. -/
def ClassUsage.text (row : ClassUsage) : String :=
  "    \x7b\n" ++ ",\n".intercalate (row.fields.map (fieldLine "      ")) ++ "\n    \x7d"

/-- The report as an object with one member a line, indented by two. -/
def Usage.text (usage : Usage) : String :=
  let classes :=
    if usage.classes.isEmpty then "[]"
    else "[\n" ++ ",\n".intercalate (usage.classes.map (·.text)) ++ "\n  ]"
  "\x7b\n  \"size_classes\": " ++ classes ++ ",\n"
    ++ ",\n".intercalate (usage.totals.map (fieldLine "  ")) ++ "\n\x7d"

end HandleHeap
