import HandleHeap.Heap
import HandleHeap.Proofs.BlockTables
import HandleHeap.Proofs.ChunkPools

/-!
# Heaps as memory

A heap seen by address: how large the chunk or block is that an address points into, and which byte
is there.  Every call reads and changes only these two.

* `Heap.Valid`: both kinds of memory are valid, and blocks are larger than any chunk;
* `Heap.sizeAt`, `Heap.byteAt`: the size of the live allocation behind an address, and its byte;
* `Heap.Valid.start_eq_of_mem`: the addresses in the range of a live allocation are those that
  start where it starts;
* `Heap.sizeOf_eq_ok_iff`, `Heap.checkRange_eq_ok_iff`, `Heap.read_eq`: what is asked of a heap;
* `Heap.Valid.allocate_cases`, `Heap.Valid.exists_free`, `Heap.Valid.exists_write`: what is done to
  it, each an edit of the two views (`Heap.Allocated`, `Heap.Freed`, `Heap.Written`).
-/

namespace HandleHeap

/-! ### Starts of chunks and blocks -/

namespace Address

theorem start_chunk_eq_iff {a b : ChunkAddress} :
    (chunk b).start = (chunk a).start ↔ b.SameSlot a := by
  simp only [start, chunk.injEq, ChunkAddress.mk.injEq, ChunkAddress.SameSlot]
  constructor
  · rintro ⟨hs, hc, hp⟩
    refine ⟨hs, hc, ?_⟩
    have hcs : b.chunkSize = a.chunkSize := congrArg ChunkSize.ofIndex hs
    rw [hcs] at hp
    exact Nat.eq_of_mul_eq_mul_right a.chunkSize_pos hp
  · rintro ⟨hs, hc, hp⟩
    have hcs : b.chunkSize = a.chunkSize := congrArg ChunkSize.ofIndex hs
    exact ⟨hs, hc, by rw [hp, hcs]⟩

theorem start_block_eq_iff {a b : BlockAddress} :
    (block b).start = (block a).start ↔ b.identifier = a.identifier := by
  simp [start]

theorem start_chunk_ne_block {a : ChunkAddress} {b : BlockAddress} :
    (chunk a).start ≠ (block b).start := nofun

theorem start_start (a : Address) : a.start.start = a.start := by
  rcases a with a | a
  · rw [start_eq_self_iff]
    exact (ChunkAddress.slot_eq_of_position rfl).2
  · rfl

end Address

namespace Heap

/-- The size of the live chunk or block that an address points into. -/
def sizeAt (heap : Heap) : Address → Option Nat
  | .chunk address => if heap.chunks.isUsed address then some address.chunkSize else none
  | .block address => (heap.blocks.buffer? address.identifier).map (·.size)

/-- The byte at an address, zero where no memory is. -/
def byteAt (heap : Heap) : Address → UInt8
  | .chunk address => heap.chunks.byteAt address
  | .block address => heap.blocks.byteAt address

/-- All that is kept about slots and blocks beside their bytes. -/
def occupancy (heap : Heap) :
    (Nat → Option (Array UInt8 × Array (Option (Array Bool)))) × Array (Option Nat) × List Nat :=
  (heap.chunks.occupancy, heap.blocks.occupancy)

/-- **The invariant of a heap.** -/
structure Valid (heap : Heap) : Prop where
  chunks : heap.chunks.Valid
  blocks : heap.blocks.Valid
  block_size : ∀ identifier buffer, heap.blocks.buffer? identifier = some buffer →
    ChunkSize.greatest < buffer.size ∧ (buffer.size : Int) ≤ greatestSize

theorem valid_fresh {settings : Settings} (h : settings.validate = .ok ()) :
    (fresh settings).Valid := by
  refine ⟨ChunkPool.valid_fresh h, BlockTable.valid_empty, fun identifier buffer hbuffer => ?_⟩
  obtain ⟨index, -, hlt, -⟩ := BlockTable.exists_index hbuffer
  exact absurd hlt (Nat.not_lt_zero _)

theorem sizeAt_fresh (settings : Settings) (a : Address) : (fresh settings).sizeAt a = none := by
  rcases a with a | ⟨_ | index, offset⟩
  · simp [sizeAt, fresh]
  · rfl
  · simp [sizeAt, fresh, BlockTable.empty, BlockTable.buffer?_succ]

/-! ### Live allocations by address -/

theorem sizeAt_chunk_eq_some_iff {heap : Heap} {a : ChunkAddress} {n : Nat} :
    heap.sizeAt (.chunk a) = some n ↔ heap.chunks.isUsed a = true ∧ a.chunkSize = n := by
  change (if heap.chunks.isUsed a then some a.chunkSize else none) = some n ↔ _
  split
  · next h => simp [h]
  · next h => simp [h]

theorem sizeAt_block_eq_some_iff {heap : Heap} {a : BlockAddress} {n : Nat} :
    heap.sizeAt (.block a) = some n ↔
      ∃ buffer, heap.blocks.buffer? a.identifier = some buffer ∧ buffer.size = n :=
  Option.map_eq_some_iff

/-- The size behind an address is that behind the start of its chunk or block. -/
theorem sizeAt_start (heap : Heap) (a : Address) : heap.sizeAt a.start = heap.sizeAt a := by
  rcases a with a | a
  · have hslot : (⟨a.sizeIndex, a.chainIndex, a.slot * a.chunkSize⟩ : ChunkAddress).slot = a.slot :=
      (ChunkAddress.slot_eq_of_position rfl).1
    simp only [Address.start, sizeAt, ChunkPool.isUsed, hslot]
    rfl
  · rfl

section live
variable {heap : Heap} {a b : Address} {n : Nat}

/-- Nothing is live at the number zero. -/
theorem number_pos (h : heap.sizeAt a = some n) : 0 < a.number := by
  rcases a with a | ⟨_ | index, offset⟩
  · simp only [Address.number]
    omega
  · cases h
  · simp only [Address.number]
    omega

/-- Chunks are the allocations of at most 1024 bytes. -/
theorem Valid.isChunk_iff_size (hv : heap.Valid) (ha : a.Fits) (h : heap.sizeAt a = some n) :
    a.isChunk = true ↔ n ≤ ChunkSize.greatest := by
  rcases a with a | a
  · rw [← (sizeAt_chunk_eq_some_iff.mp h).2]
    exact ⟨fun _ => (ChunkPool.isChunk_chunkSize ha.1).2, fun _ => rfl⟩
  · obtain ⟨buffer, hbuffer, rfl⟩ := sizeAt_block_eq_some_iff.mp h
    have hsize := (hv.block_size _ _ hbuffer).1
    exact ⟨nofun, fun hle => by omega⟩

/-- A live allocation ends before the lower four bytes of its handles do. -/
theorem Valid.place_add_size_le (hv : heap.Valid) (ha : a.Fits) (h : heap.sizeAt a = some n) :
    a.start.place + n ≤ 0x100000000 := by
  rcases a with a | a
  · obtain ⟨hused, rfl⟩ := sizeAt_chunk_eq_some_iff.mp h
    obtain ⟨found, slab, hfound, hslab, hflag⟩ := ChunkPool.exists_slab_of_isUsed hused
    have hsize := ChunkPool.isChunk_chunkSize ha.1
    have hserves := hv.chunks.serves_of_some hfound
    have hslot : a.slot < 127 := Nat.lt_of_lt_of_le
      ((hserves.valid.slab_valid _ slab hslab).lt_slotCount hflag) hserves.valid.slotCount_le
    have hle : (a.slot + 1) * a.chunkSize ≤ 127 * ChunkSize.greatest :=
      Nat.mul_le_mul hslot hsize.2
    unfold ChunkSize.greatest at hle
    rw [Nat.succ_mul] at hle
    change a.slot * a.chunkSize + a.chunkSize ≤ _
    omega
  · obtain ⟨buffer, hbuffer, rfl⟩ := sizeAt_block_eq_some_iff.mp h
    have hsize := (hv.block_size _ _ hbuffer).2
    unfold greatestSize at hsize
    change 0 + buffer.size ≤ _
    omega

/-- So does every range inside it. -/
theorem Valid.place_add_le (hv : heap.Valid) (ha : a.Fits) (h : heap.sizeAt a = some n)
    {length : Nat} (hle : a.inner + length ≤ n) : a.place + length ≤ 0x100000000 := by
  have hroom := hv.place_add_size_le ha h
  have hplace := a.place_start
  omega

/-- Within a live allocation an advance keeps the start. -/
theorem start_advance (h : heap.sizeAt a = some n) {length : Nat} (hlt : a.inner + length < n) :
    (a.advance length).start = a.start ∧ (a.advance length).inner = a.inner + length := by
  rcases a with a | a
  · obtain ⟨-, rfl⟩ := sizeAt_chunk_eq_some_iff.mp h
    obtain ⟨-, hslot, hoffset⟩ := Address.slot_advance a hlt
    refine ⟨?_, hoffset⟩
    change (Address.chunk { a with position := a.position + length }).start = _
    rw [Address.start_chunk_eq_iff]
    exact ⟨rfl, rfl, hslot⟩
  · exact ⟨rfl, rfl⟩

/-- **The addresses in the range of a live allocation** are those that start where it starts. -/
theorem Valid.start_eq_of_mem (hv : heap.Valid) (ha : a.Fits) (hb : b.Fits)
    (h : heap.sizeAt a = some n) (hinner : a.inner = 0) (hle : a.number ≤ b.number)
    (hlt : b.number < a.number + n) : b.start = a ∧ b.inner = b.number - a.number := by
  have hstart := Address.start_eq_self_iff.mpr hinner
  have hroom := hv.place_add_size_le ha h
  rw [hstart] at hroom
  have hadvance := Address.eq_advance ha hb hle (by omega)
  have hin : a.inner + (b.number - a.number) < n := by omega
  have hkeep := start_advance h hin
  rw [← hadvance, hinner, Nat.zero_add, hstart] at hkeep
  exact hkeep

end live

/-! ### Questions -/

/-- The size of an allocation is told at its start. -/
theorem sizeOf_eq_ok_iff {heap : Heap} {handle : Handle} {n : Nat} :
    heap.sizeOf handle = .ok n ↔ 0 < handle.toInt ∧ handle.address.inner = 0 ∧
      heap.sizeAt handle.address = some n := by
  unfold sizeOf
  rcases hgate : Address.ofHandle handle with e | a
  · constructor
    · intro h
      cases h
    · intro h
      rw [Address.ofHandle_of_pos h.1] at hgate
      cases hgate
  obtain ⟨hpos, rfl⟩ := Address.ofHandle_eq_ok_iff.mp hgate
  simp only [hpos, true_and]
  rcases handle.address with a | a
  · simp only [sizeAt_chunk_eq_some_iff]
    exact ChunkPool.sizeOf_eq_ok_iff
  · simp only [sizeAt_block_eq_some_iff]
    by_cases hoffset : a.offset = 0
    · rw [if_neg (fun hne => hne hoffset), BlockTable.sizeOf_eq_ok_iff]
      exact ⟨fun h => ⟨hoffset, h⟩, fun h => h.2⟩
    · rw [if_pos hoffset]
      constructor
      · intro h
        cases h
      · intro h
        exact absurd h.1 hoffset

theorem map_unit_eq_ok_iff {α : Type} {outcome : Except HeapError α} :
    (outcome.map fun _ => ()) = .ok () ↔ ∃ value, outcome = .ok value := by
  rcases outcome with e | value
  · constructor
    · intro h
      cases h
    · rintro ⟨value, h⟩
      cases h
  · exact ⟨fun _ => ⟨value, rfl⟩, fun _ => rfl⟩

/-- **Access is granted** to the bytes of one live allocation. -/
theorem checkRange_eq_ok_iff {heap : Heap} {handle : Handle} {length : Nat} :
    heap.checkRange handle length = .ok () ↔ 0 < handle.toInt ∧
      ∃ n, heap.sizeAt handle.address = some n ∧ handle.address.inner + length ≤ n := by
  unfold checkRange
  rcases hgate : Address.ofHandle handle with e | a
  · constructor
    · intro h
      cases h
    · intro h
      rw [Address.ofHandle_of_pos h.1] at hgate
      cases hgate
  obtain ⟨hpos, rfl⟩ := Address.ofHandle_eq_ok_iff.mp hgate
  have hfits := Handle.address_fits hpos
  simp only [hpos, true_and]
  generalize handle.address = a at hfits ⊢
  rcases a with a | a
  · simp only [map_unit_eq_ok_iff, ChunkPool.exists_slabFor_iff hfits.1,
      sizeAt_chunk_eq_some_iff, Address.inner]
    constructor
    · rintro ⟨hused, hle⟩
      exact ⟨a.chunkSize, ⟨hused, rfl⟩, hle⟩
    · rintro ⟨n, ⟨hused, rfl⟩, hle⟩
      exact ⟨hused, hle⟩
  · simp only [map_unit_eq_ok_iff, BlockTable.bufferFor_eq_ok_iff, sizeAt_block_eq_some_iff,
      Address.inner]
    constructor
    · rintro ⟨buffer, hbuffer, hle⟩
      exact ⟨buffer.size, ⟨buffer, hbuffer, rfl⟩, hle⟩
    · rintro ⟨n, ⟨buffer, hbuffer, rfl⟩, hle⟩
      exact ⟨buffer, hbuffer, hle⟩

/-- **The bytes read** are those at the addresses of the range, where access is granted. -/
theorem read_eq (heap : Heap) (handle : Handle) (length : Nat) :
    heap.read handle length = (heap.checkRange handle length).map fun _ =>
      (List.range length).map fun i => heap.byteAt (handle.address.advance i) := by
  unfold read checkRange
  rcases hgate : Address.ofHandle handle with e | a
  · rfl
  obtain ⟨hpos, rfl⟩ := Address.ofHandle_eq_ok_iff.mp hgate
  have hfits := Handle.address_fits hpos
  generalize handle.address = a at hfits ⊢
  rcases a with a | a
  · simp only
    rcases hcall : heap.chunks.slabFor handle a length with e | slab
    · unfold ChunkPool.read
      rw [hcall]
      rfl
    · obtain ⟨-, hlive⟩ := (ChunkPool.slabFor_eq_ok_iff hfits.1).mp hcall
      rw [ChunkPool.read_eq hcall hlive, List.range'_eq_map_range, List.map_map]
      rfl
  · simp only
    rcases hcall : heap.blocks.bufferFor handle a length with e | buffer
    · unfold BlockTable.read
      rw [hcall]
      rfl
    · rw [BlockTable.read_eq hcall, List.range'_eq_map_range, List.map_map]
      rfl

theorem checkRange_of_read {heap : Heap} {handle : Handle} {length : Nat} {bytes : List UInt8}
    (h : heap.read handle length = .ok bytes) : heap.checkRange handle length = .ok () := by
  rw [read_eq] at h
  rcases hcheck : heap.checkRange handle length with e | ⟨⟩
  · rw [hcheck] at h
    cases h
  · rfl

theorem length_of_read {heap : Heap} {handle : Handle} {length : Nat} {bytes : List UInt8}
    (h : heap.read handle length = .ok bytes) : bytes.length = length := by
  have hcheck := checkRange_of_read h
  rw [read_eq, hcheck] at h
  cases h
  rw [List.length_map, List.length_range]

/-! ### Changes -/

/-- What a write changes: the bytes that it covers. -/
structure Written (heap : Heap) (a : Address) (bytes : List UInt8) (next : Heap) : Prop where
  valid : next.Valid
  occupancy_eq : next.occupancy = heap.occupancy
  sizeAt_eq : ∀ b, next.sizeAt b = heap.sizeAt b
  byteAt_eq : ∀ b, b.Fits → next.byteAt b =
    if a.number ≤ b.number ∧ b.number < a.number + bytes.length
    then bytes[b.number - a.number]?.getD 0 else heap.byteAt b

/-- What an allocation changes: its addresses become live, with zeros in them. -/
structure Allocated (heap : Heap) (size : Nat) (a : Address) (next : Heap) : Prop where
  valid : next.Valid
  inner_eq : a.inner = 0
  free : heap.sizeAt a = none
  sizeAt_eq : ∀ b, next.sizeAt b = if b.start = a then some size else heap.sizeAt b
  byteAt_eq : ∀ b, next.byteAt b = heap.byteAt b

/-- What a release changes: the addresses of the allocation are no longer live. -/
structure Freed (heap : Heap) (a : Address) (next : Heap) : Prop where
  valid : next.Valid
  sizeAt_eq : ∀ b, next.sizeAt b = if b.start = a then none else heap.sizeAt b
  byteAt_eq : ∀ b, next.byteAt b = if b.start = a then 0 else heap.byteAt b

theorem write_eq_error {heap : Heap} {handle : Handle} {bytes : List UInt8} {e : HeapError}
    (h : heap.checkRange handle bytes.length = .error e) :
    heap.write handle bytes = .error e := by
  unfold checkRange at h
  unfold write
  rcases hgate : Address.ofHandle handle with e' | a | a
  · rw [hgate] at h
    cases h
    rfl
  · simp only [hgate] at h ⊢
    unfold ChunkPool.write
    rcases hcall : heap.chunks.slabFor handle a bytes.length with e' | slab <;> rw [hcall] at h <;>
      cases h
    rfl
  · simp only [hgate] at h ⊢
    unfold BlockTable.write
    rcases hcall : heap.blocks.bufferFor handle a bytes.length with e' | buffer <;>
      rw [hcall] at h <;> cases h
    rfl

theorem checkRange_of_write {heap next : Heap} {handle : Handle} {bytes : List UInt8}
    (h : heap.write handle bytes = .ok next) : heap.checkRange handle bytes.length = .ok () := by
  rcases hcheck : heap.checkRange handle bytes.length with e | ⟨⟩
  · rw [write_eq_error hcheck] at h
    cases h
  · rfl

/-- A filling of a range that has a length is a write. -/
theorem fill_eq_write (heap : Heap) (handle : Handle) {length : Int} (h : ¬ length < 0)
    (value : UInt8) :
    heap.fill handle length value = heap.write handle (List.replicate length.toNat value) := by
  rcases hcheck : heap.checkRange handle length.toNat with e | ⟨⟩
  · have hwrite : heap.write handle (List.replicate length.toNat value) = .error e :=
      write_eq_error (by rw [List.length_replicate]; exact hcheck)
    simp only [fill, lengthOf, if_neg h, bind, Except.bind, hcheck, hwrite]
  · simp only [fill, lengthOf, if_neg h, bind, Except.bind, hcheck]

/-- A write in the pool is one of the heap. -/
theorem Valid.written_chunk {heap : Heap} (hv : heap.Valid) {a : ChunkAddress}
    {bytes : List UInt8} {next : ChunkPool} (hfits : (Address.chunk a).Fits)
    (hroom : (Address.chunk a).place + bytes.length ≤ 0x100000000)
    (h : ChunkPool.Written heap.chunks a bytes next) :
    Written heap (.chunk a) bytes { heap with chunks := next } := by
  refine ⟨⟨h.valid, hv.blocks, hv.block_size⟩, ?_, fun b => ?_, fun b hb => ?_⟩
  · unfold occupancy
    rw [h.occupancy_eq]
  · rcases b with b | b
    · unfold sizeAt
      simp only [h.isUsed_eq]
    · rfl
  · rcases b with b | b
    · simp only [Address.mem_range_chunk_iff hfits hb hroom]
      show next.byteAt b = _
      rw [h.byteAt_eq]
      split
      · next hin =>
        have hoffset : (Address.chunk b).number - (Address.chunk a).number
            = b.position - a.position := by
          simp only [Address.number]
          omega
        rw [hoffset]
      · rfl
    · rw [if_neg (Address.not_mem_range_of_isChunk_ne hfits hb (by simp [Address.isChunk]) hroom)]
      rfl

/-- A write in the table is one of the heap. -/
theorem Valid.written_block {heap : Heap} (hv : heap.Valid) {a : BlockAddress}
    {bytes : List UInt8} {next : BlockTable} (hfits : (Address.block a).Fits)
    (hroom : (Address.block a).place + bytes.length ≤ 0x100000000)
    (h : BlockTable.Written heap.blocks a bytes next) :
    Written heap (.block a) bytes { heap with blocks := next } := by
  refine ⟨⟨hv.chunks, h.valid, fun i found hfound => ?_⟩, ?_, fun b => ?_, fun b hb => ?_⟩
  · have hsize := h.size_eq i
    rw [show next.buffer? i = some found from hfound, Option.map_some] at hsize
    obtain ⟨old, hold, heq⟩ := Option.map_eq_some_iff.mp hsize.symm
    rw [← heq]
    exact hv.block_size i old hold
  · unfold occupancy
    rw [h.occupancy_eq]
  · rcases b with b | b
    · rfl
    · exact h.size_eq b.identifier
  · rcases b with b | b
    · rw [if_neg (Address.not_mem_range_of_isChunk_ne hfits hb (by simp [Address.isChunk]) hroom)]
      rfl
    · simp only [Address.mem_range_block_iff hfits hb hroom]
      show next.byteAt b = _
      rw [h.byteAt_eq]
      split
      · next hin =>
        have hoffset : (Address.block b).number - (Address.block a).number
            = b.offset - a.offset := by
          simp only [Address.number]
          omega
        rw [hoffset]
      · rfl

/-- **A write goes where access is granted.** -/
theorem Valid.exists_write {heap : Heap} (hv : heap.Valid) {handle : Handle}
    {bytes : List UInt8} (h : heap.checkRange handle bytes.length = .ok ()) :
    ∃ next, heap.write handle bytes = .ok next ∧ Written heap handle.address bytes next := by
  obtain ⟨hpos, n, hsize, hle⟩ := checkRange_eq_ok_iff.mp h
  have hfits := Handle.address_fits hpos
  have hroom := hv.place_add_le hfits hsize hle
  unfold checkRange at h
  unfold write
  rw [Address.ofHandle_of_pos hpos] at h ⊢
  generalize handle.address = a at hfits hroom h ⊢
  rcases a with a | a
  · simp only at h ⊢
    rcases hcall : heap.chunks.slabFor handle a bytes.length with e | slab
    · rw [hcall] at h
      cases h
    obtain ⟨next, hwrite, hw⟩ := hv.chunks.write_of_slabFor hfits.1 hcall
    exact ⟨{ heap with chunks := next }, by rw [hwrite]; rfl, hv.written_chunk hfits hroom hw⟩
  · simp only at h ⊢
    rcases hcall : heap.blocks.bufferFor handle a bytes.length with e | buffer
    · rw [hcall] at h
      cases h
    obtain ⟨next, hwrite, hw⟩ := hv.blocks.write_of_bufferFor hcall
    exact ⟨{ heap with blocks := next }, by rw [hwrite]; rfl, hv.written_block hfits hroom hw⟩

theorem Valid.of_write {heap : Heap} (hv : heap.Valid) {handle : Handle} {bytes : List UInt8}
    {next : Heap} (h : heap.write handle bytes = .ok next) : next.Valid := by
  obtain ⟨written, hwrite, hw⟩ := hv.exists_write (checkRange_of_write h)
  rw [h] at hwrite
  cases hwrite
  exact hw.valid

/-- A chunk taken from the pool is an allocation of the heap. -/
theorem Valid.allocated_chunk {heap : Heap} (hv : heap.Valid) {a : ChunkAddress}
    {next : ChunkPool} (hoffset : a.slotOffset = 0) (h : ChunkPool.Allocated heap.chunks a next) :
    Allocated heap a.chunkSize (.chunk a) { heap with chunks := next } := by
  have hstart := Address.start_eq_self_iff.mpr (show (Address.chunk a).inner = 0 from hoffset)
  refine ⟨⟨h.valid, hv.blocks, hv.block_size⟩, hoffset, ?_, fun b => ?_, fun b => ?_⟩
  · unfold sizeAt
    simp only [h.free, Bool.false_eq_true, if_false]
  · rw [← hstart]
    rcases b with b | b
    · simp only [Address.start_chunk_eq_iff, sizeAt, h.isUsed_eq]
      by_cases hsame : b.SameSlot a
      · rw [if_pos hsame, if_pos rfl, if_pos hsame]
        exact congrArg some (congrArg ChunkSize.ofIndex hsame.1)
      · rw [if_neg hsame, if_neg hsame]
    · rw [if_neg (fun heq => Address.start_chunk_ne_block heq.symm)]
      rfl
  · rcases b with b | b
    · exact h.byteAt_eq b
    · rfl

/-- A block made in the table is an allocation of the heap. -/
theorem Valid.allocated_block {heap : Heap} (hv : heap.Valid) {identifier size : Nat}
    {next : BlockTable} (hlow : ChunkSize.greatest < size) (hhigh : (size : Int) ≤ greatestSize)
    (hfree : heap.blocks.buffer? identifier = none) (hnext : next.Valid)
    (h : heap.blocks.Replaced identifier (some (Buffer.zeroed size)) next) :
    Allocated heap size (.block ⟨identifier, 0⟩) { heap with blocks := next } := by
  refine ⟨⟨hv.chunks, hnext, fun i found hfound => ?_⟩, rfl, ?_, fun b => ?_, fun b => ?_⟩
  · rw [h] at hfound
    split at hfound
    · cases hfound
      exact ⟨hlow, hhigh⟩
    · exact hv.block_size i found hfound
  · unfold sizeAt
    simp only [hfree, Option.map_none]
  · change _ = if b.start = (Address.block ⟨identifier, 0⟩).start then _ else _
    rcases b with b | b
    · rw [if_neg Address.start_chunk_ne_block]
      rfl
    · simp only [Address.start_block_eq_iff, sizeAt, h b.identifier]
      split <;> rfl
  · rcases b with b | b
    · rfl
    · change next.byteAt b = heap.blocks.byteAt b
      unfold BlockTable.byteAt
      rw [h]
      split
      · next heq =>
        rw [heq, hfree]
        exact Buffer.get_zeroed size b.offset
      · rfl

theorem Valid.allocate_small {heap : Heap} (hv : heap.Valid) {size : Nat}
    (hsize : ChunkSize.IsChunk size) :
    (∃ handle next, heap.chunks.allocate size = (.ok handle, next) ∧ 0 < handle.toInt ∧
        Allocated heap size handle.address { heap with chunks := next }) ∨
      ∃ e, heap.chunks.allocate size = (.error e, heap.chunks) := by
  rcases hv.chunks.allocate_address hsize with
    ⟨handle, a, next, hcall, hpos, haddress, hoffset, hchunk, ha⟩ | hcall
  · left
    have hall := hv.allocated_chunk hoffset ha
    rw [hchunk, ← haddress] at hall
    exact ⟨handle, next, hcall, hpos, hall⟩
  · right
    exact ⟨_, hcall⟩

theorem Valid.allocate_large {heap : Heap} (hv : heap.Valid) {size : Nat}
    (hlow : ChunkSize.greatest < size) (hhigh : (size : Int) ≤ greatestSize) :
    (∃ handle next, heap.blocks.allocate size = (.ok handle, next) ∧ 0 < handle.toInt ∧
        Allocated heap size handle.address { heap with blocks := next }) ∨
      ∃ e, heap.blocks.allocate size = (.error e, heap.blocks) := by
  rcases hv.blocks.allocate_cases size with
    ⟨identifier, next, hcall, hpos, hle, hfree, hnext, hr⟩ | hcall
  · left
    unfold BlockTable.greatestIdentifier at hle
    have hfit : identifier < 0x40000000 := by omega
    obtain ⟨hhandle, haddress⟩ :=
      Handle.address_ofBlock hfit (by decide : 0 < 0x100000000) (Or.inl hpos)
    have hall := hv.allocated_block hlow hhigh hfree hnext hr
    rw [← haddress] at hall
    exact ⟨_, next, hcall, hhandle, hall⟩
  · right
    exact ⟨_, hcall⟩

/-- **Allocation** answers the null handle for no bytes, hands out zeros, or changes nothing. -/
theorem Valid.allocate_cases {heap : Heap} (hv : heap.Valid) (size : Int) :
    (size = 0 ∧ heap.allocate size = (.ok Handle.null, heap)) ∨
      (∃ handle next, heap.allocate size = (.ok handle, next) ∧ 1 ≤ size ∧
        0 < handle.toInt ∧ Allocated heap size.toNat handle.address next) ∨
      ∃ e, heap.allocate size = (.error e, heap) := by
  unfold allocate
  by_cases hzero : size = 0
  · exact Or.inl ⟨hzero, if_pos hzero⟩
  right
  rw [if_neg hzero]
  by_cases hrange : size < 1 ∨ greatestSize < size
  · exact Or.inr ⟨_, if_pos hrange⟩
  rw [if_neg hrange]
  rw [not_or, Int.not_lt, Int.not_lt] at hrange
  obtain ⟨hlow, hhigh⟩ := hrange
  by_cases hsmall : size.toNat ≤ ChunkSize.greatest
  · rw [if_pos hsmall]
    have hleast : ChunkSize.least ≤ size.toNat := by
      unfold ChunkSize.least
      omega
    rcases hv.allocate_small ⟨hleast, hsmall⟩ with ⟨handle, next, hcall, hpos, ha⟩ | ⟨e, hcall⟩
    · exact Or.inl ⟨handle, _, by rw [hcall], hlow, hpos, ha⟩
    · exact Or.inr ⟨e, by rw [hcall]⟩
  · rw [if_neg hsmall]
    have hbound : (size.toNat : Int) ≤ greatestSize := by omega
    rcases hv.allocate_large (Nat.lt_of_not_le hsmall) hbound with
      ⟨handle, next, hcall, hpos, ha⟩ | ⟨e, hcall⟩
    · exact Or.inl ⟨handle, _, by rw [hcall], hlow, hpos, ha⟩
    · exact Or.inr ⟨e, by rw [hcall]⟩

theorem Valid.of_allocate {heap : Heap} (hv : heap.Valid) (size : Int) :
    (heap.allocate size).2.Valid := by
  rcases hv.allocate_cases size with ⟨-, hcall⟩ | ⟨handle, next, hcall, -, -, ha⟩ | ⟨e, hcall⟩
  · rw [hcall]; exact hv
  · rw [hcall]; exact ha.valid
  · rw [hcall]; exact hv

/-- A chunk given back to the pool is a release of the heap. -/
theorem Valid.freed_chunk {heap : Heap} (hv : heap.Valid) {a : ChunkAddress} {next : ChunkPool}
    (hoffset : a.slotOffset = 0) (h : ChunkPool.Freed heap.chunks a next) :
    Freed heap (.chunk a) { heap with chunks := next } := by
  have hstart := Address.start_eq_self_iff.mpr (show (Address.chunk a).inner = 0 from hoffset)
  refine ⟨⟨h.valid, hv.blocks, hv.block_size⟩, fun b => ?_, fun b => ?_⟩
  · rw [← hstart]
    rcases b with b | b
    · simp only [Address.start_chunk_eq_iff, sizeAt, h.isUsed_eq]
      by_cases hsame : b.SameSlot a
      · rw [if_pos hsame, if_pos hsame]
        rfl
      · rw [if_neg hsame, if_neg hsame]
    · rw [if_neg (fun heq => Address.start_chunk_ne_block heq.symm)]
      rfl
  · rw [← hstart]
    rcases b with b | b
    · simp only [Address.start_chunk_eq_iff]
      exact h.byteAt_eq b
    · rw [if_neg (fun heq => Address.start_chunk_ne_block heq.symm)]
      rfl

/-- A block given up by the table is a release of the heap. -/
theorem Valid.freed_block {heap : Heap} (hv : heap.Valid) {identifier : Nat} {next : BlockTable}
    (hnext : next.Valid) (h : heap.blocks.Replaced identifier none next) :
    Freed heap (.block ⟨identifier, 0⟩) { heap with blocks := next } := by
  refine ⟨⟨hv.chunks, hnext, fun i found hfound => ?_⟩, fun b => ?_, fun b => ?_⟩
  · rw [h] at hfound
    split at hfound
    · cases hfound
    · exact hv.block_size i found hfound
  · change _ = if b.start = (Address.block ⟨identifier, 0⟩).start then _ else _
    rcases b with b | b
    · rw [if_neg Address.start_chunk_ne_block]
      rfl
    · simp only [Address.start_block_eq_iff, sizeAt, h b.identifier]
      split <;> rfl
  · change _ = if b.start = (Address.block ⟨identifier, 0⟩).start then _ else _
    rcases b with b | b
    · rw [if_neg Address.start_chunk_ne_block]
      rfl
    · simp only [Address.start_block_eq_iff]
      change next.byteAt b = if _ then _ else heap.blocks.byteAt b
      unfold BlockTable.byteAt
      rw [h]
      split <;> rfl

/-- A handle whose address is not the start of a live allocation cannot be freed. -/
theorem Valid.free_eq_error {heap : Heap} (hv : heap.Valid) {handle : Handle}
    (hnull : handle ≠ Handle.null) (h : ∀ n, heap.sizeOf handle ≠ .ok n) :
    ∃ e, heap.free handle = .error e := by
  unfold free
  rw [if_neg hnull]
  rcases hgate : Address.ofHandle handle with e | a
  · exact ⟨e, rfl⟩
  obtain ⟨hpos, rfl⟩ := Address.ofHandle_eq_ok_iff.mp hgate
  have hfits := Handle.address_fits hpos
  have hdead : ∀ n, handle.address.inner = 0 → heap.sizeAt handle.address ≠ some n :=
    fun n hinner hsize => h n (sizeOf_eq_ok_iff.mpr ⟨hpos, hinner, hsize⟩)
  generalize handle.address = a at hfits hdead ⊢
  rcases a with a | a
  · by_cases hoffset : a.slotOffset = 0
    · rcases hv.chunks.free_cases handle hfits.1 hoffset with ⟨hused, -⟩ | ⟨-, hcall⟩
      · exact absurd (sizeAt_chunk_eq_some_iff.mpr ⟨hused, rfl⟩) (hdead _ hoffset)
      · simp only [hcall]
        exact ⟨_, rfl⟩
    · unfold ChunkPool.free
      simp only [if_pos hoffset]
      exact ⟨_, rfl⟩
  · by_cases hoffset : a.offset = 0
    · rcases hv.blocks.free_cases handle hoffset with ⟨buffer, _, hbuffer, -⟩ | ⟨-, hcall⟩
      · exact absurd (sizeAt_block_eq_some_iff.mpr ⟨buffer, hbuffer, rfl⟩) (hdead _ hoffset)
      · simp only [hcall]
        exact ⟨_, rfl⟩
    · unfold BlockTable.free
      simp only [if_pos hoffset]
      exact ⟨_, rfl⟩

/-- **Release** gives up a live allocation. -/
theorem Valid.exists_free {heap : Heap} (hv : heap.Valid) {handle : Handle} {n : Nat}
    (h : heap.sizeOf handle = .ok n) :
    ∃ next, heap.free handle = .ok next ∧ Freed heap handle.address next := by
  obtain ⟨hpos, hinner, hsize⟩ := sizeOf_eq_ok_iff.mp h
  have hfits := Handle.address_fits hpos
  unfold free
  rw [if_neg (Handle.ne_null_of_pos hpos), Address.ofHandle_of_pos hpos]
  generalize handle.address = a at hfits hinner hsize ⊢
  rcases a with a | ⟨identifier, offset⟩
  · rcases hv.chunks.free_cases handle hfits.1 hinner with ⟨-, next, hcall, hfreed⟩ | ⟨hfree, -⟩
    · exact ⟨{ heap with chunks := next }, by simp only [hcall]; rfl,
        hv.freed_chunk hinner hfreed⟩
    · rw [(sizeAt_chunk_eq_some_iff.mp hsize).1] at hfree
      cases hfree
  · have hoffset : offset = 0 := hinner
    subst hoffset
    obtain ⟨buffer, hbuffer, -⟩ := sizeAt_block_eq_some_iff.mp hsize
    have hzero : (⟨identifier, 0⟩ : BlockAddress).offset = 0 := rfl
    rcases hv.blocks.free_cases handle hzero with ⟨_, next, -, hcall, hnext, hr⟩ | ⟨hnone, -⟩
    · exact ⟨{ heap with blocks := next }, by simp only [hcall]; rfl, hv.freed_block hnext hr⟩
    · rw [hnone] at hbuffer
      cases hbuffer

end Heap

end HandleHeap
