import HandleHeap.Proofs.Reports

/-!
# Stocks

A heap of which pieces of one size are asked for, and nothing else.  What it reports depends on two
numbers, the most pieces that were ever live at once and the pieces that are live now.  Chunks and
blocks keep the first number in different places: in the length of the chain and its slabs, and in
the length of the table.

* `SizeClass.Packed.serve_free_same`, `SizeClass.Packed.of_occupancy`: releases and writes leave a
  size class as it was packed;
* `ChunkPool.Stocked`, `ChunkPool.lasting_stocked`: a pool with at most the size class of the
  pieces, packed, and that releases and writes keep it so;
* `Session.Stocked`, `Session.Stocked.next`: the same for a session; `Session.Stocked.next_allocate`
  adds a piece to it, and `Session.Stocked.allocate_limit_block` tells when a block is refused;
* `Usage.ofPieces`, `Session.Stocked.usage_eq`: what such a heap reports.
-/

namespace HandleHeap

/-! ### Size classes -/

namespace SizeClass

variable {sizeClass next : SizeClass} {increment peak : Nat}

/-- A release does not change what a peak demands. -/
theorem Packed.serve_free_same (hp : sizeClass.Packed increment peak) (handle : Handle)
    (position slot : Nat) :
    (sizeClass.serve (.free handle position slot)).Packed increment peak := by
  rcases hp.valid.serve_free handle position slot with h | hsame
  · have hlive := h.liveSlots_eq hp.valid
    have hpeak := hp.liveSlots_le
    have hpacked := hp.emptied h
    rwa [Nat.max_eq_left (by omega)] at hpacked
  · rw [hsame]
    exact hp

theorem isSome_slab?_of_occupancy (h : next.occupancy = sizeClass.occupancy) (i : Nat) :
    (next.slab? i).isSome = (sizeClass.slab? i).isSome := by
  have hflags : ∀ c : SizeClass, ((c.occupancy.2)[i]?.join).isSome = (c.slab? i).isSome := by
    intro c
    unfold occupancy slab?
    rw [Array.getElem?_map]
    rcases c.slabs[i]? with _ | _ | slab <;> rfl
  rw [← hflags next, ← hflags sizeClass, h]

theorem length_of_occupancy (h : next.occupancy = sizeClass.occupancy) :
    next.length = sizeClass.length := by
  have hsize : ∀ c : SizeClass, c.occupancy.2.size = c.length := fun c => Array.size_map
  rw [← hsize next, ← hsize sizeClass, h]

/-- How a size class is packed shows in its counters and flags. -/
theorem Packed.of_occupancy (hp : sizeClass.Packed increment peak) (hv : next.Valid)
    (hslots : next.slotCount = sizeClass.slotCount)
    (h : next.occupancy = sizeClass.occupancy) : next.Packed increment peak := by
  have hcounters : next.counters = sizeClass.counters := congrArg Prod.fst h
  refine ⟨hv, hp.increment_pos, ?_, fun i => ?_, ?_⟩
  · unfold liveSlots
    rw [hcounters]
    exact hp.liveSlots_le
  · rw [isSome_slab?_of_occupancy h, hslots]
    exact hp.compact i
  · rw [length_of_occupancy h, hslots]
    exact hp.length_eq

end SizeClass

/-! ### Pools -/

namespace ChunkPool

/-- A pool that was asked for chunks of one size only, of which `peak` were live at once at most. -/
structure Stocked (pool : ChunkPool) (settings : Settings) (size peak : Nat) : Prop where
  valid : pool.Valid
  under : pool.Under settings
  isSome_iff : ∀ n, (pool.sizeClass? n).isSome = true ↔
    ChunkSize.IsChunk size ∧ 0 < peak ∧ n = size
  packed : ChunkSize.IsChunk size → (pool.sizeClass size).Packed settings.chainIncrement peak

theorem stocked_fresh {settings : Settings} (h : settings.validate = .ok ()) (size : Nat) :
    (fresh settings).Stocked settings size 0 := by
  have hnone : ∀ n, (fresh settings).sizeClass? n = none := by
    simp [sizeClass?, fresh]
  have hv := valid_fresh h
  refine ⟨hv, under_fresh settings, fun n => ?_, fun hsize => ?_⟩
  · simp [hnone]
  · have hcapacity := Slab.capacity_pos hsize.1 settings.slabBufferSize
    unfold sizeClass
    rw [hnone, Option.getD_none]
    exact SizeClass.packed_fresh hsize.1 hcapacity (Slab.capacity_le hsize.1 _) hv.increment_pos

section occupancy
variable {pool next : ChunkPool} {settings : Settings} (hu : pool.Under settings)
  (hu' : next.Under settings)
include hu hu'

/-- Pools that agree on their counters and flags do so for size classes yet to be made. -/
theorem occupancy_sizeClass (h : next.occupancy = pool.occupancy) (size : Nat) :
    (next.sizeClass size).occupancy = (pool.sizeClass size).occupancy := by
  have hsize : (next.sizeClass? size).map SizeClass.occupancy
      = (pool.sizeClass? size).map SizeClass.occupancy := congrFun h size
  unfold sizeClass
  rw [hu.slabBufferSize_eq, hu'.slabBufferSize_eq, hu.chainIncrement_eq, hu'.chainIncrement_eq]
  rw [← Option.getD_map SizeClass.occupancy, hsize, Option.getD_map]

end occupancy

section stocked
variable {pool next : ChunkPool} {settings : Settings} {size peak : Nat}
  (h : pool.Stocked settings size peak)
include h

/-- A release leaves the pool stocked as it was. -/
theorem Stocked.of_free {handle : Handle} {address : ChunkAddress}
    (hcall : pool.free handle address = .ok next) : next.Stocked settings size peak := by
  obtain ⟨-, -, hfreed⟩ := h.valid.freed_of_free_eq_ok hcall
  refine ⟨hfreed.valid, ?_, fun n => ?_, fun hsize => ?_⟩
  · rw [eq_of_free_eq_ok hcall]
    exact h.under.setSizeClass _ _
  · rw [isSome_sizeClass?_of_free hcall]
    exact h.isSome_iff n
  · rw [eq_of_free_eq_ok hcall, sizeClass_setSizeClass]
    split
    · next heq =>
      rw [← heq]
      exact (h.packed hsize).serve_free_same _ _ _
    · exact h.packed hsize

/-- So does a write. -/
theorem Stocked.of_write {handle : Handle} {address : ChunkAddress} {bytes : List UInt8}
    (hcall : pool.write handle address bytes = .ok next) : next.Stocked settings size peak := by
  have hw := h.valid.written_of_write_eq_ok hcall
  have hu := h.under.of_write hcall
  refine ⟨hw.valid, hu, fun n => ?_, fun hsize => ?_⟩
  · rw [isSome_sizeClass?_of_write hcall]
    exact h.isSome_iff n
  · have hserves := h.valid.serves size hsize
    have hserves' := hw.valid.serves size hsize
    refine (h.packed hsize).of_occupancy hserves'.valid ?_
      (occupancy_sizeClass h.under hu hw.occupancy_eq size)
    rw [hserves'.slotCount_eq, hserves.slotCount_eq, hu.slabBufferSize_eq,
      h.under.slabBufferSize_eq]

/-- An allocation counts with what is live after it. -/
theorem Stocked.of_allocate (hsize : ChunkSize.IsChunk size) :
    (pool.allocate size).2.Stocked settings size
      (max peak ((pool.allocate size).2.sizeClass size).liveSlots) := by
  have hvalid : (pool.allocate size).2.Valid := by
    rcases h.valid.allocate_cases hsize with ⟨_, _, next, hcall, -, -, ha⟩ | hcall <;> rw [hcall]
    · exact ha.valid
    · exact h.valid
  have hclass : (pool.allocate size).2.sizeClass size
      = (pool.sizeClass size).serve (.allocate settings.chainIncrement pool.maxChainLength) := by
    rw [allocate_snd, if_pos hsize, sizeClass_setSizeClass, if_pos rfl, h.under.chainIncrement_eq]
  obtain ⟨hpacked, hlive⟩ := (h.packed hsize).serve_allocate pool.maxChainLength
  rw [← hclass] at hpacked hlive
  refine ⟨hvalid, ?_, fun n => ?_, fun _ => hpacked⟩
  · rw [allocate_snd, if_pos hsize]
    exact h.under.setSizeClass _ _
  · rw [isSome_sizeClass?_of_allocate, h.isSome_iff]
    have hpos := Nat.lt_of_lt_of_le hlive (Nat.le_max_right peak _)
    simp only [hsize, hpos, true_and]
    exact or_iff_right_of_imp fun hold => hold.2

/-- Without chunks of the size, a pool does not tell how many there were. -/
theorem Stocked.of_not_isChunk (hsize : ¬ ChunkSize.IsChunk size) (other : Nat) :
    pool.Stocked settings size other :=
  ⟨h.valid, h.under, fun n => by simp [h.isSome_iff, hsize], fun hchunk => absurd hchunk hsize⟩

end stocked

/-- **Releases and writes leave a pool stocked as it was.** -/
theorem lasting_stocked (settings : Settings) (size peak : Nat) :
    Lasting (fun _ => False) (·.Stocked settings size peak) :=
  ⟨fun _ _ => False.elim, fun _ _ _ _ h => h.of_free, fun _ _ _ _ _ h => h.of_write⟩

end ChunkPool

/-! ### Block tables -/

namespace BlockTable

variable {table next : BlockTable} {handle : Handle} {address : BlockAddress}

theorem length_of_free (h : table.free handle address = .ok next) :
    next.length = table.length := by
  unfold free at h
  split at h
  · cases h
  rcases hindex : indexOf? address.identifier with _ | index <;> simp only [hindex] at h
  · cases h
  split at h <;> cases h
  exact Array.size_setIfInBounds

theorem length_of_write {bytes : List UInt8} (h : table.write handle address bytes = .ok next) :
    next.length = table.length := by
  unfold write at h
  rcases hbuffer : table.bufferFor handle address bytes.length with e | buffer <;>
    rw [hbuffer] at h <;> cases h
  exact Array.size_setIfInBounds

end BlockTable

/-! ### Heaps -/

namespace Heap

variable {heap next : Heap} {handle : Handle}

theorem length_blocks_of_free (h : heap.free handle = .ok next) :
    next.blocks.length = heap.blocks.length := by
  unfold free at h
  split at h
  · cases h
    rfl
  rcases hgate : Address.ofHandle handle with e | a | a <;> simp only [hgate] at h
  · cases h
  · rcases hcall : heap.chunks.free handle a with e | chunks <;> rw [hcall] at h <;> cases h
    rfl
  · rcases hcall : heap.blocks.free handle a with e | blocks <;> rw [hcall] at h <;> cases h
    exact BlockTable.length_of_free hcall

theorem length_blocks_of_write {bytes : List UInt8} (h : heap.write handle bytes = .ok next) :
    next.blocks.length = heap.blocks.length := by
  unfold write at h
  rcases hgate : Address.ofHandle handle with e | a | a <;> simp only [hgate] at h
  · cases h
  · rcases hcall : heap.chunks.write handle a bytes with e | chunks <;> rw [hcall] at h <;> cases h
    rfl
  · rcases hcall : heap.blocks.write handle a bytes with e | blocks <;> rw [hcall] at h <;> cases h
    exact BlockTable.length_of_write hcall

theorem length_blocks_settle {outcome : Except HeapError Heap}
    (h : ∀ next, outcome = .ok next → next.blocks.length = heap.blocks.length) :
    (heap.settle outcome).2.blocks.length = heap.blocks.length := by
  rcases outcome with e | next
  · rfl
  · exact h next rfl

/-- A table becomes longer for allocations only. -/
theorem length_blocks_call {call : Call} (h : call.requested = none) :
    (heap.call call).2.blocks.length = heap.blocks.length := by
  rcases hwrite : call.isWrite
  · cases call with
    | fill | store | copy | storeArray => cases hwrite
    | allocate | reallocate => cases h
    | free handle => exact length_blocks_settle fun next => length_blocks_of_free
  · rcases heap.call_cases_of_isWrite hwrite with ⟨target, bytes, -, hcall⟩ | ⟨e, hcall⟩ <;>
      rw [hcall]
    exact length_blocks_settle fun next => length_blocks_of_write

theorem allocate_block (heap : Heap) {size : Nat} (hlow : ChunkSize.greatest < size)
    (hhigh : (size : Int) ≤ greatestSize) : heap.allocate size =
      ((heap.blocks.allocate size).1, { heap with blocks := (heap.blocks.allocate size).2 }) := by
  unfold allocate
  rw [if_neg (by omega), if_neg (by omega), Int.toNat_natCast, if_neg (Nat.not_le.mpr hlow)]

theorem allocate_refused (heap : Heap) {size : Int} (h : size < 0 ∨ greatestSize < size) :
    heap.allocate size = (.error (.sizeOutOfRange size), heap) := by
  unfold greatestSize at h
  unfold allocate greatestSize
  rw [if_neg (by omega), if_pos (by omega)]

end Heap

/-! ### Sessions -/

namespace Session

/-- What is live after a call that asks for no allocation was live before. -/
theorem record_subset {call : Call} (h : call.requested = none) (live : List Allocation)
    (answer : Except HeapError (Option Handle)) : call.record live answer ⊆ live := by
  cases call with
  | allocate | reallocate => cases h
  | fill | store | copy | storeArray => exact List.Subset.refl live
  | free handle =>
    rcases answer with e | value
    · exact List.Subset.refl live
    · exact fun b hb => (Allocation.mem_strike_iff.mp hb).1

/-- A session with allocations of one size only, of which `peak` were live at once at most. -/
structure Stocked (s : Session) (settings : Settings) (size peak : Nat) : Prop where
  sound : s.Sound
  graduated : s.heap.chunks.Graduated settings
  chunks : s.heap.chunks.Stocked settings size peak
  length_blocks : s.heap.blocks.length = if ChunkSize.IsChunk size then 0 else peak
  size_eq : ∀ b ∈ s.live, b.size = size

theorem stocked_start {settings : Settings} (h : settings.validate = .ok ()) (size : Nat) :
    (start settings).Stocked settings size 0 := by
  refine ⟨sound_start h, ChunkPool.graduated_fresh settings, ChunkPool.stocked_fresh h size, ?_,
    nofun⟩
  exact (ite_self 0).symm

section stocked
variable {s : Session} {settings : Settings} {size peak : Nat}
  (h : s.Stocked settings size peak)
include h

/-- **Releases and writes leave a session stocked as it was.** -/
theorem Stocked.next {call : Call} (hcall : call.requested = none) :
    (s.next call).Stocked settings size peak := by
  refine ⟨h.sound.next call, (ChunkPool.stable_graduated settings).call h.graduated call, ?_, ?_,
    fun b hb => h.size_eq b (record_subset hcall _ _ hb)⟩
  · refine (ChunkPool.lasting_stocked settings size peak).call h.chunks fun n hn => ?_
    rw [hcall] at hn
    cases hn
  · exact (Heap.length_blocks_call hcall).trans h.length_blocks

/-- The live allocations are all chunks or all blocks. -/
theorem Stocked.chunks_eq : s.chunks = if ChunkSize.IsChunk size then s.live else [] := by
  unfold Session.chunks
  split
  · next hsize =>
    refine List.filter_eq_self.mpr fun b hb => ?_
    rw [h.size_eq b hb]
    exact decide_eq_true hsize.2
  · next hsize =>
    refine List.filter_eq_nil_iff.mpr fun b hb hle => hsize ?_
    rw [← h.size_eq b hb]
    exact h.sound.isChunk_of_mem hb (of_decide_eq_true hle)

theorem Stocked.blocks_eq : s.blocks = if ChunkSize.IsChunk size then [] else s.live := by
  unfold Session.blocks
  split
  · next hsize =>
    refine List.filter_eq_nil_iff.mpr fun b hb hlt => ?_
    rw [h.size_eq b hb] at hlt
    exact Nat.not_lt.mpr hsize.2 (of_decide_eq_true hlt)
  · next hsize =>
    refine List.filter_eq_self.mpr fun b hb => decide_eq_true (Nat.not_le.mp fun hle => hsize ?_)
    rw [← h.size_eq b hb]
    exact h.sound.isChunk_of_mem hb hle

theorem Stocked.liveOf_eq : s.liveOf size = s.live.length :=
  List.countP_eq_length.mpr fun b hb => decide_eq_true (h.size_eq b hb)

theorem Stocked.liveSlots_eq (hsize : ChunkSize.IsChunk size) :
    (s.heap.chunks.sizeClass size).liveSlots = s.live.length := by
  rw [← h.sound.liveOf_eq hsize, h.liveOf_eq]

theorem Stocked.liveCount_eq (hsize : ¬ ChunkSize.IsChunk size) :
    s.heap.blocks.length - s.heap.blocks.spare.length = s.live.length := by
  have hblocks := h.blocks_eq
  rw [if_neg hsize] at hblocks
  rw [← hblocks]
  exact h.sound.liveBlocks_eq

theorem Stocked.length_live_le : s.live.length ≤ peak := by
  by_cases hsize : ChunkSize.IsChunk size
  · rw [← h.liveSlots_eq hsize]
    exact (h.chunks.packed hsize).liveSlots_le
  · have hlength := h.length_blocks
    rw [if_neg hsize] at hlength
    have hlive := h.liveCount_eq hsize
    omega

/-- Nothing that is live has no bytes. -/
theorem Stocked.live_eq_nil (hzero : size = 0) : s.live = [] := by
  refine List.eq_nil_iff_forall_not_mem.mpr fun b hb => ?_
  have hb_size := h.size_eq b hb
  have hchunk := h.sound.isChunk_of_mem hb (by rw [hb_size, hzero]; exact Nat.zero_le _)
  rw [hb_size, hzero] at hchunk
  exact absurd hchunk (by decide)

/-- With all pieces live, the table has no index to spare. -/
theorem Stocked.spare_eq_nil (hfull : s.live.length = peak) (hsize : ¬ ChunkSize.IsChunk size) :
    s.heap.blocks.spare = [] := by
  have hlength := h.length_blocks
  rw [if_neg hsize] at hlength
  have hlive := h.liveCount_eq hsize
  have hspare := h.sound.valid.blocks.length_spare_le
  exact List.eq_nil_of_length_eq_zero (by omega)

end stocked

section allocate
variable {s : Session} {settings : Settings} {size : Nat} {handle : Handle}
  (h : s.Stocked settings size s.live.length)
  (hok : (s.heap.call (.allocate size)).1 = .ok (some handle))
include h hok

theorem Stocked.live_allocate (hpos : 0 < size) :
    (s.next (.allocate size)).live = ⟨handle, size⟩ :: s.live := by
  rcases h.sound.allocate_cases size with
    ⟨-, hzero, -⟩ | ⟨other, next, hanswer, -, hother, -, hnext⟩ | ⟨e, herror, -⟩
  · omega
  · rw [hok] at hanswer
    cases hanswer
    rw [hnext]
    exact if_neg (Handle.ne_null_of_pos hother)
  · rw [hok] at herror
    cases herror

theorem Stocked.chunks_allocate (hsize : ChunkSize.IsChunk size) :
    (s.next (.allocate size)).heap.chunks.Stocked settings size (s.live.length + 1) ∧
      (s.next (.allocate size)).heap.blocks.length = 0 := by
  have hlive := h.live_allocate hok hsize.1
  have hheap : (s.next (.allocate size)).heap
      = { s.heap with chunks := (s.heap.chunks.allocate size).2 } :=
    congrArg Prod.snd (s.heap.allocate_chunk hsize)
  have hcount : (s.next (.allocate size)).liveOf size = s.live.length + 1 := by
    rw [← h.liveOf_eq, liveOf, hlive]
    exact List.countP_cons_of_pos (decide_eq_true rfl)
  have hchunks := h.chunks.of_allocate hsize
  rw [(h.sound.next (.allocate size)).liveOf_eq hsize, hheap] at hcount
  rw [hcount, Nat.max_eq_right (Nat.le_succ _)] at hchunks
  have hblocks := h.length_blocks
  rw [if_pos hsize] at hblocks
  rw [hheap]
  exact ⟨hchunks, hblocks⟩

theorem Stocked.blocks_allocate (hpos : 0 < size) (hsize : ¬ ChunkSize.IsChunk size) :
    (s.next (.allocate size)).heap.chunks = s.heap.chunks ∧
      (s.next (.allocate size)).heap.blocks.length = s.live.length + 1 := by
  have hlow : ChunkSize.greatest < size := Nat.not_le.mp fun hle => hsize ⟨hpos, hle⟩
  have hhigh : (size : Int) ≤ Heap.greatestSize := by
    by_contra hbeyond
    have hrefused := s.heap.allocate_refused (Or.inr (Int.not_le.mp hbeyond))
    simp only [Heap.call, hrefused] at hok
    cases hok
  have hcall := s.heap.allocate_block hlow hhigh
  have hheap : (s.next (.allocate size)).heap
      = { s.heap with blocks := (s.heap.blocks.allocate size).2 } := congrArg Prod.snd hcall
  have hlength := h.length_blocks
  rw [if_neg hsize] at hlength
  rw [hheap]
  refine ⟨rfl, ?_⟩
  rcases h.sound.valid.blocks.allocate_made size with ⟨identifier, next, hmade, hm⟩ | hfull
  · rw [hmade]
    -- with every piece live no index is spare, so the table has to grow
    rcases hm.place with ⟨index, -, hspare, -⟩ | ⟨-, -, -, hnext⟩
    · rw [h.spare_eq_nil rfl hsize] at hspare
      cases hspare
    · rw [hnext, hlength]
  · simp only [Heap.call, hcall, hfull] at hok
    cases hok

/-- **An allocation counts** while all that was allocated is live. -/
theorem Stocked.next_allocate (hpos : 0 < size) :
    (s.next (.allocate size)).Stocked settings size (s.next (.allocate size)).live.length := by
  have hlive := h.live_allocate hok hpos
  have hsizes : ∀ b ∈ (s.next (.allocate size)).live, b.size = size := by
    rw [hlive]
    exact List.forall_mem_cons.mpr ⟨rfl, h.size_eq⟩
  have hs := h.sound.next (.allocate size)
  have hg := (ChunkPool.stable_graduated settings).call h.graduated (.allocate size)
  rw [show (s.next (.allocate size)).live.length = s.live.length + 1 from congrArg _ hlive]
  by_cases hsize : ChunkSize.IsChunk size
  · obtain ⟨hchunks, hblocks⟩ := h.chunks_allocate hok hsize
    exact ⟨hs, hg, hchunks, by rw [hblocks, if_pos hsize], hsizes⟩
  · obtain ⟨hchunks, hblocks⟩ := h.blocks_allocate hok hpos hsize
    refine ⟨hs, hg, ?_, by rw [hblocks, if_neg hsize], hsizes⟩
    rw [hchunks]
    exact h.chunks.of_not_isChunk hsize _

end allocate

/-- A block is refused when there are as many as the table has identifiers, and then only. -/
theorem Stocked.allocate_limit_block {s : Session} {settings : Settings} {size : Nat}
    (h : s.Stocked settings size s.live.length) (hlow : ChunkSize.greatest < size)
    (hhigh : (size : Int) ≤ Heap.greatestSize) :
    ((∃ handle, (s.heap.call (.allocate size)).1 = .ok (some handle)) ∧
        s.live.length < BlockTable.greatestIdentifier) ∨
      ((s.heap.call (.allocate size)).1 = .error (.tableFull BlockTable.greatestIdentifier) ∧
        s.live.length = BlockTable.greatestIdentifier) := by
  have hsize : ¬ ChunkSize.IsChunk size := fun hchunk => Nat.not_le.mpr hlow hchunk.2
  have hlength := h.length_blocks
  rw [if_neg hsize] at hlength
  have hcall := s.heap.allocate_block hlow hhigh
  have hle := h.sound.valid.blocks.length_le
  rw [← hlength]
  simp only [Heap.call, hcall, BlockTable.allocate, h.spare_eq_nil rfl hsize]
  split
  · next hlt => exact Or.inl ⟨⟨_, rfl⟩, hlt⟩
  · next hnot => exact Or.inr ⟨rfl, by omega⟩

end Session

/-! ### What is reported -/

/-- The counts of a heap that has held `peak` pieces of one size at once, and no other memory, and
holds `live` of them still. -/
def Usage.ofPieces (settings : Settings) (size peak live : Nat) : Usage :=
  if peak = 0 then
    { classes := [], liveChunks := 0, liveChunkBytes := 0, liveBlocks := 0, liveBlockBytes := 0
      tableLength := 0 }
  else if size ≤ ChunkSize.greatest then
    let slots := Slab.capacity size settings.slabBufferSize
    { classes := [
        { chunkSize := size
          slotCount := slots
          chainLength := settings.chainIncrement * (peak ⌈/⌉ (settings.chainIncrement * slots))
          slabCount := peak ⌈/⌉ slots
          liveSlots := live
          freeSlots := peak ⌈/⌉ slots * slots - live }]
      liveChunks := live
      liveChunkBytes := live * size
      liveBlocks := 0
      liveBlockBytes := 0
      tableLength := 0 }
  else
    { classes := [], liveChunks := 0, liveChunkBytes := 0, liveBlocks := live
      liveBlockBytes := live * size, tableLength := peak }

namespace Session

section reports
variable {s : Session} {settings : Settings} {size peak : Nat}
  (h : s.Stocked settings size peak)
include h

/-- A report has a row for the size of the chunks, once there was one. -/
theorem Stocked.sizes_eq : s.heap.chunks.sizes
    = if ChunkSize.IsChunk size ∧ 0 < peak then [size] else [] := by
  have hmem : ∀ n, n ∈ s.heap.chunks.sizes ↔ (ChunkSize.IsChunk size ∧ 0 < peak) ∧ n = size :=
    fun n => by rw [ChunkPool.mem_sizes_iff, h.chunks.isSome_iff, and_assoc]
  split
  · next hmade =>
    refine List.perm_singleton.mp ((List.perm_ext_iff_of_nodup s.heap.chunks.nodup_sizes
      (List.nodup_singleton size)).mpr fun n => ?_)
    rw [hmem, List.mem_singleton, and_iff_right hmade]
  · next hnone =>
    exact List.eq_nil_iff_forall_not_mem.mpr fun n hn => hnone ((hmem n).mp hn).1

/-- The row is told by the peak and what is live. -/
theorem Stocked.row_eq (hsize : ChunkSize.IsChunk size) (hpeak : 0 < peak) :
    (s.heap.chunks.sizeClass size).usage =
      { chunkSize := size
        slotCount := Slab.capacity size settings.slabBufferSize
        chainLength := settings.chainIncrement
          * (peak ⌈/⌉ (settings.chainIncrement * Slab.capacity size settings.slabBufferSize))
        slabCount := peak ⌈/⌉ Slab.capacity size settings.slabBufferSize
        liveSlots := s.live.length
        freeSlots := peak ⌈/⌉ Slab.capacity size settings.slabBufferSize
          * Slab.capacity size settings.slabBufferSize - s.live.length } := by
  have hserves := h.chunks.valid.serves size hsize
  have hpacked := h.chunks.packed hsize
  have hslots := hserves.slotCount_eq
  rw [h.chunks.under.slabBufferSize_eq] at hslots
  have hslabs := hpacked.compact.slabCount_eq
  have hlength := hpacked.length_eq
  rw [hslots] at hslabs hlength
  rw [Nat.max_eq_right hpeak] at hlength
  unfold SizeClass.usage SizeClass.freeSlots SizeClass.totalSlots SizeClass.index
  rw [hslots, hslabs, hlength, h.liveSlots_eq hsize, hserves.chunkSize_eq,
    (ChunkPool.ofIndex_toIndex hsize).1]

/-- **A report tells the peak and what is live**, and nothing else that has happened. -/
theorem Stocked.usage_eq (hzero : size = 0 → peak = 0) :
    s.heap.usage = Usage.ofPieces settings size peak s.live.length := by
  have hfields : s.heap.usage = { classes := s.heap.chunks.usage
                                  liveChunks := s.chunks.length
                                  liveChunkBytes := (s.chunks.map (·.size)).sum
                                  liveBlocks := s.blocks.length
                                  liveBlockBytes := (s.blocks.map (·.size)).sum
                                  tableLength := s.heap.blocks.length } := by
    rw [← h.sound.liveChunks_eq, ← h.sound.liveChunkBytes_eq, ← h.sound.liveBlocks_eq,
      ← h.sound.liveBlockBytes_eq]
    rfl
  have hbytes : (s.live.map (·.size)).sum = s.live.length * size := by
    rw [List.map_congr_left h.size_eq, List.map_const']
    exact List.sum_replicate_nat
  have hlive := h.length_live_le
  rw [hfields, ChunkPool.usage_eq, h.sizes_eq, h.chunks_eq, h.blocks_eq, h.length_blocks]
  unfold Usage.ofPieces
  by_cases hpeak : peak = 0
  · have hnil : s.live = [] := List.eq_nil_of_length_eq_zero (by omega)
    simp [hpeak, hnil]
  rw [if_neg hpeak]
  by_cases hsize : ChunkSize.IsChunk size
  · rw [if_pos ⟨hsize, Nat.pos_of_ne_zero hpeak⟩, if_pos hsize.2]
    simp only [if_pos hsize, hbytes, List.map_singleton,
      h.row_eq hsize (Nat.pos_of_ne_zero hpeak), List.map_nil, List.length_nil, List.sum_nil]
  · have hlarge : ¬ size ≤ ChunkSize.greatest := fun hle =>
      hsize ⟨Nat.pos_of_ne_zero fun hnone => hpeak (hzero hnone), hle⟩
    rw [if_neg fun hmade => hsize hmade.1, if_neg hlarge]
    simp only [if_neg hsize, hbytes, List.map_nil, List.length_nil, List.sum_nil]

end reports

end Session

end HandleHeap
