import HandleHeap.Proofs.Actions
import HandleHeap.Proofs.BlockRuns
import HandleHeap.Proofs.Capacities

/-!
# Reports

What a heap reports of itself is what its calls and their answers tell: the numbers and bytes of
live chunks and blocks, a row for each chunk size of which an allocation was ever made, and for each
position of a chain the number of live chunks in its slab.

* `Session.Grants`, `Session.Makes`: calls and runs that make an allocation of a size;
* `Session.Sound.isSome_foldl_iff`: the size classes in use are those of the sizes that were made;
* `ChunkPool.sizes`, `ChunkPool.usage_eq`: the rows of a report, by chunk size;
* `Session.Sound.liveChunks_eq`, `Session.Sound.liveBlocks_eq`: the totals of both kinds of memory;
* `Session.Reported`, `Session.reported_after`: all that a report says, after every run of calls.
-/

namespace HandleHeap

/-! ### Size classes in use -/

namespace ChunkPool

section presence
variable {pool next : ChunkPool} {handle : Handle} {address : ChunkAddress}

/-- The release of a chunk needs its size class. -/
theorem isSome_sizeClass?_of_free (h : pool.free handle address = .ok next) (n : Nat) :
    (next.sizeClass? n).isSome = (pool.sizeClass? n).isSome := by
  rw [eq_of_free_eq_ok h, sizeClass?_setSizeClass]
  split
  · next heq =>
    subst heq
    unfold free at h
    split at h
    · cases h
    rcases hfound : pool.sizeClass? address.chunkSize with _ | found
    · simp only [hfound] at h
      cases h
    · rfl
  · rfl

/-- So does a write. -/
theorem isSome_sizeClass?_of_write {bytes : List UInt8}
    (h : pool.write handle address bytes = .ok next) (n : Nat) :
    (next.sizeClass? n).isSome = (pool.sizeClass? n).isSome := by
  unfold write at h
  rcases hslab : pool.slabFor handle address bytes.length with e | slab <;> rw [hslab] at h <;>
    cases h
  rw [sizeClass?_setSizeClass]
  split
  · next heq =>
    subst heq
    rcases hfound : pool.sizeClass? address.chunkSize with _ | found
    · rw [slabFor, liveSlab, hfound] at hslab
      split_ifs at hslab
      cases hslab
    · rfl
  · rfl

/-- An allocation makes the size class of its size, and no other. -/
theorem isSome_sizeClass?_of_allocate (pool : ChunkPool) (size n : Nat) :
    ((pool.allocate size).2.sizeClass? n).isSome = true ↔
      (pool.sizeClass? n).isSome = true ∨ ChunkSize.IsChunk size ∧ n = size := by
  rw [allocate_snd]
  by_cases hsize : ChunkSize.IsChunk size
  · rw [if_pos hsize, sizeClass?_setSizeClass]
    by_cases hn : n = size <;> simp [hn, hsize]
  · rw [if_neg hsize]
    simp [hsize]

/-- A size class stays in use. -/
theorem stable_isSome (n : Nat) : Stable fun pool => (pool.sizeClass? n).isSome = true := by
  refine ⟨fun pool size h => ?_, fun pool handle address next h hcall => ?_,
    fun pool handle address bytes next h hcall => ?_⟩
  · exact (isSome_sizeClass?_of_allocate pool size n).mpr (Or.inl h)
  · rw [isSome_sizeClass?_of_free hcall]
    exact h
  · rw [isSome_sizeClass?_of_write hcall]
    exact h

/-- It is missing as long as no allocation of its size is asked for. -/
theorem lasting_isNone (n : Nat) :
    Lasting (· ≠ n) fun pool => ¬ (pool.sizeClass? n).isSome = true := by
  refine ⟨fun pool size hne h => ?_, fun pool handle address next h hcall => ?_,
    fun pool handle address bytes next h hcall => ?_⟩
  · rw [isSome_sizeClass?_of_allocate]
    rintro (hsome | ⟨-, heq⟩)
    · exact h hsome
    · exact hne heq.symm
  · rw [isSome_sizeClass?_of_free hcall]
    exact h
  · rw [isSome_sizeClass?_of_write hcall]
    exact h

end presence

end ChunkPool

namespace Session

/-- The call is answered an allocation of the size. -/
def Grants (s : Session) (call : Call) (size : Nat) : Prop :=
  call.requested = some (size : Int) ∧ ∃ handle, (s.heap.call call).1 = .ok (some handle)

/-- A call of the run is. -/
def Makes (s : Session) (size : Nat) : List Call → Prop
  | [] => False
  | call :: calls => s.Grants call size ∨ (s.next call).Makes size calls

/-- A call that asks for an allocation and is not refused is answered a handle. -/
theorem exists_handle_of_requested {heap : Heap} {call : Call} {size : Int}
    {value : Option Handle} (h : call.requested = some size)
    (hanswer : (heap.call call).1 = .ok value) : ∃ handle, value = some handle := by
  cases call with
  | free | fill | store | copy | storeArray => cases h
  | allocate n =>
    change (heap.allocate n).1.map some = .ok value at hanswer
    rcases hallocate : (heap.allocate n).1 with e | handle <;> rw [hallocate] at hanswer
    · cases hanswer
    · exact ⟨handle, (Except.ok.inj hanswer).symm⟩
  | reallocate old n =>
    change (heap.reallocate old n).1.map some = .ok value at hanswer
    rcases hreallocate : (heap.reallocate old n).1 with e | handle <;> rw [hreallocate] at hanswer
    · cases hanswer
    · exact ⟨handle, (Except.ok.inj hanswer).symm⟩

section makes
variable {s : Session} (hs : s.Sound) {size : Nat} (hpos : 0 < size)
include hs hpos

theorem Sound.mem_live_allocate (h : s.Grants (.allocate size) size) :
    ∃ b ∈ (s.next (.allocate size)).live, b.size = size := by
  obtain ⟨-, handle, hanswer⟩ := h
  rcases hs.allocate_cases size with
    ⟨-, hzero, -⟩ | ⟨target, next, -, -, htarget, -, hnext⟩ | ⟨e, herror, -⟩
  · omega
  · rw [hnext]
    exact ⟨⟨target, (size : Int).toNat⟩,
      Allocation.mem_enter_iff.mpr (Or.inl ⟨Handle.ne_null_of_pos htarget, rfl⟩),
      Int.toNat_natCast size⟩
  · exact nomatch herror.symm.trans hanswer

/-- An allocation that was made is live. -/
theorem Sound.mem_live_of_grants {call : Call} (h : s.Grants call size) :
    ∃ b ∈ (s.next call).live, b.size = size := by
  obtain ⟨hrequested, handle, hanswer⟩ := h
  cases call with
  | free | fill | store | copy | storeArray => cases hrequested
  | allocate n =>
    cases hrequested
    exact hs.mem_live_allocate hpos ⟨rfl, handle, hanswer⟩
  | reallocate old n =>
    cases hrequested
    rcases hs.reallocate_cases old size with
      ⟨-, hsame, hnext⟩ | ⟨_, _, -, hzero, -⟩ | ⟨_, target, next, -, -, -, hmoved, hnext⟩ |
      ⟨e, herror, -⟩
    · rw [hnext]
      exact hs.mem_live_allocate hpos ⟨rfl, handle, hsame.symm.trans hanswer⟩
    · omega
    · obtain ⟨_, _, -, htarget, -⟩ := hmoved
      rw [hnext]
      exact ⟨⟨target, (size : Int).toNat⟩,
        Allocation.mem_enter_iff.mpr (Or.inl ⟨Handle.ne_null_of_pos htarget, rfl⟩),
        Int.toNat_natCast size⟩
    · exact nomatch herror.symm.trans hanswer

end makes

section presence
variable {s : Session} (hs : s.Sound) {size : Nat} (hsize : ChunkSize.IsChunk size)
include hs hsize

/-- What is live has its size class. -/
theorem Sound.isSome_of_mem_live {b : Allocation} (hb : b ∈ s.live ∧ b.size = size) :
    (s.heap.chunks.sizeClass? size).isSome = true := by
  obtain ⟨-, -, hused, hchunk⟩ := hs.chunk_of_mem hsize hb
  obtain ⟨found, -, hfound, -⟩ := ChunkPool.exists_slab_of_isUsed hused
  rw [← hchunk, hfound]
  rfl

/-- **A size class comes into use** with the first allocation of its size. -/
theorem Sound.isSome_next_iff (call : Call) :
    ((s.next call).heap.chunks.sizeClass? size).isSome = true ↔
      (s.heap.chunks.sizeClass? size).isSome = true ∨ s.Grants call size := by
  constructor
  · intro hsome
    by_contra hnot
    obtain ⟨habsent, hrefused⟩ := not_or.mp hnot
    rcases hanswer : (s.heap.call call).1 with e | value
    · rw [hs.next_eq_self hanswer] at hsome
      exact habsent hsome
    · refine (ChunkPool.lasting_isNone size).call habsent (fun n hrequested hlow heq => ?_) hsome
      -- what asks for a size is answered a handle, and then it has made an allocation of the size
      have hrequested' : call.requested = some (size : Int) := by rw [hrequested]; congr 1; omega
      refine hrefused ⟨hrequested', ?_⟩
      obtain ⟨handle, rfl⟩ := exists_handle_of_requested hrequested hanswer
      exact ⟨handle, hanswer⟩
  · rintro (hsome | hgrants)
    · exact (ChunkPool.stable_isSome size).call hsome call
    · obtain ⟨b, hb⟩ := hs.mem_live_of_grants hsize.1 hgrants
      exact (hs.next call).isSome_of_mem_live hsize hb

theorem Sound.isSome_foldl_iff (calls : List Call) :
    ((calls.foldl Session.next s).heap.chunks.sizeClass? size).isSome = true ↔
      (s.heap.chunks.sizeClass? size).isSome = true ∨ s.Makes size calls := by
  induction calls generalizing s with
  | nil => exact (or_iff_left id).symm
  | cons call calls ih =>
    rw [List.foldl_cons, ih (hs.next call), hs.isSome_next_iff hsize, Makes, or_assoc]

end presence

end Session

/-! ### Rows of a report -/

namespace ChunkPool

/-- The chunk sizes with a size class, smallest first. -/
def sizes (pool : ChunkPool) : List Nat := pool.classes.keys

theorem mem_sizes_iff (pool : ChunkPool) (n : Nat) :
    n ∈ pool.sizes ↔ (pool.sizeClass? n).isSome = true := by
  unfold sizes
  rw [Std.ExtTreeMap.mem_keys, Std.ExtTreeMap.mem_iff_isSome_getElem?]
  rfl

theorem pairwise_sizes (pool : ChunkPool) : pool.sizes.Pairwise (· < ·) :=
  pool.classes.ordered_keys.imp Nat.compare_eq_lt.mp

theorem nodup_sizes (pool : ChunkPool) : pool.sizes.Nodup :=
  pool.pairwise_sizes.imp Nat.ne_of_lt

/-- A report has one row for each size class. -/
theorem usage_eq (pool : ChunkPool) :
    pool.usage = pool.sizes.map fun size => (pool.sizeClass size).usage := by
  unfold usage sizes
  rw [← Std.ExtTreeMap.map_fst_toList_eq_keys, List.map_map]
  refine List.map_congr_left fun ⟨size, found⟩ hentry => ?_
  have hfound : pool.sizeClass? size = some found :=
    Std.ExtTreeMap.mem_toList_iff_getElem?_eq_some.mp hentry
  show found.usage = (pool.sizeClass size).usage
  rw [sizeClass_of_some hfound]

section rows
variable {pool : ChunkPool} (hv : pool.Valid)
include hv

theorem Valid.isChunk_of_mem_sizes {size : Nat} (h : size ∈ pool.sizes) :
    ChunkSize.IsChunk size := by
  obtain ⟨found, hfound⟩ := Option.isSome_iff_exists.mp ((mem_sizes_iff pool size).mp h)
  exact hv.isChunk size found hfound

theorem Valid.chunkSize_usage {size : Nat} (h : size ∈ pool.sizes) :
    (pool.sizeClass size).usage.chunkSize = size := by
  have hsize := hv.isChunk_of_mem_sizes h
  show ChunkSize.ofIndex (ChunkSize.toIndex (pool.sizeClass size).chunkSize) = size
  rw [(hv.serves size hsize).chunkSize_eq]
  exact (ofIndex_toIndex hsize).1

theorem Valid.map_chunkSize_usage : pool.usage.map (·.chunkSize) = pool.sizes := by
  rw [usage_eq, List.map_map]
  exact (List.map_congr_left fun size hsize => hv.chunkSize_usage hsize).trans (List.map_id _)

/-- The slots of the slabs are in use or free. -/
theorem Valid.freeSlots_usage {size : Nat} (h : size ∈ pool.sizes) :
    (pool.sizeClass size).usage.liveSlots + (pool.sizeClass size).usage.freeSlots
      = (pool.sizeClass size).usage.slabCount * (pool.sizeClass size).usage.slotCount :=
  Nat.add_sub_of_le
    (hv.serves size (hv.isChunk_of_mem_sizes h)).valid.liveSlots_le_totalSlots

end rows

end ChunkPool

/-! ### Totals of a report -/

namespace Session

/-- The live allocations that are chunks. -/
def chunks (s : Session) : List Allocation :=
  s.live.filter fun b => b.size ≤ ChunkSize.greatest

/-- The live allocations that are blocks. -/
def blocks (s : Session) : List Allocation :=
  s.live.filter fun b => ChunkSize.greatest < b.size

section totals
variable {s : Session} (hs : s.Sound)
include hs

theorem Sound.isChunk_of_mem {b : Allocation} (hb : b ∈ s.live)
    (hle : b.size ≤ ChunkSize.greatest) : ChunkSize.IsChunk b.size := by
  obtain ⟨hpos, -, hlive⟩ := Heap.sizeOf_eq_ok_iff.mp ((hs.mem_live_iff b).mp hb)
  have hfits := Handle.address_fits hpos
  have hchunk := (hs.valid.isChunk_iff_size hfits hlive).mpr hle
  rcases haddress : b.base.address with a | a <;> rw [haddress] at hfits hlive hchunk
  · rw [← (Heap.sizeAt_chunk_eq_some_iff.mp hlive).2]
    exact ChunkPool.isChunk_chunkSize hfits.1
  · cases hchunk

/-- A live allocation has a row unless it is a block. -/
theorem Sound.mem_sizes_iff {b : Allocation} (hb : b ∈ s.live) :
    b.size ∈ s.heap.chunks.sizes ↔ b.size ≤ ChunkSize.greatest := by
  constructor
  · intro hmem
    exact (hs.valid.chunks.isChunk_of_mem_sizes hmem).2
  · intro hle
    exact (ChunkPool.mem_sizes_iff _ _).mpr
      (hs.isSome_of_mem_live (hs.isChunk_of_mem hb hle) ⟨hb, rfl⟩)

theorem Sound.filter_mem_sizes : (s.live.filter fun b => b.size ∈ s.heap.chunks.sizes)
    = s.chunks :=
  List.filter_congr fun _ hb => decide_eq_decide.mpr (hs.mem_sizes_iff hb)

theorem Sound.liveSlots_usage {size : Nat} (h : size ∈ s.heap.chunks.sizes) :
    (s.heap.chunks.sizeClass size).usage.liveSlots = s.liveOf size :=
  (hs.liveOf_eq (hs.valid.chunks.isChunk_of_mem_sizes h)).symm

/-- **The rows count the live chunks**, each in the row of its size. -/
theorem Sound.liveChunks_eq : s.heap.usage.liveChunks = s.chunks.length := by
  have hrows : s.heap.usage.liveChunks
      = (s.heap.chunks.sizes.map fun size => s.liveOf size * 1).sum := by
    show (s.heap.chunks.usage.map (·.liveSlots)).sum = _
    rw [ChunkPool.usage_eq, List.map_map]
    refine congrArg List.sum (List.map_congr_left fun size hsize => ?_)
    rw [Nat.mul_one]
    exact hs.liveSlots_usage hsize
  have htotal := sum_countP_mul Allocation.size (fun _ => 1) s.live s.heap.chunks.nodup_sizes
  rw [hs.filter_mem_sizes] at htotal
  rw [hrows]
  refine htotal.trans ?_
  show (List.map _ _).sum = _
  simp

theorem Sound.liveChunkBytes_eq :
    s.heap.usage.liveChunkBytes = (s.chunks.map (·.size)).sum := by
  have hrows : s.heap.usage.liveChunkBytes
      = (s.heap.chunks.sizes.map fun size => s.liveOf size * size).sum := by
    show (s.heap.chunks.usage.map fun row => row.liveSlots * row.chunkSize).sum = _
    rw [ChunkPool.usage_eq, List.map_map]
    refine congrArg List.sum (List.map_congr_left fun size hsize => ?_)
    show (s.heap.chunks.sizeClass size).usage.liveSlots
      * (s.heap.chunks.sizeClass size).usage.chunkSize = _
    rw [hs.liveSlots_usage hsize, hs.valid.chunks.chunkSize_usage hsize]
  have htotal := sum_countP_mul Allocation.size id s.live s.heap.chunks.nodup_sizes
  rw [hs.filter_mem_sizes] at htotal
  rw [hrows]
  exact htotal

/-- A live block is a buffer of the table. -/
theorem Sound.block_of_mem {b : Allocation} (hb : b ∈ s.blocks) :
    b.base.address = .block ⟨b.base.identifier, 0⟩ ∧ ∃ buffer,
      s.heap.blocks.buffer? b.base.identifier = some buffer ∧ buffer.size = b.size := by
  unfold blocks at hb
  rw [List.mem_filter, decide_eq_true_iff] at hb
  obtain ⟨hmem, hlarge⟩ := hb
  obtain ⟨hpos, hinner, hlive⟩ := Heap.sizeOf_eq_ok_iff.mp ((hs.mem_live_iff b).mp hmem)
  have hchunk := hs.valid.isChunk_iff_size (Handle.address_fits hpos) hlive
  rcases haddress : b.base.address with a | ⟨identifier, offset⟩ <;>
    rw [haddress] at hinner hlive hchunk
  · exact absurd (hchunk.mp rfl) (Nat.not_le.mpr hlarge)
  · have hfields := Handle.eq_of_address_eq_block haddress
    rw [BlockAddress.mk.injEq] at hfields
    obtain rfl : offset = 0 := hinner
    rw [hfields.1]
    exact ⟨rfl, Heap.sizeAt_block_eq_some_iff.mp hlive⟩

theorem Sound.nodup_identifiers : (s.blocks.map (·.base.identifier)).Nodup := by
  refine (hs.nodup.of_map.filter _).map_on fun b hb c hc heq => ?_
  have hblive := (List.mem_filter.mp hb).1
  have hclive := (List.mem_filter.mp hc).1
  have hbase := Handle.eq_of_address_eq (Heap.pos_of_sizeOf ((hs.mem_live_iff b).mp hblive))
    (Heap.pos_of_sizeOf ((hs.mem_live_iff c).mp hclive))
    (by rw [(hs.block_of_mem hb).1, (hs.block_of_mem hc).1, heq])
  exact List.inj_on_of_nodup_map hs.nodup hblive hclive hbase

theorem Sound.mem_identifiers_iff (i : Nat) : i ∈ s.blocks.map (·.base.identifier) ↔
    (s.heap.blocks.buffer? i).isSome = true := by
  rw [List.mem_map]
  constructor
  · rintro ⟨b, hb, rfl⟩
    obtain ⟨-, buffer, hbuffer, -⟩ := hs.block_of_mem hb
    rw [hbuffer]
    rfl
  · intro hsome
    obtain ⟨buffer, hbuffer⟩ := Option.isSome_iff_exists.mp hsome
    obtain ⟨index, rfl, hlt, -⟩ := BlockTable.exists_index hbuffer
    have hle := hs.valid.blocks.length_le
    unfold BlockTable.greatestIdentifier at hle
    have hfit : index + 1 < 0x40000000 := by omega
    obtain ⟨hpos, haddress⟩ :=
      Handle.address_ofBlock hfit (by decide : 0 < 0x100000000) (Or.inl (Nat.succ_pos index))
    have hlive : s.heap.sizeOf (Handle.ofBlock (index + 1) 0) = .ok buffer.size := by
      refine Heap.sizeOf_eq_ok_iff.mpr ⟨hpos, by rw [haddress]; rfl, ?_⟩
      rw [haddress]
      exact Heap.sizeAt_block_eq_some_iff.mpr ⟨buffer, hbuffer, rfl⟩
    refine ⟨⟨Handle.ofBlock (index + 1) 0, buffer.size⟩, ?_, ?_⟩
    · unfold blocks
      rw [List.mem_filter, decide_eq_true_iff]
      exact ⟨(hs.mem_live_iff _).mpr hlive, (hs.valid.block_size _ _ hbuffer).1⟩
    · exact congrArg BlockAddress.identifier (Handle.eq_of_address_eq_block haddress)

/-- **The table counts the live blocks.** -/
theorem Sound.liveBlocks_eq : s.heap.usage.liveBlocks = s.blocks.length := by
  have hcount := hs.valid.blocks.length_eq_liveCount hs.nodup_identifiers hs.mem_identifiers_iff
  rw [List.length_map] at hcount
  exact hcount.symm

theorem Sound.liveBlockBytes_eq :
    s.heap.usage.liveBlockBytes = (s.blocks.map (·.size)).sum := by
  refine (BlockTable.liveBytes_eq_total hs.nodup_identifiers hs.mem_identifiers_iff).trans ?_
  rw [List.map_map]
  refine congrArg List.sum (List.map_congr_left fun b hb => ?_)
  obtain ⟨-, buffer, hbuffer, hsize⟩ := hs.block_of_mem hb
  show ((s.heap.blocks.buffer? b.base.identifier).map (·.size)).getD 0 = b.size
  rw [hbuffer]
  exact hsize

/-- **The live chunks in one slab** are as many as its counter tells. -/
theorem Sound.countP_eq_liveAt {size : Nat} (hsize : ChunkSize.IsChunk size) (chainIndex : Nat) :
    s.live.countP (fun b => b.size = size ∧ b.base.chainIndex = chainIndex)
      = (s.heap.chunks.sizeClass size).liveAt chainIndex := by
  rw [← hs.valid.chunks.countP_eq_liveAt hsize (hs.nodup_chunksOf hsize)
    (hs.mem_chunksOf_iff hsize), chunksOf, List.countP_map, List.countP_filter]
  refine List.countP_congr fun b _ => ?_
  simp [Handle.chunk, and_comm]

end totals

/-! ### Reports after a run -/

/-- What a session reports, where some sizes have been made: how many chunks and blocks are live and
how many bytes they have; for each chunk size that was made, and no other, a row with its live
chunks, which with the free slots are all slots of its slabs; and at each position of a chain the
live chunks whose handles name it. -/
structure Reported (s : Session) (made : Nat → Prop) : Prop where
  liveChunks_eq : s.heap.usage.liveChunks = s.chunks.length
  liveChunkBytes_eq : s.heap.usage.liveChunkBytes = (s.chunks.map (·.size)).sum
  liveBlocks_eq : s.heap.usage.liveBlocks = s.blocks.length
  liveBlockBytes_eq : s.heap.usage.liveBlockBytes = (s.blocks.map (·.size)).sum
  ascending : (s.heap.usage.classes.map (·.chunkSize)).Pairwise (· < ·)
  mem_classes_iff : ∀ n, n ∈ s.heap.usage.classes.map (·.chunkSize) ↔
    ChunkSize.IsChunk n ∧ made n
  liveSlots_eq : ∀ row ∈ s.heap.usage.classes, row.liveSlots = s.liveOf row.chunkSize
  freeSlots_eq : ∀ row ∈ s.heap.usage.classes,
    row.liveSlots + row.freeSlots = row.slabCount * row.slotCount
  occupancyAt?_eq_some_iff : ∀ n chainIndex count,
    s.heap.occupancyAt? n chainIndex = some count ↔ ChunkSize.IsChunk n ∧ made n ∧
      s.live.countP (fun b => b.size = n ∧ b.base.chainIndex = chainIndex) = count
  liveOf_eq_zero : ∀ n, ChunkSize.IsChunk n → ¬ made n → s.liveOf n = 0

section reported
variable {s : Session} (hs : s.Sound) {made : Nat → Prop}
  (hmade : ∀ n, ChunkSize.IsChunk n → ((s.heap.chunks.sizeClass? n).isSome = true ↔ made n))
include hs hmade

theorem Sound.isSome_iff (n : Nat) :
    (s.heap.chunks.sizeClass? n).isSome = true ↔ ChunkSize.IsChunk n ∧ made n := by
  constructor
  · intro hsome
    obtain ⟨found, hfound⟩ := Option.isSome_iff_exists.mp hsome
    have hsize := hs.valid.chunks.isChunk n found hfound
    exact ⟨hsize, (hmade n hsize).mp hsome⟩
  · rintro ⟨hsize, h⟩
    exact (hmade n hsize).mpr h

theorem Sound.occupancyAt?_eq_some_iff (n chainIndex count : Nat) :
    s.heap.occupancyAt? n chainIndex = some count ↔ ChunkSize.IsChunk n ∧ made n ∧
      s.live.countP (fun b => b.size = n ∧ b.base.chainIndex = chainIndex) = count := by
  rw [← and_assoc, ← hs.isSome_iff hmade]
  unfold Heap.occupancyAt?
  rcases hfound : s.heap.chunks.sizeClass? n with _ | found
  · simp
  · rw [hs.countP_eq_liveAt (hs.valid.chunks.isChunk n found hfound),
      ChunkPool.sizeClass_of_some hfound]
    simp

theorem Sound.reported : s.Reported made := by
  have hrows : s.heap.usage.classes.map (·.chunkSize) = s.heap.chunks.sizes :=
    hs.valid.chunks.map_chunkSize_usage
  have hrow : ∀ row ∈ s.heap.usage.classes, ∃ size ∈ s.heap.chunks.sizes,
      (s.heap.chunks.sizeClass size).usage = row := by
    intro row hmem
    have hmem' : row ∈ s.heap.chunks.usage := hmem
    rwa [ChunkPool.usage_eq, List.mem_map] at hmem'
  refine ⟨hs.liveChunks_eq, hs.liveChunkBytes_eq, hs.liveBlocks_eq, hs.liveBlockBytes_eq,
    ?_, fun n => ?_, fun row hmem => ?_, fun row hmem => ?_, hs.occupancyAt?_eq_some_iff hmade,
    fun n hsize hnot => ?_⟩
  · rw [hrows]
    exact s.heap.chunks.pairwise_sizes
  · rw [hrows, ChunkPool.mem_sizes_iff]
    exact hs.isSome_iff hmade n
  · obtain ⟨size, hsize, rfl⟩ := hrow row hmem
    rw [hs.valid.chunks.chunkSize_usage hsize]
    exact hs.liveSlots_usage hsize
  · obtain ⟨size, hsize, rfl⟩ := hrow row hmem
    exact hs.valid.chunks.freeSlots_usage hsize
  · refine List.countP_eq_zero.mpr fun b hb heq => hnot ?_
    exact (hmade n hsize).mp (hs.isSome_of_mem_live hsize ⟨hb, of_decide_eq_true heq⟩)

end reported

/-- **Reports are exact.**  After any calls, granted or refused, what a heap reports is what the
calls and their answers tell. -/
theorem reported_after {settings : Settings} (h : settings.validate = .ok ()) (calls : List Call) :
    (after settings calls).Reported fun size => (start settings).Makes size calls := by
  refine (sound_after h calls).reported fun n hsize => ?_
  have hnone : ¬ ((start settings).heap.chunks.sizeClass? n).isSome = true := by
    simp [start, Heap.fresh, ChunkPool.fresh, ChunkPool.sizeClass?]
  unfold after
  rw [(sound_start h).isSome_foldl_iff hsize, or_iff_right hnone]

/-- A run with a chunk that is moved to a block, a chunk that is given back and a call that is
refused. -/
def moving : List Call :=
  [.allocate 16, .allocate 40, .reallocate (.ofSlot 15 0 0) 3000, .allocate 40,
    .free (.ofSlot 39 0 0), .free (.ofSlot 39 0 0), .allocate 2000]

/-- Both sizes have a row, the one without live chunks too. -/
theorem reported_after_moving :
    (after {} moving).heap.usage.classes.map (fun row => (row.chunkSize, row.liveSlots))
        = [(16, 0), (40, 1)] ∧
      (after {} moving).heap.usage.liveBlockBytes = 5000 ∧
      (after {} moving).Reported fun size => (start {}).Makes size moving :=
  ⟨by decide +kernel, by decide +kernel, reported_after rfl moving⟩

end Session

end HandleHeap
