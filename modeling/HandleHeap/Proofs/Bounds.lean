import HandleHeap.Proofs.BlockRuns
import HandleHeap.Proofs.Guards
import HandleHeap.Proofs.Outcomes
import HandleHeap.Proofs.Reports

/-!
# Bounds

The guarded operations on slabs, chains, the pool and the block table have the answers of the plain
ones: what the invariants keep is enough for every index, range, counter and word.

* `Guarded.setEntry_of_lt`, `Guarded.overwrite_of_le`, `Guarded.word_of_lt`: what each guard asks
  for;
* `Slab.Valid.releaseGuarded_eq`: the bytes of a slot lie in its slab;
* `SizeClass.Valid.claimAtGuarded_eq`, `SizeClass.Valid.freeGuarded_eq`: a counter that leaves room
  can be raised, and one with a slot in use lowered;
* `ChunkPool.Valid.allocateGuarded_eq`: the place of a chunk fits its handle;
* `ChunkPool.Valid.room_of_slabFor`: a range inside a chunk lies in the buffer of its slab;
* `ChunkPool.Valid.row_le`: no count of a report comes near the size of a word.
-/

namespace HandleHeap

/-! ### What is in bounds -/

namespace Guarded

section bounds
variable {α β : Type} {array : Array α} {buffer : Buffer} {counter : UInt8}
  {index start length value limit whole part : Nat} {bytes : List UInt8}

theorem entry_of_lt (h : index < array.size) : entry array index = .ok array[index] := by
  unfold entry
  rw [Array.getElem?_eq_getElem h]

theorem setEntry_of_lt (h : index < array.size) (value : α) :
    setEntry array index value = .ok (array.setIfInBounds index value) := by
  unfold setEntry Array.setIfInBounds
  rw [dif_pos h, dif_pos h]

theorem slice_of_le (h : start + length ≤ buffer.size) :
    slice buffer start length = .ok (buffer.read start length) := if_pos h

theorem exactly_of_eq (h : bytes.length = length) : exactly length bytes = .ok bytes := if_pos h

theorem overwrite_of_le (hroom : start + length ≤ buffer.size) (hlength : bytes.length = length) :
    overwrite buffer start length bytes = .ok (buffer.put start bytes) := by
  unfold overwrite
  rw [if_pos hroom, exactly_of_eq hlength]
  rfl

theorem field_of_lt (h : value < limit) : field limit value = .ok value := if_pos h

theorem word_of_lt (h : value < 0x10000000000000000) : word value = .ok value := if_pos h

theorem difference_of_le (h : part ≤ whole) : difference whole part = .ok (whole - part) := if_pos h

theorem difference_succ (n : Nat) : difference (n + 1) 1 = .ok n :=
  difference_of_le (Nat.succ_pos n)

theorem raise_of_lt (h : counter.toNat < 127) : raise counter = .ok (counter + 1) :=
  if_pos (UInt8.lt_iff_toNat_lt.mpr h)

theorem lower_of_pos (h : 0 < counter.toNat) : lower counter = .ok (counter - 1) :=
  if_pos (UInt8.lt_iff_toNat_lt.mpr (show (0 : UInt8).toNat < counter.toNat from h))

end bounds

end Guarded

open Guarded

/-! ### Handles -/

namespace Handle

theorem ofSlotGuarded_eq {sizeIndex chainIndex slot : Nat} (hs : sizeIndex < 0x400)
    (hc : chainIndex < 0x100000) (hp : slot * (sizeIndex + 1) < 0x100000000) :
    ofSlotGuarded sizeIndex chainIndex slot = .ok (ofSlot sizeIndex chainIndex slot) := by
  unfold ofSlotGuarded
  rw [field_of_lt hs, ok_bind, field_of_lt hc, ok_bind, field_of_lt hp, ok_bind, pure_eq_ok,
    ofSlot_eq_ofWord hs hc hp]

theorem ofIndexGuarded_eq {index : Nat} (h : index < BlockTable.greatestIdentifier) :
    ofIndexGuarded index = .ok (ofBlock (index + 1) 0) := by
  unfold ofIndexGuarded
  rw [field_of_lt (Nat.succ_lt_succ h), ok_bind, pure_eq_ok, ofBlock, Nat.add_zero]

end Handle

/-! ### Slabs -/

namespace Slab

theorem freshGuarded_eq {chunkSize slotCount : Nat}
    (h : chunkSize * slotCount < 0x10000000000000000) :
    freshGuarded chunkSize slotCount = .ok (fresh chunkSize slotCount) := by
  unfold freshGuarded
  rw [word_of_lt h]
  rfl

theorem claimGuarded_eq (slab : Slab) : slab.claimGuarded = .ok slab.claim := by
  unfold claimGuarded claim
  rcases hfind : slab.used.findIdx? (· == false) with _ | slot
  · rfl
  · obtain ⟨hlt, -⟩ := Array.findIdx?_eq_some_iff_getElem.mp hfind
    simp only [setEntry_of_lt hlt]
    rfl

theorem Valid.releaseGuarded_eq {slab : Slab} {chunkSize slotCount : Nat}
    (hv : slab.Valid chunkSize slotCount) (hsize : slab.buffer.size < 0x10000000000000000)
    (slot : Nat) : slab.releaseGuarded slot = .ok (slab.release slot) := by
  unfold releaseGuarded release
  split
  · next hused =>
    have hroom := hv.slot_le_size hused
    rw [← hv.chunkSize_eq] at hroom
    rw [setEntry_of_lt (lt_of_isUsed hused), ok_bind, word_of_lt (by omega), ok_bind,
      word_of_lt (by omega), ok_bind, overwrite_of_le hroom List.length_replicate]
    rfl
  · rfl

end Slab

/-! ### Size classes -/

namespace SizeClass

section valid
variable {sizeClass : SizeClass} (hv : sizeClass.Valid)
include hv

theorem Valid.putGuarded_eq {position : Nat} (h : position < sizeClass.length) (slab : Slab)
    (counter : UInt8) : sizeClass.putGuarded position slab counter
      = .ok ((sizeClass.setSlab position slab).setCounter position counter) := by
  unfold putGuarded
  rw [setEntry_of_lt h, ok_bind, setEntry_of_lt (hv.lt_size_counters h)]
  rfl

variable (hsize : sizeClass.chunkSize ≤ ChunkSize.greatest)
include hsize

/-- A slab of 127 slots of 1024 bytes is the largest. -/
theorem Valid.bytes_lt : sizeClass.chunkSize * sizeClass.slotCount < 0x100000000 := by
  have hle := Nat.mul_le_mul hsize hv.slotCount_le
  unfold ChunkSize.greatest at hle
  omega

theorem Valid.slabGuarded_eq {position : Nat} (h : position < sizeClass.length) :
    sizeClass.slabGuarded position = .ok (sizeClass.slabOrFresh position) := by
  have hbytes := hv.bytes_lt hsize
  unfold slabGuarded slabOrFresh slab?
  rw [entry_of_lt h, ok_bind, Array.getElem?_eq_getElem h]
  rcases sizeClass.slabs[position] with _ | slab
  · exact Slab.freshGuarded_eq (by omega)
  · rfl

/-- A counter that leaves room may be raised. -/
theorem Valid.claimAtGuarded_eq {position : Nat} (h : position < sizeClass.length)
    (hroom : sizeClass.liveAt position < sizeClass.slotCount) :
    sizeClass.claimAtGuarded position = .ok (sizeClass.claimAt position) := by
  have hcounter := hv.lt_size_counters h
  have hcount := hv.slotCount_le
  rw [liveAt_of_lt hcounter] at hroom
  have hraise := raise_of_lt (by omega : sizeClass.counters[position].toNat < 127)
  unfold claimAtGuarded claimAt
  rw [hv.slabGuarded_eq hsize h, ok_bind, Slab.claimGuarded_eq, ok_bind]
  unfold slabOrFresh
  generalize (sizeClass.slab? position).getD _ = slab
  rcases hclaim : slab.claim with _ | ⟨slot, claimed⟩
  · simp only [hclaim, setEntry_of_lt h]
    rfl
  · simp only [hclaim, entry_of_lt hcounter, ok_bind, hraise, hv.putGuarded_eq h,
      Array.getElem?_eq_getElem hcounter]
    rfl

theorem Valid.allocateGuarded_eq {increment : Nat} (hpos : 0 < increment) (bound : Nat)
    (hlength : sizeClass.length + increment < 0x10000000000000000) :
    sizeClass.allocateGuarded increment bound = .ok (sizeClass.allocate increment bound) := by
  unfold allocateGuarded allocate
  rcases hopen : sizeClass.firstOpen? with _ | position
  · simp only [extendGuarded, word_of_lt hlength, ok_bind, pure_eq_ok]
    rcases hv.extend_cases increment bound with ⟨-, longer, hext, hlonger⟩ | ⟨-, hext⟩
    · have hlt : sizeClass.length < longer.length := by rw [hlonger.length_eq]; omega
      have hroom : longer.liveAt sizeClass.length < longer.slotCount := by
        rw [hlonger.liveAt_length]; exact hlonger.valid.slotCount_pos
      have hsize' : longer.chunkSize ≤ ChunkSize.greatest := by
        rw [hlonger.chunkSize_eq]; exact hsize
      simp only [hext, hlonger.valid.claimAtGuarded_eq hsize' hlt hroom]
      rfl
    · simp only [hext]
  · obtain ⟨hlt, hroom, -⟩ := hv.room_of_firstOpen? hopen
    simp only [hv.claimAtGuarded_eq hsize hlt hroom]
    rfl

/-- The counter of a slab with a slot in use may be lowered. -/
theorem Valid.freeGuarded_eq (handle : Handle) (position slot : Nat) :
    sizeClass.freeGuarded handle position slot = .ok (sizeClass.free handle position slot) := by
  unfold freeGuarded free
  rcases hslab : sizeClass.slab? position with _ | slab
  · rfl
  have hvalid := hv.slab_valid position slab hslab
  have hbytes := hv.bytes_lt hsize
  have hlt := lt_of_slab? hslab
  have hcounter := hv.lt_size_counters hlt
  simp only [hvalid.releaseGuarded_eq (by rw [hvalid.size_buffer]; omega), ok_bind,
    Option.bind_some]
  rcases hused : slab.isUsed slot
  · simp [Slab.release, hused]
  · obtain ⟨released, hrelease, hreleased⟩ := hvalid.exists_release hv.chunkSize_pos hused
    -- the counter tells the flags that are set, and that of the slot is
    have hpos : 0 < sizeClass.counters[position].toNat := by
      have hlive := hv.liveAt_eq position
      unfold usedAt at hlive
      rw [liveAt_of_lt hcounter, hslab] at hlive
      rw [hlive]
      exact Slab.usedCount_pos hused
    simp only [hrelease, entry_of_lt hcounter, ok_bind, lower_of_pos hpos, hv.putGuarded_eq hlt,
      Array.getElem?_eq_getElem hcounter]
    rfl

omit hv hsize in
/-- Where a counter has lost count of the flags, it would be lowered below zero. -/
example : freeGuarded ⟨1, 1, #[some ⟨1, #[true], Buffer.zeroed 1⟩], #[0]⟩ 1 0 0
    = .error (.negative 0 1) := rfl

omit hsize

theorem Valid.totalSlots_lt (h : sizeClass.length < 0x100000) :
    sizeClass.totalSlots < 0x8000000 := by
  have hslabs : sizeClass.slabCount ≤ sizeClass.length := Array.countP_le_size
  have hle := Nat.mul_le_mul (Nat.le_trans hslabs (Nat.le_of_lt h)) hv.slotCount_le
  unfold totalSlots
  omega

theorem Valid.usageGuarded_eq (h : sizeClass.length < 0x100000) :
    sizeClass.usageGuarded = .ok sizeClass.usage := by
  have hle := hv.liveSlots_le_totalSlots
  have htotal := hv.totalSlots_lt h
  unfold totalSlots at hle htotal
  unfold usageGuarded
  rw [word_of_lt (by omega), ok_bind, word_of_lt (by omega), ok_bind, difference_of_le hle]
  rfl

end valid

end SizeClass

/-! ### The pool -/

namespace ChunkPool

theorem indexGuarded_eq {size : Nat} (hsize : ChunkSize.IsChunk size) :
    indexGuarded size = .ok (ChunkSize.toIndex size) := by
  obtain ⟨hlow, hhigh⟩ := hsize
  have hlt : size - 1 < ChunkSize.greatest := by unfold ChunkSize.least at hlow; omega
  have hfit : size - 1 < 0x10000 := by unfold ChunkSize.greatest at hlt; omega
  unfold indexGuarded ChunkSize.toIndex
  rw [difference_of_le (show 1 ≤ size from hlow), ok_bind, field_of_lt hlt, Nat.mod_eq_of_lt hfit]

theorem Serves.chunkSize_le {pool : ChunkPool} {size : Nat} {sizeClass : SizeClass}
    (h : pool.Serves size sizeClass) (hsize : ChunkSize.IsChunk size) :
    sizeClass.chunkSize ≤ ChunkSize.greatest :=
  Nat.le_trans (Nat.le_of_eq h.chunkSize_eq) hsize.2

theorem slotCountGuarded_eq (pool : ChunkPool) (chunkSize : Nat) :
    pool.slotCountGuarded chunkSize = .ok (pool.slotCount? chunkSize) := by
  unfold slotCountGuarded slotCount?
  split
  · next hsize => rw [indexGuarded_eq hsize, ok_bind, (ofIndex_toIndex hsize).1, pure_eq_ok]
  · rfl

section valid
variable {pool : ChunkPool} (hv : pool.Valid)
include hv

theorem Valid.sizeClassGuarded_eq (chunkSize : Nat) :
    pool.sizeClassGuarded chunkSize = .ok (pool.sizeClass? chunkSize) := by
  unfold sizeClassGuarded
  split
  · next hsize => rw [indexGuarded_eq hsize, ok_bind, (ofIndex_toIndex hsize).1, pure_eq_ok]
  · next hsize =>
    rcases hfound : pool.sizeClass? chunkSize with _ | found
    · rfl
    · exact absurd (hv.isChunk chunkSize found hfound) hsize

/-- **An allocation** packs a place that fits a handle. -/
theorem Valid.allocateGuarded_eq (size : Nat) :
    pool.allocateGuarded size = .ok (pool.allocate size) := by
  unfold allocateGuarded allocate
  split
  · next hsize =>
    have hserves := hv.serves size hsize
    have hlength := hv.length_lt hsize
    have hincrement := hv.increment_le
    have hmax := hv.max_le
    unfold Settings.greatestChainLength at hmax
    rw [indexGuarded_eq hsize, ok_bind,
      hserves.valid.allocateGuarded_eq (hserves.chunkSize_le hsize) hv.increment_pos _ (by omega),
      ok_bind]
    rcases hserves.valid.allocate_cases hv.increment_pos pool.maxChainLength with
      ⟨position, slot, next, hcall, ha⟩ | ⟨hcall, -⟩
    · obtain ⟨hplus, hindex⟩ := ofIndex_toIndex hsize
      obtain ⟨hposition, hslot⟩ := hv.place_lt hsize ha
      have hfit : slot * (ChunkSize.toIndex size + 1) < 0x100000000 := by
        rw [show ChunkSize.toIndex size + 1 = size from hplus]
        exact slot_mul_lt hsize (Nat.le_of_lt hslot)
      simp only [hcall, Handle.ofSlotGuarded_eq hindex hposition hfit]
      rfl
    · simp only [hcall]
      rfl
  · rfl

section address
variable {address : ChunkAddress} (handle : Handle)

theorem Valid.freeGuarded_eq (ha : address.sizeIndex < 0x400) :
    pool.freeGuarded handle address = .ok (pool.free handle address) := by
  unfold freeGuarded free
  split
  · rfl
  rcases hfound : pool.sizeClass? address.chunkSize with _ | found
  · rfl
  have hserves := hv.serves_of_some hfound
  simp only [hserves.valid.freeGuarded_eq (hserves.chunkSize_le (isChunk_chunkSize ha))]
  split <;> rfl

omit hv in
/-- Neither end of a range wraps around. -/
theorem slabForGuarded_eq (pool : ChunkPool) (ha : (Address.chunk address).Fits) {length : Nat}
    (hlength : length < 0x8000000000000000) :
    pool.slabForGuarded handle address length = .ok (pool.slabFor handle address length) := by
  obtain ⟨hindex, -, hposition⟩ := ha
  have hsize := (isChunk_chunkSize hindex).2
  unfold ChunkSize.greatest at hsize
  have hinner : address.slotOffset < address.chunkSize := Nat.mod_lt _ address.chunkSize_pos
  unfold slabForGuarded
  rw [slabFor_eq (by omega), word_of_lt (by omega), ok_bind]
  split
  · rfl
  · rw [word_of_lt (by omega)]
    rfl

/-- A range inside a chunk lies in the buffer of the slab. -/
theorem Valid.room_of_slabFor (ha : address.sizeIndex < 0x400) {length : Nat} {slab : Slab}
    (h : pool.slabFor handle address length = .ok slab) :
    address.position + length ≤ slab.buffer.size := by
  obtain ⟨hle, hlive⟩ := (slabFor_eq_ok_iff ha).mp h
  obtain ⟨found, hfound, hslab, hused⟩ := of_liveSlab hlive
  have hserves := hv.serves_of_some hfound
  have hroom := (hserves.valid.slab_valid _ slab hslab).slot_le_size hused
  have hsplit := address.slot_mul_add
  rw [hserves.chunkSize_eq] at hroom
  omega

variable (ha : (Address.chunk address).Fits) {length : Nat} (hlength : length < 0x8000000000000000)
include ha hlength

theorem Valid.readGuarded_eq :
    pool.readGuarded handle address length = .ok (pool.read handle address length) := by
  unfold readGuarded read
  rw [slabForGuarded_eq handle pool ha hlength, ok_bind]
  rcases hslab : pool.slabFor handle address length with e | slab
  · rfl
  · simp only [slice_of_le (hv.room_of_slabFor handle ha.1 hslab)]
    rfl

theorem Valid.writeGuarded_eq {bytes : List UInt8} (hbytes : bytes.length = length) :
    pool.writeGuarded handle address length bytes = .ok (pool.write handle address bytes) := by
  unfold writeGuarded write
  rw [slabForGuarded_eq handle pool ha hlength, ok_bind, hbytes]
  rcases hslab : pool.slabFor handle address length with e | slab
  · rfl
  · simp only [overwrite_of_le (hv.room_of_slabFor handle ha.1 hslab) hbytes]
    rfl

end address

/-- A report has at most 1024 rows. -/
theorem Valid.length_sizes_le : pool.sizes.length ≤ ChunkSize.greatest := by
  rw [← List.toFinset_card_of_nodup pool.nodup_sizes]
  refine (Finset.card_le_card fun size hsize => ?_).trans
    (Nat.le_of_eq (Nat.card_Icc ChunkSize.least ChunkSize.greatest))
  exact Finset.mem_Icc.mpr (hv.isChunk_of_mem_sizes (List.mem_toFinset.mp hsize))

theorem Valid.usageGuarded_eq : pool.usageGuarded = .ok pool.usage := by
  refine mapM_eq_ok_map fun ⟨size, found⟩ hentry => ?_
  have hfound : pool.sizeClass? size = some found :=
    Std.ExtTreeMap.mem_toList_iff_getElem?_eq_some.mp hentry
  have hlength := hv.length_lt (hv.isChunk size found hfound)
  rw [sizeClass_of_some hfound] at hlength
  exact (hv.serves_of_some hfound).valid.usageGuarded_eq hlength

/-- The counts of a row are far below those of a word. -/
theorem Valid.row_le {row : ClassUsage} (h : row ∈ pool.usage) :
    row.liveSlots ≤ 0x8000000 ∧ row.liveSlots * row.chunkSize ≤ 0x2000000000 := by
  rw [usage_eq, List.mem_map] at h
  obtain ⟨size, hmem, rfl⟩ := h
  have hsize := hv.isChunk_of_mem_sizes hmem
  have hvalid := (hv.serves size hsize).valid
  have hlive : (pool.sizeClass size).liveSlots ≤ 0x8000000 := Nat.le_of_lt
    (Nat.lt_of_le_of_lt hvalid.liveSlots_le_totalSlots (hvalid.totalSlots_lt (hv.length_lt hsize)))
  rw [hv.chunkSize_usage hmem]
  exact ⟨hlive, Nat.mul_le_mul hlive hsize.2⟩

end valid

end ChunkPool

/-! ### The block table -/

namespace BlockTable

theorem makeGuarded_eq {buffers : Array (Option Buffer)} {index : Nat} (hlt : index < buffers.size)
    (hfit : index < greatestIdentifier) (spare : List Nat) (size : Nat) :
    makeGuarded buffers spare index size = .ok (.ok (Handle.ofBlock (index + 1) 0),
      ⟨buffers.setIfInBounds index (some (Buffer.zeroed size)), spare⟩) := by
  unfold makeGuarded
  rw [setEntry_of_lt hlt, ok_bind, Handle.ofIndexGuarded_eq hfit]
  rfl

/-- An entry that was pushed is the last one. -/
theorem setIfInBounds_push (buffers : Array (Option Buffer)) (first last : Option Buffer) :
    (buffers.push first).setIfInBounds buffers.size last = buffers.push last := by
  refine Array.ext_getElem? fun i => ?_
  rw [Array.getElem?_setIfInBounds, Array.getElem?_push, Array.getElem?_push, Array.size_push]
  by_cases hi : i = buffers.size
  · rw [if_pos hi.symm, if_pos hi, if_pos (Nat.lt_succ_self _)]
  · rw [if_neg (Ne.symm hi), if_neg hi, if_neg hi]

section valid
variable {table : BlockTable} (hv : table.Valid)
include hv

theorem Valid.allocateGuarded_eq (size : Nat) :
    table.allocateGuarded size = .ok (table.allocate size) := by
  have hle := hv.length_le
  unfold allocateGuarded allocate
  rcases hspare : table.spare with _ | ⟨index, spare⟩
  · by_cases hlt : table.length < greatestIdentifier
    · have hsize : (table.buffers.push none).size = table.length + 1 := Array.size_push _
      simp only [if_pos hlt, hsize, difference_succ, ok_bind]
      rw [makeGuarded_eq (by omega) hlt]
      unfold length
      rw [setIfInBounds_push]
    · simp only [if_neg hlt]
      rfl
  · -- what the free list names is in the table, and no table outgrows the identifiers
    have hmem : table.buffers[index]? = some none :=
      (hv.mem_spare_iff index).mp (by rw [hspare]; exact List.mem_cons_self)
    have hlt : index < table.length := (Array.getElem?_eq_some_iff.mp hmem).1
    exact makeGuarded_eq hlt (by omega) spare size

theorem Valid.liveCountGuarded_eq : table.liveCountGuarded = .ok table.liveCount :=
  difference_of_le hv.length_spare_le

end valid

section access
variable (table : BlockTable) (handle : Handle) (address : BlockAddress) (length : Nat)

theorem readGuarded_eq :
    table.readGuarded handle address length = .ok (table.read handle address length) := by
  unfold readGuarded read
  rcases hbuffer : table.bufferFor handle address length with e | buffer
  · rfl
  · simp only [slice_of_le (bufferFor_eq_ok_iff.mp hbuffer).2]
    rfl

theorem writeGuarded_eq {bytes : List UInt8} (hbytes : bytes.length = length) :
    table.writeGuarded handle address length bytes = .ok (table.write handle address bytes) := by
  unfold writeGuarded write
  rw [hbytes]
  rcases hbuffer : table.bufferFor handle address length with e | buffer
  · rfl
  · obtain ⟨hlive, hroom⟩ := bufferFor_eq_ok_iff.mp hbuffer
    obtain ⟨index, hindex, hlt, -⟩ := exists_index hlive
    simp only [overwrite_of_le hroom hbytes, ok_bind, hindex, difference_succ, setEntry_of_lt hlt]
    rfl

end access

end BlockTable

end HandleHeap
