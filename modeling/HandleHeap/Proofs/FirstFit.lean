import HandleHeap.Proofs.Releases

/-!
# First fit

An allocation takes the slot with the lowest handle of all that are vacant.  The pool looks for it
in two steps, first along the chain by the counters and then in one slab by the flags, and never
looks at a handle.

* `SizeClass.Taken.isUsed_before`: the slots of earlier positions, and the lower slots of the same
  position, are all in use;
* `Handle.toInt_ofSlot_le`: handles of slots are in the order of their positions, and within a
  position in that of the slots;
* `ChunkPool.Ledger.Vacant`: the handles that an allocation of a size could be answered with;
* `ChunkPool.Ledger.lowest_of_allocate`: the answer is the lowest of them.
-/

namespace HandleHeap

/-! ### The search -/

namespace SizeClass

variable {sizeClass next : SizeClass} {increment bound position slot : Nat}

/-- The position taken is the first that is not full. -/
theorem Taken.liveAt_before (hv : sizeClass.Valid)
    (h : Taken sizeClass increment bound position slot next) {i : Nat} (hi : i < position) :
    sizeClass.liveAt i = sizeClass.slotCount := by
  obtain ⟨-, -, -, -, -, ⟨-, hopen⟩ | ⟨-, hfull, rfl, -⟩, -, -⟩ := h
  · exact (hv.room_of_firstOpen? hopen).2.2 i hi
  · exact hv.liveAt_of_full hfull hi

/-- **Everything before the slot taken is in use**, also where the position is one by which the
chain has just become longer. -/
theorem Taken.isUsed_before (hv : sizeClass.Valid)
    (h : Taken sizeClass increment bound position slot next) {i j : Nat}
    (hj : j < sizeClass.slotCount) (hbefore : i < position ∨ i = position ∧ j < slot) :
    sizeClass.isUsed i j = true := by
  rcases hbefore with hi | ⟨rfl, hlow⟩
  · exact hv.isUsed_of_liveAt_eq (h.liveAt_before hv hi) hj
  · obtain ⟨_, longer, _, hlonger, -, -, hclaimed, -⟩ := h
    rw [← hlonger.isUsed_eq, ← isUsed_slabOrFresh]
    exact hclaimed.lowest j hlow

end SizeClass

/-! ### The order of handles -/

/-- **Handles of slots are ordered by position, then by slot.** -/
theorem Handle.toInt_ofSlot_le {index i j position slot : Nat} (hindex : index < 0x400)
    (hi : i < 0x100000) (hj : j * (index + 1) < 0x100000000) (hposition : position < 0x100000)
    (hslot : slot * (index + 1) < 0x100000000)
    (hle : i < position ∨ i = position ∧ j ≤ slot) :
    (ofSlot index i j).toInt ≤ (ofSlot index position slot).toInt := by
  rw [toInt_ofSlot hindex hi hj, toInt_ofSlot hindex hposition hslot, Nat.cast_le]
  simp only [Address.number]
  rcases hle with hlt | ⟨rfl, hle⟩
  · omega
  · exact Nat.add_le_add_left (Nat.mul_le_mul_right _ hle) _

namespace ChunkPool.Ledger

/-! ### Vacant slots -/

theorem toIndex_add_one {size : Nat} (hsize : ChunkSize.IsChunk size) :
    ChunkSize.toIndex size + 1 = size :=
  (ofIndex_toIndex hsize).1

/-- A slot starts within the half of a handle that is for positions in a slab. -/
theorem slot_mul_index_lt {size slot : Nat} (hsize : ChunkSize.IsChunk size) (hslot : slot ≤ 127) :
    slot * (ChunkSize.toIndex size + 1) < 0x100000000 := by
  rw [toIndex_add_one hsize]
  exact slot_mul_lt hsize hslot

/-- A handle of a slot is issued exactly while the slot is in use. -/
theorem Sound.issued_ofSlot_iff {settings : Settings} {l : Ledger} (hs : l.Sound settings)
    {size : Nat} (hsize : ChunkSize.IsChunk size) {position slot : Nat}
    (hposition : position < 0x100000) (hslot : slot ≤ 127) :
    l.Issued (Handle.ofSlot (ChunkSize.toIndex size) position slot) ↔
      (l.pool.sizeClass size).isUsed position slot = true := by
  obtain ⟨hpos, haddress⟩ := Handle.address_ofSlot (ofIndex_toIndex hsize).2 hposition
    (slot_mul_index_lt hsize hslot)
  rw [toIndex_add_one hsize] at haddress
  obtain ⟨hchunk, -, hoffset⟩ := slot_start hsize position slot
  rw [sizeClass_isUsed_eq l.pool hsize]
  constructor
  · rintro ⟨-, ⟨a, n⟩, hmem, ha⟩
    rw [haddress, Address.chunk.injEq] at ha
    obtain ⟨-, hused, -⟩ := (hs.mem_live_iff a n).mp hmem
    rw [ha]
    exact hused
  · intro hused
    exact ⟨hpos, _, (hs.mem_live_iff _ size).mpr ⟨hoffset, hused, hchunk⟩, haddress⟩

/-- The handles that an allocation can be answered with: the starts of all slots that chunks of the
size can have, at any position that a handle can name, without those that are issued. -/
def Vacant (l : Ledger) (settings : Settings) (size : Nat) (handle : Handle) : Prop :=
  (∃ position slot, position < 0x100000 ∧ slot < Slab.capacity size settings.slabBufferSize ∧
    handle = Handle.ofSlot (ChunkSize.toIndex size) position slot) ∧ ¬ l.Issued handle

/-- An allocation that succeeds takes a slot of the size class. -/
theorem Sound.taken_of_allocate {settings : Settings} {l : Ledger} (hs : l.Sound settings)
    {size : Nat} (hsize : ChunkSize.IsChunk size) {handle : Handle}
    (h : (l.pool.allocate size).1 = .ok handle) :
    ∃ position slot next, handle = Handle.ofSlot (ChunkSize.toIndex size) position slot ∧
      SizeClass.Taken (l.pool.sizeClass size) l.pool.chainIncrement l.pool.maxChainLength position
        slot next := by
  rcases (hs.valid.serves size hsize).valid.allocate_taken hs.valid.increment_pos
    l.pool.maxChainLength with ⟨position, slot, next, hcall, htaken⟩ | ⟨hcall, -⟩ <;>
    rw [allocate, if_pos hsize, hcall] at h
  · cases h
    exact ⟨position, slot, next, rfl, htaken⟩
  · cases h

/-- **An allocation is answered with the lowest vacant handle**, after any requests and writes. -/
theorem lowest_of_allocate {settings : Settings} (h : settings.validate = .ok ())
    (edits : List Edit) {size : Nat} (hsize : ChunkSize.IsChunk size) {handle : Handle}
    (hcall : ((edited settings edits).pool.allocate size).1 = .ok handle) :
    (edited settings edits).Vacant settings size handle ∧
      ∀ other, (edited settings edits).Vacant settings size other →
        handle.toInt ≤ other.toInt := by
  have hs := sound_edited h edits
  have hserves := hs.valid.serves size hsize
  have hcapacity : ((edited settings edits).pool.sizeClass size).slotCount
      = Slab.capacity size settings.slabBufferSize := by
    rw [hserves.slotCount_eq, hs.under.slabBufferSize_eq]
  obtain ⟨position, slot, next, rfl, htaken⟩ := hs.taken_of_allocate hsize hcall
  have ha := htaken.allocated
  obtain ⟨hposition, hslot⟩ := hs.valid.place_lt hsize ha
  constructor
  · refine ⟨⟨position, slot, hposition, hcapacity ▸ ha.slot_lt, rfl⟩, ?_⟩
    rw [hs.issued_ofSlot_iff hsize hposition hslot.le, ha.free]
    decide
  · rintro _ ⟨⟨i, j, hi, hj, rfl⟩, hvacant⟩
    rw [← hcapacity] at hj
    have hj_le := hj.le.trans hserves.valid.slotCount_le
    rw [hs.issued_ofSlot_iff hsize hi hj_le] at hvacant
    refine Handle.toInt_ofSlot_le (ofIndex_toIndex hsize).2 hposition
      (slot_mul_index_lt hsize hslot.le) hi (slot_mul_index_lt hsize hj_le) ?_
    -- A slot before the one taken would be in use.
    by_contra hbefore
    exact hvacant (htaken.isUsed_before hserves.valid hj (by omega))

/-- Two slabs of four slots, where one chunk of each was given back, the later one first. -/
def gapped : List Edit :=
  List.replicate 7 (.request (.allocate 1024)) ++
    [.request (.free (.ofSlot 1023 1 0) ⟨1023, 1, 0⟩),
      .request (.free (.ofSlot 1023 0 2) ⟨1023, 0, 2048⟩)]

/-- The gap in the first slab is lower than the one in the second, and than the slots never used. -/
theorem lowest_of_allocate_of_gapped :
    ((edited {} gapped).pool.allocate 1024).1 = .ok (.ofSlot 1023 0 2) ∧
      (edited {} gapped).Vacant {} 1024 (.ofSlot 1023 0 2) ∧
      ∀ other, (edited {} gapped).Vacant {} 1024 other →
        (Handle.ofSlot 1023 0 2).toInt ≤ other.toInt := by
  have hcall : ((edited {} gapped).pool.allocate 1024).1 = .ok (.ofSlot 1023 0 2) := by
    decide +kernel
  exact ⟨hcall, lowest_of_allocate rfl gapped (by decide) hcall⟩

end ChunkPool.Ledger

end HandleHeap
