import HandleHeap.ChunkPool
import HandleHeap.Proofs.Addresses
import HandleHeap.Proofs.SizeClasses
import HandleHeap.Proofs.SlotCounts

/-!
# Chunk pools

The flags and bytes of all size classes, by chunk address, and what the operations do to them.

* `ChunkPool.Valid`: size classes are made for chunk sizes only, and every one of them, made or not,
  is valid, serves its own chunk size and is no longer than the settings allow;
* `ChunkPool.isUsed`, `ChunkPool.byteAt`: whether the slot of an address is in use, and its byte;
* `ChunkPool.Valid.allocate_cases`, `ChunkPool.Valid.free_cases`: a chunk is handed out or taken
  back, or the call is refused;
* `ChunkPool.Valid.allocate_address`: the handle of a chunk stands for its first address;
* `ChunkPool.slabFor_eq_ok_iff`: access is granted to the bytes of one slot in use;
* `ChunkPool.read_eq`, `ChunkPool.Valid.write_of_slabFor`,
  `ChunkPool.Valid.written_of_write_eq_ok`: what granted access reads and changes.
-/

namespace HandleHeap

/-! ### Slots of an address -/

namespace ChunkAddress

/-- Two addresses in one slot. -/
def SameSlot (a b : ChunkAddress) : Prop :=
  a.sizeIndex = b.sizeIndex ∧ a.chainIndex = b.chainIndex ∧ a.slot = b.slot

instance (a b : ChunkAddress) : Decidable (SameSlot a b) :=
  inferInstanceAs (Decidable (_ ∧ _ ∧ _))

end ChunkAddress

namespace ChunkPool

/-- Whether the slot of an address is in use. -/
def isUsed (pool : ChunkPool) (address : ChunkAddress) : Bool :=
  (pool.sizeClass address.chunkSize).isUsed address.chainIndex address.slot

/-- The byte at an address, zero where there is no slab. -/
def byteAt (pool : ChunkPool) (address : ChunkAddress) : UInt8 :=
  (pool.sizeClass address.chunkSize).byteAt address.chainIndex address.position

/-- The counters and flags of every size class in use. -/
def occupancy (pool : ChunkPool) (chunkSize : Nat) :
    Option (Array UInt8 × Array (Option (Array Bool))) :=
  (pool.sizeClass? chunkSize).map SizeClass.occupancy

/-- A valid size class of the chunk size, made under the settings of the pool. -/
structure Serves (pool : ChunkPool) (chunkSize : Nat) (sizeClass : SizeClass) : Prop where
  valid : sizeClass.Valid
  chunkSize_eq : sizeClass.chunkSize = chunkSize
  slotCount_eq : sizeClass.slotCount = Slab.capacity chunkSize pool.slabBufferSize
  length_le : sizeClass.length ≤ pool.maxChainLength

/-- **The invariant of a pool.** -/
structure Valid (pool : ChunkPool) : Prop where
  increment_pos : 0 < pool.chainIncrement
  increment_le : pool.chainIncrement ≤ pool.maxChainLength
  max_le : pool.maxChainLength ≤ Settings.greatestChainLength
  isChunk : ∀ size found, pool.sizeClass? size = some found → ChunkSize.IsChunk size
  serves : ∀ chunkSize, ChunkSize.IsChunk chunkSize →
    pool.Serves chunkSize (pool.sizeClass chunkSize)

/-! ### Size classes by chunk size -/

theorem sizeClass?_setSizeClass (pool : ChunkPool) (size : Nat) (next : SizeClass)
    (other : Nat) : (pool.setSizeClass size next).sizeClass? other =
      if other = size then some next else pool.sizeClass? other := by
  simp only [sizeClass?, setSizeClass, Std.ExtTreeMap.getElem?_insert, Nat.compare_eq_eq]
  by_cases h : size = other
  · rw [if_pos h, if_pos h.symm]
  · rw [if_neg h, if_neg (fun hc => h hc.symm)]

theorem sizeClass_setSizeClass (pool : ChunkPool) (size : Nat) (next : SizeClass)
    (other : Nat) : (pool.setSizeClass size next).sizeClass other =
      if other = size then next else pool.sizeClass other := by
  unfold sizeClass
  rw [sizeClass?_setSizeClass]
  split <;> rfl

theorem sizeClass_of_some {pool : ChunkPool} {size : Nat} {found : SizeClass}
    (h : pool.sizeClass? size = some found) : pool.sizeClass size = found := by
  unfold sizeClass
  rw [h]
  rfl

/-- The invariant of a size class in use. -/
theorem Valid.serves_of_some {pool : ChunkPool} (hv : pool.Valid) {size : Nat} {found : SizeClass}
    (h : pool.sizeClass? size = some found) : pool.Serves size found := by
  rw [← sizeClass_of_some h]
  exact hv.serves size (hv.isChunk size found h)

theorem setSizeClass_self {pool : ChunkPool} {size : Nat} {found : SizeClass}
    (h : pool.sizeClass? size = some found) : pool.setSizeClass size found = pool := by
  have hclasses : pool.classes.insert size found = pool.classes := by
    apply Std.ExtTreeMap.ext_getElem?
    intro other
    rw [Std.ExtTreeMap.getElem?_insert]
    split
    · next heq =>
      rw [Nat.compare_eq_eq] at heq
      rw [← heq]
      exact h.symm
    · rfl
  unfold setSizeClass
  rw [hclasses]

/-- Another size class that serves the same chunks keeps the pool valid. -/
theorem Valid.setSizeClass {pool : ChunkPool} (hv : pool.Valid) {size : Nat}
    (hsize : ChunkSize.IsChunk size) {sizeClass : SizeClass}
    (hserves : pool.Serves size sizeClass) : (pool.setSizeClass size sizeClass).Valid := by
  refine ⟨hv.increment_pos, hv.increment_le, hv.max_le, fun other found hfound => ?_,
    fun other hother => ?_⟩
  · rw [sizeClass?_setSizeClass] at hfound
    split at hfound
    · next heq => rw [heq]; exact hsize
    · exact hv.isChunk other found hfound
  rw [sizeClass_setSizeClass]
  by_cases h : other = size
  · rw [if_pos h, h]
    exact ⟨hserves.valid, hserves.chunkSize_eq, hserves.slotCount_eq, hserves.length_le⟩
  · rw [if_neg h]
    have hold := hv.serves other hother
    exact ⟨hold.valid, hold.chunkSize_eq, hold.slotCount_eq, hold.length_le⟩

/-- A pool under valid settings is valid. -/
theorem valid_fresh {settings : Settings} (h : settings.validate = .ok ()) :
    (fresh settings).Valid := by
  unfold Settings.validate at h
  split at h
  · cases h
  split at h
  · cases h
  next hinc =>
  split at h
  · cases h
  next hmax =>
  rw [not_not] at hinc hmax
  have hnone : ∀ size, (fresh settings).sizeClass? size = none := by simp [sizeClass?, fresh]
  refine ⟨hinc.1, hmax.1, hmax.2, fun size found hfound => ?_, fun size hsize => ?_⟩
  · rw [hnone] at hfound
    cases hfound
  unfold sizeClass
  rw [hnone]
  refine ⟨SizeClass.valid_fresh _ _ _ hsize.1 (Slab.capacity_pos hsize.1 _)
    (Slab.capacity_le hsize.1 _), rfl, rfl, ?_⟩
  rw [Option.getD_none, SizeClass.length_fresh]
  exact hmax.1

@[simp] theorem isUsed_fresh (settings : Settings) (address : ChunkAddress) :
    (fresh settings).isUsed address = false := by
  simp [isUsed, sizeClass, sizeClass?, fresh]

/-! ### Allocation and release -/

/-- What taking a chunk changes: the flag of one slot. -/
structure Allocated (pool : ChunkPool) (address : ChunkAddress) (next : ChunkPool) : Prop where
  valid : next.Valid
  free : pool.isUsed address = false
  isUsed_eq : ∀ b, next.isUsed b = if b.SameSlot address then true else pool.isUsed b
  byteAt_eq : ∀ b, next.byteAt b = pool.byteAt b

/-- What giving a chunk back changes: the flag of its slot and the bytes in it. -/
structure Freed (pool : ChunkPool) (address : ChunkAddress) (next : ChunkPool) : Prop where
  valid : next.Valid
  isUsed_eq : ∀ b, next.isUsed b = if b.SameSlot address then false else pool.isUsed b
  byteAt_eq : ∀ b, next.byteAt b = if b.SameSlot address then 0 else pool.byteAt b

/-- What a write inside a chunk changes: the bytes that it covers. -/
structure Written (pool : ChunkPool) (address : ChunkAddress) (bytes : List UInt8)
    (next : ChunkPool) : Prop where
  valid : next.Valid
  occupancy_eq : next.occupancy = pool.occupancy
  isUsed_eq : ∀ b, next.isUsed b = pool.isUsed b
  byteAt_eq : ∀ b, next.byteAt b =
    if b.sizeIndex = address.sizeIndex ∧ b.chainIndex = address.chainIndex ∧
        address.position ≤ b.position ∧ b.position < address.position + bytes.length
    then bytes[b.position - address.position]?.getD 0 else pool.byteAt b

/-- A full chain belongs to a size class in use: a fresh one has room. -/
theorem Valid.sizeClass?_of_full {pool : ChunkPool} (hv : pool.Valid) {size : Nat}
    (hsize : ChunkSize.IsChunk size) (hfull : (pool.sizeClass size).firstOpen? = none) :
    pool.sizeClass? size = some (pool.sizeClass size) := by
  rcases hfound : pool.sizeClass? size with _ | found
  · exfalso
    unfold sizeClass at hfull
    rw [hfound, Option.getD_none] at hfull
    have hzero := Array.findIdx?_eq_none_iff.mp hfull 0
      (Array.mem_replicate.mpr ⟨Nat.ne_of_gt hv.increment_pos, rfl⟩)
    have hpos : 0 < Slab.capacity size pool.slabBufferSize := Slab.capacity_pos hsize.1 _
    exact of_decide_eq_false hzero hpos
  · rw [sizeClass_of_some hfound]

theorem ofIndex_toIndex {size : Nat} (hsize : ChunkSize.IsChunk size) :
    ChunkSize.ofIndex (ChunkSize.toIndex size) = size ∧ ChunkSize.toIndex size < 0x400 := by
  obtain ⟨h1, h2⟩ := hsize
  unfold ChunkSize.least at h1
  unfold ChunkSize.greatest at h2
  unfold ChunkSize.ofIndex ChunkSize.toIndex
  omega

/-- The address of a slot of the size class is that slot. -/
theorem sameSlot_iff {size position i : Nat} (hsize : ChunkSize.IsChunk size) (b : ChunkAddress) :
    b.SameSlot ⟨ChunkSize.toIndex size, position, i * size⟩ ↔
      b.chunkSize = size ∧ b.chainIndex = position ∧ b.slot = i := by
  obtain ⟨hindex, -⟩ := ofIndex_toIndex hsize
  have hslot : (⟨ChunkSize.toIndex size, position, i * size⟩ : ChunkAddress).slot = i :=
    (ChunkAddress.slot_eq_of_position (by unfold ChunkAddress.chunkSize; rw [hindex])).1
  unfold ChunkAddress.SameSlot
  rw [hslot]
  unfold ChunkAddress.chunkSize
  unfold ChunkSize.ofIndex at hindex ⊢
  dsimp only
  constructor
  · rintro ⟨h1, h2, h3⟩; exact ⟨by omega, h2, h3⟩
  · rintro ⟨h1, h2, h3⟩; exact ⟨by omega, h2, h3⟩

/-- Taking a slot of one size class takes a chunk of the pool. -/
theorem Valid.allocated_setSizeClass {pool : ChunkPool} (hv : pool.Valid) {size : Nat}
    (hsize : ChunkSize.IsChunk size) {increment position i : Nat} {next : SizeClass}
    (ha : SizeClass.Allocated (pool.sizeClass size) increment pool.maxChainLength position i next) :
    Allocated pool ⟨ChunkSize.toIndex size, position, i * size⟩ (pool.setSizeClass size next) := by
  have hserves := hv.serves size hsize
  have hlength : next.length ≤ pool.maxChainLength := by
    rcases ha.length_eq with h | ⟨-, -, h⟩
    · rw [h]; exact hserves.length_le
    · exact h
  have hnext : pool.Serves size next :=
    ⟨ha.valid, ha.chunkSize_eq.trans hserves.chunkSize_eq,
      ha.slotCount_eq.trans hserves.slotCount_eq, hlength⟩
  refine ⟨hv.setSizeClass hsize hnext, ?_, fun b => ?_, fun b => ?_⟩
  · have hslot := (sameSlot_iff hsize ⟨ChunkSize.toIndex size, position, i * size⟩).mp
      ⟨rfl, rfl, rfl⟩
    unfold isUsed
    rw [hslot.1, hslot.2.2]
    exact ha.free
  · unfold isUsed
    rw [sizeClass_setSizeClass]
    simp only [sameSlot_iff hsize]
    by_cases hb : b.chunkSize = size
    · rw [if_pos hb, ha.isUsed_eq, hb]
      simp only [true_and]
    · rw [if_neg hb, if_neg (fun hc => hb hc.1)]
  · unfold byteAt
    rw [sizeClass_setSizeClass]
    split
    · next hb => rw [ha.byteAt_eq, hb]
    · rfl

/-- No chain is longer than a handle can tell. -/
theorem Valid.length_lt {pool : ChunkPool} (hv : pool.Valid) {size : Nat}
    (hsize : ChunkSize.IsChunk size) : (pool.sizeClass size).length < 0x100000 := by
  have hlength := (hv.serves size hsize).length_le
  have hmax := hv.max_le
  unfold Settings.greatestChainLength at hmax
  omega

/-- The place of a slot that is taken fits a handle. -/
theorem Valid.place_lt {pool : ChunkPool} (hv : pool.Valid) {size : Nat}
    (hsize : ChunkSize.IsChunk size) {increment position i : Nat} {next : SizeClass}
    (ha : SizeClass.Allocated (pool.sizeClass size) increment pool.maxChainLength position i next) :
    position < 0x100000 ∧ i < 127 := by
  have hlength := (hv.allocated_setSizeClass hsize ha).valid.length_lt hsize
  rw [sizeClass_setSizeClass, if_pos rfl] at hlength
  exact ⟨Nat.lt_trans ha.position_lt hlength,
    Nat.lt_of_lt_of_le ha.slot_lt (hv.serves size hsize).valid.slotCount_le⟩

/-- **Allocation takes a free slot, or leaves a pool without room as it is.** -/
theorem Valid.allocate_cases {pool : ChunkPool} (hv : pool.Valid) {size : Nat}
    (hsize : ChunkSize.IsChunk size) :
    (∃ position i next,
        pool.allocate size = (.ok (Handle.ofSlot (ChunkSize.toIndex size) position i), next) ∧
        position < 0x100000 ∧ i < 127 ∧
        Allocated pool ⟨ChunkSize.toIndex size, position, i * size⟩ next) ∨
      pool.allocate size = (.error (.chainFull size pool.maxChainLength), pool) := by
  have hserves := hv.serves size hsize
  unfold allocate
  rw [if_pos hsize]
  rcases hserves.valid.allocate_cases hv.increment_pos pool.maxChainLength with
    ⟨position, i, next, hcall, ha⟩ | ⟨hcall, hfull, -⟩
  · left
    obtain ⟨hposition, hi⟩ := hv.place_lt hsize ha
    refine ⟨position, i, pool.setSizeClass size next, ?_, hposition, hi,
      hv.allocated_setSizeClass hsize ha⟩
    rw [hcall]
    rfl
  · right
    -- the refused class is stored back as it was, which changes nothing as it was there before
    rw [hcall, hserves.chunkSize_eq]
    simp only [setSizeClass_self (hv.sizeClass?_of_full hsize hfull)]
    rfl

/-- The first address of a slot of a size class. -/
theorem slot_start {size : Nat} (hsize : ChunkSize.IsChunk size) (position slot : Nat) :
    (⟨ChunkSize.toIndex size, position, slot * size⟩ : ChunkAddress).chunkSize = size ∧
      (⟨ChunkSize.toIndex size, position, slot * size⟩ : ChunkAddress).slot = slot ∧
      (⟨ChunkSize.toIndex size, position, slot * size⟩ : ChunkAddress).slotOffset = 0 := by
  obtain ⟨hsame, -⟩ := ofIndex_toIndex hsize
  exact ⟨hsame, ChunkAddress.slot_eq_of_position (by unfold ChunkAddress.chunkSize; rw [hsame])⟩

/-- At most 127 slots of at most 1024 bytes, so a position fits the lower half of a handle. -/
theorem slot_mul_lt {size slot : Nat} (hsize : ChunkSize.IsChunk size) (hslot : slot ≤ 127) :
    slot * size < 0x100000000 := by
  have hle : slot * size ≤ 127 * ChunkSize.greatest := Nat.mul_le_mul hslot hsize.2
  unfold ChunkSize.greatest at hle
  omega

/-- An allocation hands out the handle of the chunk that it takes. -/
theorem Valid.allocate_address {pool : ChunkPool} (hv : pool.Valid) {size : Nat}
    (hsize : ChunkSize.IsChunk size) :
    (∃ handle address next, pool.allocate size = (.ok handle, next) ∧ 0 < handle.toInt ∧
        handle.address = .chunk address ∧ address.slotOffset = 0 ∧ address.chunkSize = size ∧
        Allocated pool address next) ∨
      pool.allocate size = (.error (.chainFull size pool.maxChainLength), pool) := by
  rcases hv.allocate_cases hsize with ⟨position, i, next, hcall, hposition, hi, ha⟩ | hcall
  · left
    obtain ⟨hindex, hlt⟩ := ofIndex_toIndex hsize
    have hplus : ChunkSize.toIndex size + 1 = size := hindex
    have hfit : i * (ChunkSize.toIndex size + 1) < 0x100000000 := by
      rw [hplus]
      exact slot_mul_lt hsize (Nat.le_of_lt hi)
    obtain ⟨hpos, haddress⟩ := Handle.address_ofSlot hlt hposition hfit
    rw [hplus] at haddress
    obtain ⟨hsame, -, hoffset⟩ := slot_start hsize position i
    exact ⟨_, _, next, hcall, hpos, haddress, hoffset, hsame, ha⟩
  · exact Or.inr hcall

section address
variable {pool : ChunkPool} {address : ChunkAddress}

theorem isChunk_chunkSize (ha : address.sizeIndex < 0x400) :
    ChunkSize.IsChunk address.chunkSize := by
  unfold ChunkSize.IsChunk ChunkSize.least ChunkSize.greatest ChunkAddress.chunkSize
    ChunkSize.ofIndex
  omega

/-- An address in a slot in use has a size class and a slab. -/
theorem exists_slab_of_isUsed (h : pool.isUsed address = true) :
    ∃ found slab, pool.sizeClass? address.chunkSize = some found ∧
      found.slab? address.chainIndex = some slab ∧ slab.isUsed address.slot = true := by
  unfold isUsed sizeClass at h
  rcases hfound : pool.sizeClass? address.chunkSize with _ | found
  · rw [hfound, Option.getD_none, SizeClass.isUsed_fresh] at h
    cases h
  · rw [hfound, Option.getD_some, SizeClass.isUsed, Option.any_eq_true] at h
    obtain ⟨slab, hslab, hused⟩ := h
    exact ⟨found, slab, rfl, hslab, hused⟩

/-- Giving back a slot of one size class gives back a chunk of the pool. -/
theorem Valid.freed_setSizeClass (hv : pool.Valid) (ha : address.sizeIndex < 0x400)
    {next : SizeClass} (h : SizeClass.Freed (pool.sizeClass address.chunkSize)
      address.chainIndex address.slot next) :
    Freed pool address (pool.setSizeClass address.chunkSize next) := by
  have hserves := hv.serves _ (isChunk_chunkSize ha)
  have hnext : pool.Serves address.chunkSize next :=
    ⟨h.valid, h.chunkSize_eq.trans hserves.chunkSize_eq,
      h.slotCount_eq.trans hserves.slotCount_eq, h.length_eq.symm ▸ hserves.length_le⟩
  refine ⟨hv.setSizeClass (isChunk_chunkSize ha) hnext, fun b => ?_, fun b => ?_⟩
  · unfold isUsed
    rw [sizeClass_setSizeClass]
    by_cases hb : b.chunkSize = address.chunkSize
    · have hindex : b.sizeIndex = address.sizeIndex := Nat.succ.inj hb
      rw [if_pos hb, h.isUsed_eq, hb]
      simp only [ChunkAddress.SameSlot, hindex, true_and]
    · rw [if_neg hb, if_neg (fun hc => hb (congrArg Nat.succ hc.1))]
  · unfold byteAt
    rw [sizeClass_setSizeClass]
    by_cases hb : b.chunkSize = address.chunkSize
    · have hindex : b.sizeIndex = address.sizeIndex := Nat.succ.inj hb
      have hslot : b.position / (pool.sizeClass address.chunkSize).chunkSize = b.slot := by
        rw [hserves.chunkSize_eq, ← hb]
        rfl
      rw [if_pos hb, h.byteAt_eq, hb, hslot]
      simp only [ChunkAddress.SameSlot, hindex, true_and]
    · rw [if_neg hb, if_neg (fun hc => hb (congrArg Nat.succ hc.1))]

/-- **Release gives back a slot in use, or is refused.** -/
theorem Valid.free_cases (hv : pool.Valid) (handle : Handle) (ha : address.sizeIndex < 0x400)
    (hoffset : address.slotOffset = 0) :
    (pool.isUsed address = true ∧ ∃ next, pool.free handle address = .ok next ∧
        Freed pool address next) ∨
      (pool.isUsed address = false ∧
        pool.free handle address = .error (.invalidHandle handle)) := by
  have hserves := hv.serves _ (isChunk_chunkSize ha)
  unfold free
  rw [if_neg (fun hne => hne hoffset)]
  rcases hfound : pool.sizeClass? address.chunkSize with _ | found
  · right
    refine ⟨?_, rfl⟩
    unfold isUsed sizeClass
    rw [hfound, Option.getD_none, SizeClass.isUsed_fresh]
  have hclass := sizeClass_of_some hfound
  rcases hserves.valid.free_cases handle address.chainIndex address.slot with
    ⟨hused, next, hcall, hfreed⟩ | ⟨hfree, hcall⟩
  · left
    refine ⟨hused, _, ?_, hv.freed_setSizeClass ha hfreed⟩
    rw [hclass] at hserves hused hcall
    have hlt : address.slot < found.slotCount := by
      unfold SizeClass.isUsed at hused
      rw [Option.any_eq_true] at hused
      obtain ⟨slab, hslab, hflag⟩ := hused
      exact (hserves.valid.slab_valid _ slab hslab).lt_slotCount hflag
    simp only [if_pos hlt, hcall]
    rfl
  · right
    rw [hclass] at hcall
    refine ⟨hfree, ?_⟩
    simp only [hcall]
    split <;> rfl

/-! ### Access -/

theorem liveSlab_cases (pool : ChunkPool) (handle : Handle) (address : ChunkAddress) :
    (pool.isUsed address = true ∧ ∃ found slab,
        pool.sizeClass? address.chunkSize = some found ∧
        found.slab? address.chainIndex = some slab ∧ slab.isUsed address.slot = true ∧
        pool.liveSlab handle address = .ok slab) ∨
      (pool.isUsed address = false ∧
        pool.liveSlab handle address = .error (.invalidHandle handle)) := by
  rcases hused : pool.isUsed address
  · right
    refine ⟨rfl, ?_⟩
    unfold isUsed sizeClass at hused
    unfold liveSlab
    rcases hfound : pool.sizeClass? address.chunkSize with _ | found
    · rfl
    · rw [hfound, Option.getD_some, SizeClass.isUsed] at hused
      rw [Option.bind_some]
      rcases hslab : found.slab? address.chainIndex with _ | slab
      · rfl
      · rw [hslab, Option.any_some] at hused
        simp only [hused, Bool.false_eq_true, if_false]
  · left
    obtain ⟨found, slab, hfound, hslab, hflag⟩ := exists_slab_of_isUsed hused
    refine ⟨rfl, found, slab, hfound, hslab, hflag, ?_⟩
    unfold liveSlab
    rw [hfound, Option.bind_some, hslab]
    simp only [hflag, if_true]

/-- The slab of a live chunk is in the chain of its size class, and has the slot in use. -/
theorem of_liveSlab {handle : Handle} {slab : Slab}
    (h : pool.liveSlab handle address = .ok slab) :
    ∃ found, pool.sizeClass? address.chunkSize = some found ∧
      found.slab? address.chainIndex = some slab ∧ slab.isUsed address.slot = true := by
  rcases liveSlab_cases pool handle address with
    ⟨-, found, slab', hfound, hslab, hused, hok⟩ | ⟨-, herror⟩
  · obtain rfl : slab = slab' := Except.ok.inj (h.symm.trans hok)
    exact ⟨found, hfound, hslab, hused⟩
  · exact nomatch h.symm.trans herror

/-- The size of a chunk in use is told at its start. -/
theorem sizeOf_eq_ok_iff {handle : Handle} {n : Nat} :
    pool.sizeOf handle address = .ok n ↔
      address.slotOffset = 0 ∧ pool.isUsed address = true ∧ address.chunkSize = n := by
  unfold sizeOf
  by_cases hoffset : address.slotOffset = 0
  · rw [if_neg (fun hne => hne hoffset)]
    rcases liveSlab_cases pool handle address with
      ⟨hused, _, slab, -, -, -, hlive⟩ | ⟨hfree, hlive⟩
    · simp [hlive, Except.map, hoffset, hused]
    · simp [hlive, Except.map, hfree]
  · rw [if_pos hoffset]
    constructor
    · intro h
      cases h
    · intro h
      exact absurd h.1 hoffset

/-- A range that ends at a word is refused for its length before its slot is looked at. -/
theorem slabFor_eq {handle : Handle} {length : Nat}
    (h : address.slotOffset + length < 0x10000000000000000) :
    pool.slabFor handle address length =
      if address.chunkSize < address.slotOffset + length then .error (.outOfBounds handle length)
      else pool.liveSlab handle address := by
  exact if_neg (Nat.not_le.mpr h)

/-- **Access is granted to the bytes of one slot in use.** -/
theorem slabFor_eq_ok_iff {handle : Handle} {length : Nat} (ha : address.sizeIndex < 0x400)
    {slab : Slab} : pool.slabFor handle address length = .ok slab ↔
      address.slotOffset + length ≤ address.chunkSize ∧
        pool.liveSlab handle address = .ok slab := by
  have hsize := (isChunk_chunkSize ha).2
  unfold ChunkSize.greatest at hsize
  by_cases hwrap : address.slotOffset + length < 0x10000000000000000
  · rw [slabFor_eq hwrap]
    split
    · next hlt => exact ⟨nofun, fun hc => by omega⟩
    · next hge => exact ⟨fun h => ⟨by omega, h⟩, fun h => h.2⟩
  · refine ⟨fun h => ?_, fun h => by omega⟩
    rw [slabFor, if_pos (Nat.not_lt.mp hwrap)] at h
    cases h

theorem exists_slabFor_iff {handle : Handle} {length : Nat} (ha : address.sizeIndex < 0x400) :
    (∃ slab, pool.slabFor handle address length = .ok slab) ↔
      pool.isUsed address = true ∧ address.slotOffset + length ≤ address.chunkSize := by
  rcases liveSlab_cases pool handle address with
    ⟨hused, _, slab, -, -, -, hlive⟩ | ⟨hfree, herror⟩
  · constructor
    · rintro ⟨found, hfound⟩
      exact ⟨hused, ((slabFor_eq_ok_iff ha).mp hfound).1⟩
    · rintro ⟨-, hle⟩
      exact ⟨slab, (slabFor_eq_ok_iff ha).mpr ⟨hle, hlive⟩⟩
  · constructor
    · rintro ⟨found, hfound⟩
      have hlive := ((slabFor_eq_ok_iff ha).mp hfound).2
      rw [herror] at hlive
      cases hlive
    · rintro ⟨hused, -⟩
      rw [hfree] at hused
      cases hused

/-- A refused range is too long for its chunk, or no chunk is there. -/
theorem eq_of_slabFor_eq_error {handle : Handle} {length : Nat} {e : HeapError}
    (hwrap : address.slotOffset + length < 0x10000000000000000)
    (h : pool.slabFor handle address length = .error e) :
    e = if address.chunkSize < address.slotOffset + length then .outOfBounds handle length
      else .invalidHandle handle := by
  rw [slabFor_eq hwrap] at h
  split at h
  · next hlong => rw [if_pos hlong]; cases h; rfl
  · next hfit =>
    rw [if_neg hfit]
    rcases liveSlab_cases pool handle address with ⟨-, _, slab, -, -, -, hok⟩ | ⟨-, herror⟩
    · rw [hok] at h; cases h
    · rw [herror] at h; cases h; rfl

theorem get_of_liveSlab {handle : Handle} {slab : Slab}
    (h : pool.liveSlab handle address = .ok slab) (p : Nat) :
    slab.buffer.get p = pool.byteAt { address with position := p } := by
  obtain ⟨found, hfound, hslab, -⟩ := of_liveSlab h
  change slab.buffer.get p = (pool.sizeClass address.chunkSize).byteAt address.chainIndex p
  unfold SizeClass.byteAt
  rw [sizeClass_of_some hfound, hslab]
  rfl

/-- The bytes read are those at the addresses of the range. -/
theorem read_eq {handle : Handle} {length : Nat} {slab : Slab}
    (h : pool.slabFor handle address length = .ok slab)
    (hlive : pool.liveSlab handle address = .ok slab) :
    pool.read handle address length = .ok ((List.range' address.position length).map fun p =>
      pool.byteAt { address with position := p }) := by
  unfold read Buffer.read
  rw [h]
  exact congrArg Except.ok (List.map_congr_left fun p _ => get_of_liveSlab hlive p)

/-- A write in one size class is one in the pool. -/
theorem Valid.written_setSizeClass (hv : pool.Valid) (ha : address.sizeIndex < 0x400)
    {bytes : List UInt8} {found next : SizeClass}
    (hfound : pool.sizeClass? address.chunkSize = some found)
    (hw : SizeClass.Written found address.chainIndex address.position bytes next) :
    Written pool address bytes (pool.setSizeClass address.chunkSize next) := by
  have hserves := hv.serves_of_some hfound
  have hclass := sizeClass_of_some hfound
  have hnext : pool.Serves address.chunkSize next :=
    ⟨hw.valid, hw.chunkSize_eq.trans hserves.chunkSize_eq,
      hw.slotCount_eq.trans hserves.slotCount_eq, hw.length_eq.symm ▸ hserves.length_le⟩
  refine ⟨hv.setSizeClass (isChunk_chunkSize ha) hnext, ?_, fun b => ?_, fun b => ?_⟩
  · funext size
    unfold occupancy
    rw [sizeClass?_setSizeClass]
    split
    · next hsize => rw [hsize, hfound, Option.map_some, Option.map_some, hw.occupancy_eq]
    · rfl
  · unfold isUsed
    rw [sizeClass_setSizeClass]
    split
    · next hb => rw [hw.isUsed_eq, hb, hclass]
    · rfl
  · unfold byteAt
    rw [sizeClass_setSizeClass]
    by_cases hb : b.chunkSize = address.chunkSize
    · have hindex : b.sizeIndex = address.sizeIndex := Nat.succ.inj hb
      rw [if_pos hb, hw.byteAt_eq, hb, hclass]
      simp only [hindex, true_and]
    · rw [if_neg hb, if_neg (fun hc => hb (congrArg Nat.succ hc.1))]

/-- **A granted write** changes the bytes that it covers. -/
theorem Valid.write_of_slabFor (hv : pool.Valid) {handle : Handle} {bytes : List UInt8}
    {slab : Slab} (ha : address.sizeIndex < 0x400)
    (h : pool.slabFor handle address bytes.length = .ok slab) :
    ∃ next, pool.write handle address bytes = .ok next ∧ Written pool address bytes next := by
  obtain ⟨hroom, hlive⟩ := (slabFor_eq_ok_iff ha).mp h
  have hsplit := address.slot_mul_add
  obtain ⟨found, hfound, hslab, hused⟩ := of_liveSlab hlive
  have hserves := hv.serves_of_some hfound
  have hclass := sizeClass_of_some hfound
  have hcs := hserves.chunkSize_eq
  have hw : found.Written address.chainIndex address.position bytes _ :=
    hserves.valid.written hslab hused (by rw [hcs]; omega) (by rw [hcs]; omega)
  refine ⟨_, ?_, hv.written_setSizeClass ha hfound hw⟩
  unfold write
  rw [h, hclass]
  rfl

/-- Every write that succeeds is one. -/
theorem Valid.written_of_write_eq_ok (hv : pool.Valid) {handle : Handle} {bytes : List UInt8}
    {next : ChunkPool} (h : pool.write handle address bytes = .ok next) :
    Written pool address bytes next := by
  rcases hslab : pool.slabFor handle address bytes.length with e | slab
  · rw [write, hslab] at h
    cases h
  have hindex : address.sizeIndex < 0x400 := by
    rcases hfound : pool.sizeClass? address.chunkSize with _ | found
    · rw [slabFor, liveSlab, hfound] at hslab
      split_ifs at hslab
      cases hslab
    · have hle := (hv.isChunk _ _ hfound).2
      unfold ChunkSize.greatest ChunkAddress.chunkSize ChunkSize.ofIndex at hle
      omega
  obtain ⟨other, hwrite, hw⟩ := hv.write_of_slabFor hindex hslab
  rw [h] at hwrite
  cases hwrite
  exact hw

end address

end ChunkPool

end HandleHeap
