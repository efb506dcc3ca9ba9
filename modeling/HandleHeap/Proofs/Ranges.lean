import HandleHeap.Proofs.Sessions

/-!
# The ranges of live allocations

In every session the live allocations lie apart from each other on the line of handles, and an
access is granted when its range lies in one of theirs.

* `Session.Separated`, `Session.separated_after`: no two live allocations share a handle, and what
  is handed out next lies in none of them;
* `Session.refusal`, `Session.Decides`, `Session.access_decides`: access is granted within a live
  allocation, and what is answered elsewhere.
-/

namespace HandleHeap

namespace Session

/-! ### Separation -/

/-- The live allocations have handles of their own, small ones with bit 62 set and large ones with
bit 62 clear, and ranges of positive handles that do not meet. -/
structure Separated (s : Session) : Prop where
  base_pos : ∀ b ∈ s.live, 1 ≤ b.base.toInt
  bit_iff : ∀ b ∈ s.live, b.base.word.testBit 62 = true ↔ b.size ≤ 1024
  range_subset : ∀ b ∈ s.live, b.range ⊆ Set.Ico 1 0x8000000000000000
  pairwise : s.live.Pairwise fun b c => b.base ≠ c.base ∧ Disjoint b.range c.range

theorem Sound.range_subset {s : Session} (hs : s.Sound) {b : Allocation} (hb : b ∈ s.live) :
    b.range ⊆ Set.Ico 1 0x8000000000000000 := by
  have hsize := (hs.mem_live_iff b).mp hb
  have hpos := Heap.pos_of_sizeOf hsize
  have hend := hs.valid.base_add_le hsize
  exact Set.Ico_subset_Ico (by omega) (by omega)

/-- Two live allocations that share a handle are one. -/
theorem Sound.base_eq_of_mem {s : Session} (hs : s.Sound) {b c : Allocation} (hb : b ∈ s.live)
    (hc : c ∈ s.live) {x : Int} (hxb : x ∈ b.range) (hxc : x ∈ c.range) : b.base = c.base := by
  have hsizeb := (hs.mem_live_iff b).mp hb
  have hsizec := (hs.mem_live_iff c).mp hc
  -- every number in between is that of a handle, which points into both
  obtain ⟨hlow, hhigh⟩ := hs.range_subset hb hxb
  have hlt : x.toNat < 0x8000000000000000 := by omega
  have hword : (Handle.ofWord x.toNat).toInt = x := by
    rw [Handle.toInt_ofWord hlt]
    omega
  rw [← hword] at hxb hxc
  have hstartb := (hs.valid.address_of_mem hsizeb hxb.1 hxb.2).2.1
  have hstartc := (hs.valid.address_of_mem hsizec hxc.1 hxc.2).2.1
  exact Handle.eq_of_address_eq (Heap.pos_of_sizeOf hsizeb) (Heap.pos_of_sizeOf hsizec)
    (hstartb.symm.trans hstartc)

theorem Sound.separated {s : Session} (hs : s.Sound) : s.Separated := by
  refine ⟨fun b hb => ?_, fun b hb => ?_, fun b hb => hs.range_subset hb, ?_⟩
  · exact Heap.pos_of_sizeOf ((hs.mem_live_iff b).mp hb)
  · obtain ⟨hpos, -, hsize⟩ := Heap.sizeOf_eq_ok_iff.mp ((hs.mem_live_iff b).mp hb)
    have hiff := hs.valid.isChunk_iff_size (Handle.address_fits hpos) hsize
    rw [Handle.isChunk_address] at hiff
    exact hiff
  · refine (List.pairwise_map.mp hs.nodup).imp_of_mem fun {b c} hb hc hne => ⟨hne, ?_⟩
    rw [Set.disjoint_left]
    intro x hxb hxc
    exact hne (hs.base_eq_of_mem hb hc hxb hxc)

/-- What is handed out lies in no live allocation. -/
theorem Sound.allocate_not_mem {s : Session} (hs : s.Sound) {size : Int} (hsize : 1 ≤ size)
    {handle : Handle} (hok : (s.heap.call (.allocate size)).1 = .ok (some handle))
    {b : Allocation} (hb : b ∈ s.live) : handle.toInt ∉ b.range := by
  intro hmem
  rcases hs.allocate_cases size with
    ⟨-, hzero, -⟩ | ⟨target, next, hanswer, -, -, ha, -⟩ | ⟨e, hanswer, -⟩
  · omega
  · rw [hanswer] at hok
    cases hok
    obtain ⟨-, -, -, hlive⟩ :=
      hs.valid.address_of_mem ((hs.mem_live_iff b).mp hb) hmem.1 hmem.2
    rw [ha.free] at hlive
    cases hlive
  · rw [hanswer] at hok
    cases hok

/-- **Live allocations never share a handle.**  After any calls they lie apart from each other, and
a successful allocation of at least one byte answers a handle outside all of them. -/
theorem separated_after {settings : Settings} (h : settings.validate = .ok ())
    (calls : List Call) :
    (after settings calls).Separated ∧
      ∀ size handle, 1 ≤ size →
        ((after settings calls).heap.call (.allocate size)).1 = .ok (some handle) →
        ∀ b ∈ (after settings calls).live, handle.toInt ∉ b.range := by
  have hs := sound_after h calls
  refine ⟨hs.separated, fun size handle hsize hok b hb => ?_⟩
  exact hs.allocate_not_mem hsize hok hb

/-- A small allocation and a large one, where one of the two small ones has been given back. -/
theorem separated_after_release :
    (after {} [.allocate 16, .allocate 2000, .allocate 16, .free (.ofSlot 15 0 0)]).Separated ∧
      ∀ size handle, 1 ≤ size →
        ((after {} [.allocate 16, .allocate 2000, .allocate 16,
          .free (.ofSlot 15 0 0)]).heap.call (.allocate size)).1 = .ok (some handle) →
        ∀ b ∈ (after {} [.allocate 16, .allocate 2000, .allocate 16,
          .free (.ofSlot 15 0 0)]).live, handle.toInt ∉ b.range :=
  separated_after rfl _

/-! ### Access -/

/-- The answer to an access that is not granted. -/
def refusal (s : Session) (handle : Handle) (length : Nat) : HeapError :=
  if handle.toInt = 0 then .nullHandle
  else if handle.toInt < 0 then .invalidHandle handle
  else if handle.word.testBit 62 then
    if handle.sizeIndex + 1 < handle.offset % (handle.sizeIndex + 1) + length
    then .outOfBounds handle length
    else .invalidHandle handle
  else
    if ∃ b ∈ s.live, b.base.word.testBit 62 = false ∧ b.base.identifier = handle.identifier
    then .outOfBounds handle length
    else .invalidHandle handle

/-- The outcome of an access: granted within a live allocation, refused elsewhere. -/
structure Decides (s : Session) (handle : Handle) (length : Nat)
    (outcome : Except HeapError Unit) : Prop where
  granted_iff : outcome = .ok () ↔
    ∃ b ∈ s.live, Set.Ico handle.toInt (handle.toInt + length) ⊆ b.range
  refused : ∀ e, outcome = .error e → e = s.refusal handle length

/-- A range within a live allocation is one that stays within the memory at its start. -/
theorem Sound.exists_range_iff {s : Session} (hs : s.Sound) {handle : Handle} {length : Nat}
    (hlow : 1 ≤ length) :
    (∃ b ∈ s.live, Set.Ico handle.toInt (handle.toInt + length) ⊆ b.range) ↔
      s.heap.checkRange handle length = .ok () := by
  have hne : handle.toInt < handle.toInt + length := by omega
  rw [Heap.checkRange_eq_ok_iff]
  constructor
  · rintro ⟨b, hb, hsub⟩
    obtain ⟨hle, hend⟩ := (Set.Ico_subset_Ico_iff hne).mp hsub
    have hsize := (hs.mem_live_iff b).mp hb
    obtain ⟨hpos, -, hinner, hlive⟩ := hs.valid.address_of_mem hsize hle (by omega)
    exact ⟨hpos, b.size, hlive, by omega⟩
  · rintro ⟨hpos, n, hlive, hle⟩
    obtain ⟨base, -, hsize, hbase⟩ := Heap.exists_base hpos hlive
    refine ⟨⟨base, n⟩, (hs.mem_live_iff _).mpr hsize, ?_⟩
    show Set.Ico handle.toInt (handle.toInt + length) ⊆ Set.Ico base.toInt (base.toInt + n)
    exact Set.Ico_subset_Ico (by omega) (by omega)

/-- The buffers of a heap are those of the large live allocations. -/
theorem Sound.exists_block_iff {s : Session} (hs : s.Sound) {handle : Handle}
    (hpos : 0 < handle.toInt) (hblock : handle.word.testBit 62 = false) :
    (∃ b ∈ s.live, b.base.word.testBit 62 = false ∧ b.base.identifier = handle.identifier) ↔
      (s.heap.blocks.buffer? handle.identifier).isSome = true := by
  have haddress : ∀ other : Handle, other.word.testBit 62 = false →
      other.address = .block ⟨other.identifier, other.offset⟩ := fun other hother =>
    if_neg (by rw [show other.isChunk = false from hother]; decide)
  constructor
  · rintro ⟨b, hb, hbit, hid⟩
    have hsize := (Heap.sizeOf_eq_ok_iff.mp ((hs.mem_live_iff b).mp hb)).2.2
    rw [haddress _ hbit, Heap.sizeAt_block_eq_some_iff] at hsize
    obtain ⟨buffer, hbuffer, -⟩ := hsize
    rw [← hid, show s.heap.blocks.buffer? b.base.identifier = some buffer from hbuffer]
    rfl
  · intro hsome
    obtain ⟨buffer, hbuffer⟩ := Option.isSome_iff_exists.mp hsome
    have hlive : s.heap.sizeAt handle.address = some buffer.size := by
      rw [haddress _ hblock, Heap.sizeAt_block_eq_some_iff]
      exact ⟨buffer, hbuffer, rfl⟩
    obtain ⟨base, hbase, hsize, -⟩ := Heap.exists_base hpos hlive
    rw [haddress _ hblock] at hbase
    have hbit : base.word.testBit 62 = false := by
      show base.isChunk = false
      rw [← Handle.isChunk_address, hbase]
      rfl
    rw [haddress _ hbit] at hbase
    refine ⟨⟨base, buffer.size⟩, (hs.mem_live_iff _).mpr hsize, hbit, ?_⟩
    simp only [Address.start, Address.block.injEq, BlockAddress.mk.injEq] at hbase
    exact hbase.1

theorem refusal_chunk {s : Session} {handle : Handle} {length : Nat} {e : HeapError}
    (hhigh : length ≤ 0x7fffffffffffffff) (hpos : 0 < handle.toInt)
    (hchunk : handle.word.testBit 62 = true) (h : s.heap.checkRange handle length = .error e) :
    e = if handle.sizeIndex + 1 < handle.offset % (handle.sizeIndex + 1) + length
      then .outOfBounds handle length else .invalidHandle handle := by
  have haddress : handle.address
      = .chunk ⟨handle.sizeIndex, handle.chainIndex, handle.offset⟩ := if_pos hchunk
  -- the end of the range is below the sign of a word, so it does not wrap
  have hoffset : handle.offset % (handle.sizeIndex + 1) < 0x100000000 :=
    Nat.lt_of_le_of_lt (Nat.mod_le _ _) (Nat.mod_lt _ (by decide))
  have hwrap : handle.offset % (handle.sizeIndex + 1) + length < 0x10000000000000000 := by
    omega
  unfold Heap.checkRange at h
  rw [Address.ofHandle_of_pos hpos, haddress] at h
  rcases hcall : s.heap.chunks.slabFor handle
      ⟨handle.sizeIndex, handle.chainIndex, handle.offset⟩ length with e' | slab
  · simp only [hcall] at h
    cases h
    exact ChunkPool.eq_of_slabFor_eq_error hwrap hcall
  · simp only [hcall] at h
    cases h

theorem refusal_block {s : Session} {handle : Handle} {length : Nat} {e : HeapError}
    (hpos : 0 < handle.toInt) (hblock : ¬ handle.word.testBit 62 = true)
    (h : s.heap.checkRange handle length = .error e) :
    e = if (s.heap.blocks.buffer? handle.identifier).isSome
      then .outOfBounds handle length else .invalidHandle handle := by
  have haddress : handle.address = .block ⟨handle.identifier, handle.offset⟩ := if_neg hblock
  unfold Heap.checkRange at h
  rw [Address.ofHandle_of_pos hpos, haddress] at h
  rcases hcall : s.heap.blocks.bufferFor handle ⟨handle.identifier, handle.offset⟩ length
    with e' | buffer
  · simp only [hcall] at h
    cases h
    exact BlockTable.eq_of_bufferFor_eq_error hcall
  · simp only [hcall] at h
    cases h

/-- **A refused access** is answered by what is wrong with it. -/
theorem Sound.checkRange_eq_error {s : Session} (hs : s.Sound) {handle : Handle} {length : Nat}
    (hhigh : length ≤ 0x7fffffffffffffff) {e : HeapError}
    (h : s.heap.checkRange handle length = .error e) : e = s.refusal handle length := by
  unfold refusal
  rcases Int.lt_trichotomy handle.toInt 0 with hneg | hzero | hpos
  · unfold Heap.checkRange at h
    rw [Address.ofHandle_of_neg hneg] at h
    rw [if_neg (by omega), if_pos hneg]
    cases h
    rfl
  · unfold Heap.checkRange at h
    rw [Handle.eq_null_iff.mpr hzero, Address.ofHandle_null] at h
    rw [if_pos hzero]
    cases h
    rfl
  · rw [if_neg (by omega), if_neg (by omega)]
    by_cases hchunk : handle.word.testBit 62 = true
    · rw [if_pos hchunk]
      exact refusal_chunk hhigh hpos hchunk h
    · rw [if_neg hchunk]
      simp only [hs.exists_block_iff hpos (by simpa using hchunk)]
      exact refusal_block hpos hchunk h

theorem Sound.decides {s : Session} (hs : s.Sound) (handle : Handle) {length : Nat}
    (hlow : 1 ≤ length) (hhigh : length ≤ 0x7fffffffffffffff) :
    s.Decides handle length (s.heap.checkRange handle length) :=
  ⟨(hs.exists_range_iff hlow).symm, fun _ he => hs.checkRange_eq_error hhigh he⟩

/-- **Access is containment.**  After any calls and for any handle, the range that is asked for, to
be checked, read or written, is granted when it lies in that of a live allocation, and refused
for its reason otherwise. -/
theorem access_decides {settings : Settings} (h : settings.validate = .ok ())
    (calls : List Call) (handle : Handle) {length : Nat} (hlow : 1 ≤ length)
    (hhigh : length ≤ 0x7fffffffffffffff) :
    (after settings calls).Decides handle length
        ((after settings calls).heap.checkRange handle length) ∧
      (after settings calls).Decides handle length
        (((after settings calls).heap.read handle length).map fun _ => ()) ∧
      ∀ bytes, bytes.length = length →
        (after settings calls).Decides handle length
          (((after settings calls).heap.write handle bytes).map fun _ => ()) := by
  have hs := sound_after h calls
  have hdecides := hs.decides handle hlow hhigh
  refine ⟨hdecides, ?_, fun bytes hbytes => ?_⟩
  · rw [Heap.read_eq]
    rcases hcheck : (after settings calls).heap.checkRange handle length with e | ⟨⟩
    · rw [hcheck] at hdecides
      exact hdecides
    · rw [hcheck] at hdecides
      exact hdecides
  · subst hbytes
    rcases hcheck : (after settings calls).heap.checkRange handle bytes.length with e | ⟨⟩
    · rw [hcheck] at hdecides
      rw [Heap.write_eq_error hcheck]
      exact hdecides
    · obtain ⟨next, hwrite, -⟩ := hs.valid.exists_write hcheck
      rw [hcheck] at hdecides
      rw [hwrite]
      exact hdecides

/-- Four bytes at the end of a chunk of sixteen. -/
theorem access_decides_at_end :
    (after {} [.allocate 16]).Decides (.ofSlot 15 0 0 + 12) 4
        ((after {} [.allocate 16]).heap.checkRange (.ofSlot 15 0 0 + 12) 4) ∧
      (after {} [.allocate 16]).Decides (.ofSlot 15 0 0 + 12) 4
        (((after {} [.allocate 16]).heap.read (.ofSlot 15 0 0 + 12) 4).map fun _ => ()) ∧
      ∀ bytes, bytes.length = 4 →
        (after {} [.allocate 16]).Decides (.ofSlot 15 0 0 + 12) 4
          (((after {} [.allocate 16]).heap.write (.ofSlot 15 0 0 + 12) bytes).map fun _ => ()) :=
  access_decides rfl _ _ (by decide) (by decide)

end Session

end HandleHeap
