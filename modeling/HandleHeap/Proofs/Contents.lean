import HandleHeap.Proofs.Frames

/-!
# What allocations hold

In every session all memory outside the live allocations is zero.  So an allocation starts out as
zeros, whatever its memory was used for before, and a reallocation holds the bytes that both sizes
have room for and zeros after them.

* `Heap.FreeSlotsClear`, `Heap.Valid.byteAt_eq_zero`: memory that is not in use;
* `Session.zeros_after`: what is handed out reads zero;
* `Heap.Moved.byteAt_target`, `Heap.Moved.byteAt_other`: the bytes after a move;
* `Session.Relocated`, `Session.reallocate_after`: a reallocation is an allocation, a copy of the
  common prefix and a release.
-/

namespace HandleHeap

/-! ### Memory that is not in use -/

theorem Slab.Valid.read_free_slot {slab : Slab} {chunkSize slotCount slot : Nat}
    (hv : slab.Valid chunkSize slotCount) (hpos : 0 < chunkSize)
    (hfree : slab.isUsed slot = false) :
    slab.buffer.read (slot * chunkSize) chunkSize = List.replicate chunkSize 0 := by
  refine List.eq_replicate_iff.mpr ⟨Buffer.length_read _ _ _, fun byte hbyte => ?_⟩
  obtain ⟨p, hp, rfl⟩ := List.mem_map.mp hbyte
  rw [List.mem_range'_1] at hp
  have hslot : p / chunkSize = slot := (div_eq_iff_of_pos hpos).mpr hp
  exact hv.clear p (by rw [hslot, hfree])

theorem SizeClass.Valid.byteAt_eq_zero {sizeClass : SizeClass} (hv : sizeClass.Valid)
    {position p : Nat} (h : sizeClass.isUsed position (p / sizeClass.chunkSize) = false) :
    sizeClass.byteAt position p = 0 := by
  unfold isUsed at h
  unfold byteAt
  rcases hslab : sizeClass.slab? position with _ | slab
  · rfl
  · rw [hslab, Option.any_some] at h
    exact (hv.slab_valid position slab hslab).clear p h

theorem ChunkPool.Valid.byteAt_eq_zero {pool : ChunkPool} (hv : pool.Valid)
    {address : ChunkAddress} (ha : address.sizeIndex < 0x400)
    (h : pool.isUsed address = false) : pool.byteAt address = 0 := by
  have hserves := hv.serves _ (isChunk_chunkSize ha)
  refine hserves.valid.byteAt_eq_zero ?_
  rw [hserves.chunkSize_eq]
  exact h

namespace Heap

/-- **Memory outside the live allocations is zero.** -/
theorem Valid.byteAt_eq_zero {heap : Heap} (hv : heap.Valid) {a : Address} (ha : a.Fits)
    (h : heap.sizeAt a = none) : heap.byteAt a = 0 := by
  rcases a with a | a
  · refine hv.chunks.byteAt_eq_zero ha.1 ?_
    by_contra hused
    rw [sizeAt_chunk_eq_some_iff.mpr ⟨eq_true_of_ne_false hused, rfl⟩] at h
    cases h
  · have hnone : heap.blocks.buffer? a.identifier = none := Option.map_eq_none_iff.mp h
    show heap.blocks.byteAt a = 0
    unfold BlockTable.byteAt
    rw [hnone]
    rfl

/-- Every slot that is not in use lies inside the buffer of its slab and holds zeros. -/
def FreeSlotsClear (heap : Heap) : Prop :=
  ∀ chunkSize sizeClass position slab, heap.chunks.sizeClass? chunkSize = some sizeClass →
    sizeClass.slab? position = some slab → ∀ slot < slab.slotCount, slab.isUsed slot = false →
      slot * chunkSize + chunkSize ≤ slab.buffer.size ∧
        slab.buffer.read (slot * chunkSize) chunkSize = List.replicate chunkSize 0

theorem Valid.freeSlotsClear {heap : Heap} (hv : heap.Valid) : heap.FreeSlotsClear := by
  intro chunkSize sizeClass position slab hclass hslab slot hslot hfree
  have hsize := hv.chunks.isChunk chunkSize sizeClass hclass
  have hserves := hv.chunks.serves_of_some hclass
  have hvalid := hserves.valid.slab_valid position slab hslab
  rw [hserves.chunkSize_eq] at hvalid
  refine ⟨hvalid.slot_le_size_of_lt ?_, hvalid.read_free_slot hsize.1 hfree⟩
  rw [← hvalid.size_used]
  exact hslot

/-- The bytes of a new allocation were zero when nothing was live there, and still are. -/
theorem Allocated.byteAt_eq_zero {heap next : Heap} (hv : heap.Valid) {handle : Handle} {n : Nat}
    (hpos : 0 < handle.toInt) (h : Allocated heap n handle.address next) {i : Nat} (hi : i < n) :
    heap.byteAt (handle.address.advance i) = 0 := by
  have hnew : next.sizeOf handle = .ok n := h.sizeOf_eq_ok hpos
  refine hv.byteAt_eq_zero (h.valid.fits_advance_base hnew hi) ?_
  rw [← sizeAt_start, start_advance_base hnew hi, h.free]

end Heap

namespace Session

theorem Sound.holds_of_bytes {s : Session} (hs : s.Sound) {b : Allocation}
    (h : s.heap.sizeOf b.base = .ok b.size) {bytes : List UInt8} (hlength : bytes.length = b.size)
    (hbytes : ∀ i < b.size, s.heap.byteAt (b.base.address.advance i) = bytes[i]?.getD 0) :
    s.Holds b bytes := by
  have hcontent : s.content b = bytes := by
    unfold content
    refine List.ext_getElem (by simp [hlength]) fun i hi hi' => ?_
    rw [List.getElem_map, List.getElem_range, hbytes i (by omega), List.getElem?_eq_getElem hi']
    rfl
  rw [← hcontent]
  exact hs.holds_content h

theorem Sound.holds_zeros {s : Session} (hs : s.Sound) {size : Int} (hlow : 1 ≤ size)
    {handle : Handle} (hok : (s.heap.call (.allocate size)).1 = .ok (some handle)) :
    (s.next (.allocate size)).Holds ⟨handle, size.toNat⟩ (List.replicate size.toNat 0) := by
  have ht := hs.next (.allocate size)
  rcases hs.allocate_cases size with
    ⟨-, hzero, -⟩ | ⟨target, next, hanswer, -, hpos, ha, hnext⟩ | ⟨e, hanswer, -⟩
  · omega
  · rw [hanswer] at hok
    cases hok
    rw [hnext] at ht ⊢
    have hnew : next.sizeOf handle = .ok size.toNat := ha.sizeOf_eq_ok hpos
    refine ht.holds_of_bytes hnew List.length_replicate fun i hi => ?_
    show next.byteAt _ = _
    rw [ha.byteAt_eq, ha.byteAt_eq_zero hs.valid hpos hi, List.getElem?_replicate, if_pos hi]
    rfl
  · exact nomatch hanswer.symm.trans hok

/-- **Fresh memory is zero.**  After any calls, every slot that is not in use holds zeros, and so
does what a successful allocation of at least one byte hands out. -/
theorem zeros_after {settings : Settings} (h : settings.validate = .ok ()) (calls : List Call) :
    (after settings calls).heap.FreeSlotsClear ∧
      ∀ size handle, 1 ≤ size →
        ((after settings calls).heap.call (.allocate size)).1 = .ok (some handle) →
        ((after settings calls).next (.allocate size)).Holds ⟨handle, size.toNat⟩
          (List.replicate size.toNat 0) := by
  have hs := sound_after h calls
  exact ⟨hs.valid.freeSlotsClear, fun size handle hlow hok => hs.holds_zeros hlow hok⟩

/-- A run that makes two chunks in one slab and fills the first of them. -/
def paired : List Call := [.allocate 16, .allocate 16, .fill (.ofSlot 15 0 0) 16 255]

/-- A slot that was filled and given back, in a slab that stays in use. -/
theorem zeros_after_reuse :
    (after {} (paired ++ [.free (.ofSlot 15 0 0)])).heap.FreeSlotsClear ∧
      ((after {} (paired ++ [.free (.ofSlot 15 0 0)])).next (.allocate 16)).Holds
        ⟨.ofSlot 15 0 0, 16⟩ (List.replicate 16 0) := by
  obtain ⟨hclear, hzeros⟩ := @zeros_after {} rfl (paired ++ [.free (.ofSlot 15 0 0)])
  exact ⟨hclear, hzeros 16 (.ofSlot 15 0 0) (by decide) (by decide +kernel)⟩

end Session

/-! ### Moves -/

namespace Heap

section written
variable {heap next : Heap} {handle : Handle} {bytes : List UInt8} {n : Nat}

theorem Written.byteAt_advance {a : Address} (h : Written heap a bytes next) {i : Nat}
    (ha : (a.advance i).Fits) :
    next.byteAt (a.advance i) = bytes[i]?.getD (heap.byteAt (a.advance i)) := by
  rw [h.byteAt_eq _ ha, Address.number_advance, Nat.add_sub_cancel_left]
  by_cases hi : i < bytes.length
  · rw [if_pos ⟨by omega, by omega⟩, List.getElem?_eq_getElem hi]
    rfl
  · rw [if_neg (by omega), List.getElem?_eq_none (by omega)]
    rfl

/-- A write inside one allocation leaves the others alone. -/
theorem Written.byteAt_of_start_ne (hv : heap.Valid) (hsize : heap.sizeOf handle = .ok n)
    (hle : bytes.length ≤ n) (h : Written heap handle.address bytes next) {b : Address}
    (hb : b.Fits) (hne : b.start ≠ handle.address) : next.byteAt b = heap.byteAt b := by
  obtain ⟨hpos, hinner, hlive⟩ := Heap.sizeOf_eq_ok_iff.mp hsize
  rw [h.byteAt_eq b hb, if_neg]
  rintro ⟨hlow, hhigh⟩
  exact hne (hv.start_eq_of_mem (Handle.address_fits hpos) hb hlive hinner hlow (by omega)).1

end written

section moved
variable {heap next : Heap} {source target other : Handle} {size : Int} {n m kept : Nat}

theorem Moved.ne_of_sizeOf (h : Moved heap source size kept target next)
    (hother : heap.sizeOf other = .ok m) : other ≠ target := by
  obtain ⟨_, _, -, -, ha, -⟩ := h
  exact ha.ne_of_sizeOf hother

variable (hsource : heap.sizeOf source = .ok n) (h : Moved heap source size kept target next)
include hsource h

/-- A move puts one allocation in the place of another. -/
theorem Moved.sizeOf_eq_ok_iff : next.sizeOf other = .ok m ↔
    other = target ∧ m = size.toNat ∨ heap.sizeOf other = .ok m ∧ other ≠ source := by
  have hne := h.ne_of_sizeOf hsource
  obtain ⟨grown, filled, -, hpos, ha, hw, hf⟩ := h
  rw [hf.sizeOf_eq_ok_iff (pos_of_sizeOf hsource), hw.sizeOf_eq_ok_iff, ha.sizeOf_eq_ok_iff hpos]
  constructor
  · rintro ⟨hother, hnew | hold⟩
    · exact Or.inl hnew
    · exact Or.inr ⟨hold, hother⟩
  · rintro (⟨rfl, hm⟩ | ⟨hold, hother⟩)
    · exact ⟨hne.symm, Or.inl ⟨rfl, hm⟩⟩
    · exact ⟨hother, Or.inr hold⟩

/-- The new allocation holds the bytes that are kept, and zeros after them. -/
theorem Moved.byteAt_target (hv : heap.Valid) {i : Nat} (hi : i < size.toNat) :
    next.byteAt (target.address.advance i)
      = if i < kept then heap.byteAt (source.address.advance i) else 0 := by
  have hne := h.ne_of_sizeOf hsource
  obtain ⟨grown, filled, -, hpos, ha, hw, hf⟩ := h
  have hnew : grown.sizeOf target = .ok size.toNat := ha.sizeOf_eq_ok hpos
  have hother : target.address ≠ source.address := fun heq =>
    hne (Handle.eq_of_address_eq hpos (pos_of_sizeOf hsource) heq).symm
  -- the release clears the old allocation only, and the write puts what is kept over zeros; it
  -- reads the old bytes after the new allocation is made, which has changed none of them
  rw [hf.byteAt_eq, start_advance_base hnew hi, if_neg hother,
    hw.byteAt_advance (ha.valid.fits_advance_base hnew hi), ha.byteAt_eq,
    ha.byteAt_eq_zero hv hpos hi]
  by_cases hkept : i < kept
  · rw [if_pos hkept, List.getElem?_map, List.getElem?_range hkept]
    exact ha.byteAt_eq _
  · rw [if_neg hkept, List.getElem?_map, List.getElem?_eq_none (by simpa using hkept)]
    rfl

theorem Moved.byteAt_other (hv : heap.Valid) (hle : kept ≤ size.toNat)
    (hlive : heap.sizeOf other = .ok m) (hne : other ≠ source) {i : Nat} (hi : i < m) :
    next.byteAt (other.address.advance i) = heap.byteAt (other.address.advance i) := by
  have htarget := h.ne_of_sizeOf hlive
  obtain ⟨grown, filled, -, hpos, ha, hw, hf⟩ := h
  have hnew : grown.sizeOf target = .ok size.toNat := ha.sizeOf_eq_ok hpos
  have hstart := start_advance_base hlive hi
  -- neither the write nor the release reaches beyond the allocation at whose base it begins
  have hapart : ∀ {handle : Handle}, 0 < handle.toInt → other ≠ handle →
      (other.address.advance i).start ≠ handle.address := fun hhandle hother heq =>
    hother (Handle.eq_of_address_eq (pos_of_sizeOf hlive) hhandle (hstart.symm.trans heq))
  rw [hf.byteAt_eq, if_neg (hapart (pos_of_sizeOf hsource) hne),
    hw.byteAt_of_start_ne ha.valid hnew (by simpa using hle) (hv.fits_advance_base hlive hi)
      (hapart hpos htarget), ha.byteAt_eq]

end moved

theorem Valid.reallocate_zero {heap : Heap} (hv : heap.Valid) {handle : Handle} {n : Nat}
    (h : heap.sizeOf handle = .ok n) : ∃ next, heap.free handle = .ok next ∧
      heap.reallocate handle 0 = (.ok Handle.null, next) := by
  obtain ⟨next, hfree, -⟩ := hv.exists_free h
  refine ⟨next, hfree, ?_⟩
  unfold reallocate
  rw [if_neg (ne_null_of_sizeOf h), h]
  simp only [allocate, if_true, hfree]

end Heap

namespace Session

/-! ### Reallocation -/

/-- The second session is the first with `b` moved to an allocation of `size` bytes at `target`.
That one holds the bytes of `b` as far as it has room for them, and zeros after them, and what is
live beside `b` has the same size and bytes as before. -/
structure Relocated (s : Session) (b : Allocation) (size : Nat) (target : Handle) (t : Session) :
    Prop where
  ne : target ≠ b.base
  live_iff : ∀ c, c ∈ t.live ↔ c = ⟨target, size⟩ ∨ c ∈ s.live ∧ c.base ≠ b.base
  gone : ∀ n, t.heap.sizeOf b.base ≠ .ok n
  content : ∃ old, s.Holds b old ∧ t.Holds ⟨target, size⟩
    (old.take (min b.size size) ++ List.replicate (size - b.size) 0)
  kept : ∀ c ∈ s.live, c.base ≠ b.base → ∃ bytes, s.Holds c bytes ∧ t.Holds c bytes

theorem getElem?_take_content (s : Session) (b : Allocation) {size i : Nat} (hi : i < size) :
    ((s.content b).take (min b.size size) ++ List.replicate (size - b.size) 0)[i]?.getD 0
      = if i < min b.size size then s.heap.byteAt (b.base.address.advance i) else 0 := by
  have hlength : ((s.content b).take (min b.size size)).length = min b.size size := by
    simp [content]
  by_cases hkept : i < min b.size size
  · have hold : i < b.size := by omega
    rw [if_pos hkept, List.getElem?_append_left (by omega), List.getElem?_take_of_lt hkept]
    unfold content
    rw [List.getElem?_map, List.getElem?_range hold]
    rfl
  · rw [if_neg hkept, List.getElem?_append_right (by omega), List.getElem?_replicate]
    split <;> rfl

theorem Sound.relocated {s : Session} (hs : s.Sound) {b : Allocation} (hb : b ∈ s.live)
    {size : Int} {target : Handle} {next : Heap}
    (hmoved : Heap.Moved s.heap b.base size (min b.size size.toNat) target next)
    (ht : Sound ⟨next, Allocation.enter (Allocation.strike s.live b.base) target size⟩) :
    Relocated s b size.toNat target
      ⟨next, Allocation.enter (Allocation.strike s.live b.base) target size⟩ := by
  set t : Session := ⟨next, Allocation.enter (Allocation.strike s.live b.base) target size⟩
  have hsource := (hs.mem_live_iff b).mp hb
  have hne := hmoved.ne_of_sizeOf hsource
  have hsizes : ∀ {other : Handle} {m : Nat}, next.sizeOf other = .ok m ↔
      other = target ∧ m = size.toNat ∨ s.heap.sizeOf other = .ok m ∧ other ≠ b.base :=
    hmoved.sizeOf_eq_ok_iff hsource
  have hnew : next.sizeOf target = .ok size.toNat := hsizes.mpr (Or.inl ⟨rfl, rfl⟩)
  have hlive : ∀ c, c ∈ t.live ↔ c = ⟨target, size.toNat⟩ ∨ c ∈ s.live ∧ c.base ≠ b.base := by
    intro c
    rw [Allocation.mem_enter_iff, Allocation.mem_strike_iff,
      and_iff_right (Heap.ne_null_of_sizeOf hnew)]
  have hgone : ∀ n, t.heap.sizeOf b.base ≠ .ok n := by
    intro n hn
    rcases hsizes.mp hn with ⟨heq, -⟩ | ⟨-, hself⟩
    · exact hne heq
    · exact hself rfl
  have hcontent : t.Holds ⟨target, size.toNat⟩ ((s.content b).take (min b.size size.toNat)
      ++ List.replicate (size.toNat - b.size) 0) := by
    refine ht.holds_of_bytes hnew ?_ fun i hi => ?_
    · simp only [content, List.length_append, List.length_take, List.length_map,
        List.length_range, List.length_replicate]
      omega
    · rw [getElem?_take_content s b hi]
      exact hmoved.byteAt_target hsource hs.valid hi
  have hkept : ∀ c ∈ s.live, c.base ≠ b.base → t.Holds c (s.content c) := by
    intro c hc hother
    have hold := (hs.mem_live_iff c).mp hc
    refine ht.holds_of_byteAt_eq (hsizes.mpr (Or.inr ⟨hold, hother⟩)) fun i hi => ?_
    exact hmoved.byteAt_other hsource hs.valid (Nat.min_le_right _ _) hold hother hi
  exact ⟨hne.symm, hlive, hgone, ⟨s.content b, hs.holds_content hsource, hcontent⟩,
    fun c hc hother =>
      ⟨s.content c, hs.holds_content ((hs.mem_live_iff c).mp hc), hkept c hc hother⟩⟩

/-- Where an allocation of the new size succeeds, so does the reallocation, with the same answer. -/
theorem Sound.reallocate_live {s : Session} (hs : s.Sound) {b : Allocation} (hb : b ∈ s.live)
    {size : Int} (hlow : 1 ≤ size) {target : Handle}
    (hok : (s.heap.call (.allocate size)).1 = .ok (some target)) :
    (s.heap.call (.reallocate b.base size)).1 = .ok (some target) ∧
      s.Relocated b size.toNat target (s.next (.reallocate b.base size)) := by
  have hsource := (hs.mem_live_iff b).mp hb
  have ht := hs.next (.reallocate b.base size)
  rcases hs.reallocate_cases b.base size with
    ⟨hnull, -⟩ | ⟨_, _, -, hzero, -⟩ | ⟨n, made, next, hanswer, -, hn, hmoved, hnext⟩ |
    ⟨e, -, -, hcause | hcause⟩
  · exact absurd hnull (Heap.ne_null_of_sizeOf hsource)
  · omega
  · -- the move begins with the very allocation that is known to succeed
    have hmade : (s.heap.call (.allocate size)).1 = .ok (some made) := by
      obtain ⟨grown, _, hcall, -⟩ := hmoved
      show (Prod.map (Except.map some) id (s.heap.allocate size)).1 = _
      rw [hcall]
      rfl
    rw [hmade] at hok
    cases hok
    rw [hsource] at hn
    cases hn
    rw [hnext] at ht ⊢
    exact ⟨hanswer, hs.relocated hb hmoved ht⟩
  · exact nomatch hcause.symm.trans hsource
  · exact nomatch hcause.symm.trans hok

theorem Sound.reallocate_zero {s : Session} (hs : s.Sound) {b : Allocation} (hb : b ∈ s.live) :
    s.heap.call (.reallocate b.base 0)
        = (.ok (some Handle.null), (s.heap.call (.free b.base)).2) ∧
      s.next (.reallocate b.base 0) = s.next (.free b.base) := by
  obtain ⟨next, hfree, hcall⟩ := hs.valid.reallocate_zero ((hs.mem_live_iff b).mp hb)
  unfold Session.next Heap.call
  simp only [hfree, hcall]
  exact ⟨rfl, rfl⟩

/-- **Reallocation is allocation, copy and release.**  After any calls, an allocation that is live
is moved wherever an allocation of the new size would be made; to no bytes it is released; and a
reallocation of the null handle is an allocation. -/
theorem reallocate_after {settings : Settings} (h : settings.validate = .ok ())
    (calls : List Call) :
    (∀ b ∈ (after settings calls).live, ∀ size target, 1 ≤ size →
        ((after settings calls).heap.call (.allocate size)).1 = .ok (some target) →
        ((after settings calls).heap.call (.reallocate b.base size)).1 = .ok (some target) ∧
          (after settings calls).Relocated b size.toNat target
            ((after settings calls).next (.reallocate b.base size))) ∧
      (∀ b ∈ (after settings calls).live,
        (after settings calls).heap.call (.reallocate b.base 0)
            = (.ok (some Handle.null), ((after settings calls).heap.call (.free b.base)).2) ∧
          (after settings calls).next (.reallocate b.base 0)
            = (after settings calls).next (.free b.base)) ∧
      ∀ size, (after settings calls).heap.call (.reallocate Handle.null size)
            = (after settings calls).heap.call (.allocate size) ∧
          (after settings calls).next (.reallocate Handle.null size)
            = (after settings calls).next (.allocate size) := by
  have hs := sound_after h calls
  refine ⟨fun b hb size target hlow hok => ?_, fun b hb => ?_, fun size => ?_⟩
  · exact hs.reallocate_live hb hlow hok
  · exact hs.reallocate_zero hb
  · exact hs.reallocate_null size

/-- The first of two chunks in one slab, grown into a block of its own and released. -/
theorem reallocate_after_growth :
    ((after {} paired).heap.call (.reallocate (.ofSlot 15 0 0) 2000)).1
        = .ok (some (.ofBlock 1 0)) ∧
      (after {} paired).Relocated ⟨.ofSlot 15 0 0, 16⟩ 2000 (.ofBlock 1 0)
        ((after {} paired).next (.reallocate (.ofSlot 15 0 0) 2000)) ∧
      (after {} paired).next (.reallocate (.ofSlot 15 0 0) 0)
        = (after {} paired).next (.free (.ofSlot 15 0 0)) := by
  have hlive : (⟨.ofSlot 15 0 0, 16⟩ : Allocation) ∈ (after {} paired).live := by decide +kernel
  have hroom : ((after {} paired).heap.call (.allocate 2000)).1 = .ok (some (.ofBlock 1 0)) := by
    decide +kernel
  obtain ⟨hmove, hrelease, -⟩ := @reallocate_after {} rfl paired
  obtain ⟨hanswer, hmoved⟩ := hmove _ hlive 2000 _ (by decide) hroom
  exact ⟨hanswer, hmoved, (hrelease _ hlive).2⟩

end Session

end HandleHeap
