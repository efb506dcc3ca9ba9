import HandleHeap.Proofs.Reliability
import HandleHeap.Proofs.Stability

/-!
# Capacities

How many chunks of one size a heap holds.  A chain grows by whole increments, so the bound on its
length counts as the greatest multiple of the increment that it admits; an allocation is refused
when all slots of a chain of that length are in use, and then only.

* `SizeClass.Valid.allocate_limit`: one size class has room until it is as long and as full as it
  may be;
* `Session.liveOf`, `Session.Sound.liveOf_eq`: the live allocations of a size are the slots in use
  of its size class;
* `Session.liveOf_next_le`, `Session.Sound.liveOf_free_lt`: which calls make them more, and which
  one makes them fewer;
* `Session.Limited`, `Session.limited_after`: the number of them that a heap holds.
-/

namespace HandleHeap

/-! ### One size class -/

/-- A multiple of the increment within a bound is within the greatest multiple that the bound
admits. -/
theorem le_div_mul_of_dvd {increment length bound : Nat} (hdvd : increment ∣ length)
    (hle : length ≤ bound) : length ≤ bound / increment * increment :=
  calc length
    _ = length / increment * increment := (Nat.div_mul_cancel hdvd).symm
    _ ≤ bound / increment * increment := Nat.mul_le_mul_right _ (Nat.div_le_div_right hle)

namespace SizeClass

variable {sizeClass : SizeClass} {increment bound : Nat}

/-- **A size class has room** until its chain is as long as the bound admits and full. -/
theorem Valid.allocate_limit (hv : sizeClass.Valid) (hpos : 0 < increment)
    (hdvd : increment ∣ sizeClass.length) (hle : sizeClass.length ≤ bound) :
    (∃ place next, sizeClass.allocate increment bound = (.ok place, next) ∧
        sizeClass.liveSlots < bound / increment * increment * sizeClass.slotCount) ∨
      (sizeClass.allocate increment bound
          = (.error (.chainFull sizeClass.chunkSize bound), sizeClass) ∧
        sizeClass.liveSlots = bound / increment * increment * sizeClass.slotCount) := by
  rcases hv.allocate_filled hpos bound with ⟨position, slot, next, hcall, h⟩ | ⟨hcall, hfull, hlt⟩
  · refine Or.inl ⟨_, next, hcall, ?_⟩
    have hnext : next.length ≤ bound / increment * increment := by
      rcases h.length_eq with ⟨-, hsame⟩ | ⟨-, hgrown, hbound⟩
      · rw [hsame]
        exact le_div_mul_of_dvd hdvd hle
      · refine le_div_mul_of_dvd ?_ hbound
        rw [hgrown]
        exact hdvd.add (Nat.dvd_refl increment)
    have hlive := h.liveSlots_eq hv
    have hslots := h.valid.liveSlots_le
    rw [h.slotCount_eq] at hslots
    have hlimit := Nat.mul_le_mul_right sizeClass.slotCount hnext
    omega
  · refine Or.inr ⟨hcall, ?_⟩
    rw [hv.liveSlots_of_full hfull]
    -- another increment would go beyond the bound, so the length is the greatest that it admits
    obtain ⟨count, hcount⟩ := hdvd
    have hdiv : bound / increment = count := by
      rw [hcount, Nat.mul_comm] at hle hlt
      refine Nat.div_eq_of_lt_le hle ?_
      rw [Nat.succ_mul]
      exact hlt
    rw [hdiv, hcount, Nat.mul_comm increment]

end SizeClass

/-! ### Live allocations of one size -/

/-- The number of chunks of one size, with so many slots to a slab, that fit into the longest chain
of whole increments within the bound. -/
def Settings.chunkLimit (settings : Settings) (slots : Nat) : Nat :=
  settings.maxChainLength / settings.chainIncrement * settings.chainIncrement * slots

namespace Heap

/-- A heap takes memory of at most 1024 bytes from its pool. -/
theorem allocate_chunk (heap : Heap) {size : Nat} (hsize : ChunkSize.IsChunk size) :
    heap.allocate size =
      ((heap.chunks.allocate size).1, { heap with chunks := (heap.chunks.allocate size).2 }) := by
  obtain ⟨hlow, hhigh⟩ := hsize
  unfold ChunkSize.least at hlow
  have hbound : ¬ ((size : Int) < 1 ∨ greatestSize < size) := by
    unfold ChunkSize.greatest at hhigh
    unfold greatestSize
    omega
  unfold allocate
  rw [if_neg (by omega), if_neg hbound, Int.toNat_natCast, if_pos hhigh]

theorem allocate_of_isChunk (heap : Heap) {size : Nat} (hsize : ChunkSize.IsChunk size) :
    (heap.allocate size).1 = (heap.chunks.allocate size).1 :=
  congrArg Prod.fst (heap.allocate_chunk hsize)

variable {heap : Heap} (hv : heap.Valid)
include hv

/-- A live allocation of at most 1024 bytes is a chunk of its size. -/
theorem Valid.chunk_of_sizeOf {handle : Handle} {size : Nat} (hsize : ChunkSize.IsChunk size)
    (h : heap.sizeOf handle = .ok size) : ∃ a, handle.address = .chunk a ∧ a.slotOffset = 0 ∧
      heap.chunks.isUsed a = true ∧ a.chunkSize = size := by
  obtain ⟨hpos, hinner, hlive⟩ := sizeOf_eq_ok_iff.mp h
  have hchunk := (hv.isChunk_iff_size (Handle.address_fits hpos) hlive).mpr hsize.2
  rcases haddress : handle.address with a | a <;> rw [haddress] at hinner hlive hchunk
  · exact ⟨a, rfl, hinner, sizeAt_chunk_eq_some_iff.mp hlive⟩
  · cases hchunk

/-- Every chunk in use has a handle at which its size is told. -/
theorem Valid.exists_sizeOf {a : ChunkAddress} (hsize : ChunkSize.IsChunk a.chunkSize)
    (hoffset : a.slotOffset = 0) (hused : heap.chunks.isUsed a = true) :
    ∃ handle, handle.address = .chunk a ∧ heap.sizeOf handle = .ok a.chunkSize := by
  have hserves := hv.chunks.serves _ hsize
  obtain ⟨hchain, hslot⟩ := hserves.valid.lt_of_isUsed hused
  have hlength := hserves.length_le
  have hmax := hv.chunks.max_le
  have hslots := hserves.valid.slotCount_le
  have hposition := a.slot_mul_add
  unfold Settings.greatestChainLength at hmax
  have hindex : a.sizeIndex < 0x400 := Nat.lt_of_succ_le hsize.2
  have hfits : a.slot * (a.sizeIndex + 1) < 0x100000000 :=
    ChunkPool.slot_mul_lt hsize (by omega)
  obtain ⟨hpos, haddress⟩ := Handle.address_ofSlot hindex (by omega : a.chainIndex < 0x100000) hfits
  have hplace : (⟨a.sizeIndex, a.chainIndex, a.slot * (a.sizeIndex + 1)⟩ : ChunkAddress) = a := by
    rw [hoffset, Nat.add_zero] at hposition
    show (⟨a.sizeIndex, a.chainIndex, a.slot * a.chunkSize⟩ : ChunkAddress) = a
    rw [hposition]
  rw [hplace] at haddress
  refine ⟨_, haddress, sizeOf_eq_ok_iff.mpr ⟨hpos, ?_, ?_⟩⟩
  · rw [haddress]
    exact hoffset
  · rw [haddress]
    exact sizeAt_chunk_eq_some_iff.mpr ⟨hused, rfl⟩

end Heap

namespace Session

/-- The number of live allocations of a size. -/
def liveOf (s : Session) (size : Nat) : Nat := s.live.countP fun b => b.size = size

/-- The live allocations of a size, as chunks. -/
def chunksOf (s : Session) (size : Nat) : List ChunkAddress :=
  (s.live.filter fun b => b.size = size).map (·.base.chunk)

theorem mem_filter_size_iff {s : Session} {size : Nat} {b : Allocation} :
    b ∈ (s.live.filter fun b => b.size = size) ↔ b ∈ s.live ∧ b.size = size := by
  rw [List.mem_filter, decide_eq_true_iff]

section counts
variable {s : Session} (hs : s.Sound) {size : Nat} (hsize : ChunkSize.IsChunk size)
include hs hsize

theorem Sound.chunk_of_mem {b : Allocation} (hb : b ∈ s.live ∧ b.size = size) :
    b.base.address = .chunk b.base.chunk ∧ b.base.chunk.slotOffset = 0 ∧
      s.heap.chunks.isUsed b.base.chunk = true ∧ b.base.chunk.chunkSize = size := by
  obtain ⟨a, haddress, ha⟩ :=
    hs.valid.chunk_of_sizeOf hsize (hb.2 ▸ (hs.mem_live_iff b).mp hb.1)
  rw [Handle.chunk, Handle.eq_of_address_eq_chunk haddress]
  exact ⟨haddress, ha⟩

theorem Sound.nodup_chunksOf : (s.chunksOf size).Nodup := by
  refine (hs.nodup.of_map.filter _).map_on fun b hb c hc heq => ?_
  have hbchunk := (hs.chunk_of_mem hsize (mem_filter_size_iff.mp hb)).1
  have hcchunk := (hs.chunk_of_mem hsize (mem_filter_size_iff.mp hc)).1
  have hblive := (List.mem_filter.mp hb).1
  have hclive := (List.mem_filter.mp hc).1
  have hbase := Handle.eq_of_address_eq (Heap.pos_of_sizeOf ((hs.mem_live_iff b).mp hblive))
    (Heap.pos_of_sizeOf ((hs.mem_live_iff c).mp hclive)) (by rw [hbchunk, hcchunk, heq])
  exact List.inj_on_of_nodup_map hs.nodup hblive hclive hbase

theorem Sound.mem_chunksOf_iff (a : ChunkAddress) : a ∈ s.chunksOf size ↔
    a.slotOffset = 0 ∧ s.heap.chunks.isUsed a = true ∧ a.chunkSize = size := by
  unfold chunksOf
  rw [List.mem_map]
  constructor
  · rintro ⟨b, hb, rfl⟩
    exact (hs.chunk_of_mem hsize (mem_filter_size_iff.mp hb)).2
  · rintro ⟨hoffset, hused, rfl⟩
    obtain ⟨handle, haddress, hlive⟩ := hs.valid.exists_sizeOf hsize hoffset hused
    exact ⟨⟨handle, a.chunkSize⟩, mem_filter_size_iff.mpr ⟨(hs.mem_live_iff _).mpr hlive, rfl⟩,
      Handle.eq_of_address_eq_chunk haddress⟩

/-- The live allocations of a size are the slots in use of its size class. -/
theorem Sound.liveOf_eq : s.liveOf size = (s.heap.chunks.sizeClass size).liveSlots := by
  rw [← hs.valid.chunks.length_eq_liveSlots hsize (hs.nodup_chunksOf hsize)
    (hs.mem_chunksOf_iff hsize)]
  unfold liveOf chunksOf
  rw [List.countP_eq_length_filter, List.length_map]

/-- An allocation is refused in one case only: as many chunks are live as the longest chain that the
settings allow has slots. -/
theorem Sound.allocate_limit {settings : Settings} (hg : s.heap.chunks.Graduated settings) :
    ((∃ handle, (s.heap.call (.allocate size)).1 = .ok (some handle)) ∧
        s.liveOf size < settings.chunkLimit (Slab.capacity size settings.slabBufferSize)) ∨
      ((s.heap.call (.allocate size)).1 = .error (.chainFull size settings.maxChainLength) ∧
        s.liveOf size = settings.chunkLimit (Slab.capacity size settings.slabBufferSize)) := by
  have hv := hs.valid.chunks
  have hserves := hv.serves size hsize
  have hpos := hv.increment_pos
  have hle := hserves.length_le
  have hslots := hserves.slotCount_eq
  obtain ⟨⟨hbuffer, hincrement, hmax⟩, hdvd⟩ := hg
  have hcall : (s.heap.call (.allocate size)).1
      = (s.heap.chunks.allocate size).1.map some :=
    congrArg (Except.map some) (s.heap.allocate_of_isChunk hsize)
  rw [hs.liveOf_eq hsize, hcall]
  unfold ChunkPool.allocate Settings.chunkLimit
  rw [if_pos hsize]
  rw [hbuffer] at hslots
  rw [hincrement] at hpos ⊢
  rw [hmax] at hle ⊢
  rcases hserves.valid.allocate_limit hpos (hdvd size) hle with
    ⟨place, next, hplace, hlt⟩ | ⟨hrefused, heq⟩
  · rw [hslots] at hlt
    rw [hplace]
    exact Or.inl ⟨⟨_, rfl⟩, hlt⟩
  · rw [hslots] at heq
    rw [hrefused, hserves.chunkSize_eq]
    exact Or.inr ⟨rfl, heq⟩

end counts

/-- A call that does not ask for a size makes no allocation of that size live. -/
theorem liveOf_next_le (s : Session) {call : Call} {size : Nat} (hpos : 0 < size)
    (hother : call.requested ≠ some (size : Int)) : (s.next call).liveOf size ≤ s.liveOf size := by
  have hstrike : ∀ handle, (Allocation.strike s.live handle).countP (fun b => b.size = size)
      ≤ s.live.countP fun b => b.size = size := fun handle => List.filter_sublist.countP_le
  have henter : ∀ live handle (n : Int), n ≠ size →
      (Allocation.enter live handle n).countP (fun b => b.size = size)
        = live.countP fun b => b.size = size := by
    intro live handle n hne
    unfold Allocation.enter
    split
    · rfl
    · exact List.countP_cons_of_neg (by rw [decide_eq_true_iff]; dsimp only; omega)
  show (call.record s.live (s.heap.call call).1).countP _ ≤ _
  generalize (s.heap.call call).1 = answer
  cases call with
  | fill | store | copy | storeArray => exact Nat.le_refl _
  | allocate n =>
    have hne : n ≠ size := fun heq => hother (congrArg some heq)
    rcases answer with e | _ | handle
    · exact Nat.le_refl _
    · exact Nat.le_refl _
    · exact Nat.le_of_eq (henter s.live handle n hne)
  | reallocate old n =>
    have hne : n ≠ size := fun heq => hother (congrArg some heq)
    rcases answer with e | _ | handle
    · exact Nat.le_refl _
    · exact Nat.le_refl _
    · exact Nat.le_trans (Nat.le_of_eq (henter _ handle n hne)) (hstrike old)
  | free handle =>
    rcases answer with e | value
    · exact Nat.le_refl _
    · exact hstrike handle

theorem liveOf_foldl_le (s : Session) {calls : List Call} {size : Nat} (hpos : 0 < size)
    (hother : ∀ call ∈ calls, call.requested ≠ some (size : Int)) :
    (calls.foldl next s).liveOf size ≤ s.liveOf size := by
  induction calls generalizing s with
  | nil => exact Nat.le_refl _
  | cons call calls ih =>
    rw [List.forall_mem_cons] at hother
    exact Nat.le_trans (ih (s.next call) hother.2) (s.liveOf_next_le hpos hother.1)

/-- A release takes one allocation off those of its size. -/
theorem Sound.liveOf_free_lt {s : Session} (hs : s.Sound) {b : Allocation} (hb : b ∈ s.live) :
    (s.heap.call (.free b.base)).1 = .ok none ∧
      (s.next (.free b.base)).liveOf b.size < s.liveOf b.size := by
  have hok : (s.heap.call (.free b.base)).1 = .ok none := hs.freed_iff.mpr (Or.inr ⟨b, hb, rfl⟩)
  refine ⟨hok, ?_⟩
  show (Call.record s.live (.free b.base) (s.heap.call (.free b.base)).1).countP _ < _
  rw [hok]
  have hsplit := List.countP_eq_countP_filter_add s.live (fun c => decide (c.size = b.size))
    (fun c => decide (c.base ≠ b.base))
  have hgone : 0 < (s.live.filter fun c => !decide (c.base ≠ b.base)).countP
      fun c => decide (c.size = b.size) :=
    List.countP_pos_iff.mpr ⟨b, by simpa using hb, by simp⟩
  show (s.live.filter fun c => decide (c.base ≠ b.base)).countP _ < s.live.countP _
  omega

/-- What a session tells of the allocations of one size, of which it holds no more than a limit:
one more is refused when the limit is reached, and then only, because the chain may not become
longer; and the release of any of them makes room for the next one, whatever other calls come in
between.  No call of any kind finds a slab full that its counter does not. -/
structure Limited (s : Session) (settings : Settings) (size limit : Nat) : Prop where
  refused_iff : (∃ e, (s.heap.call (.allocate size)).1 = .error e) ↔ s.liveOf size = limit
  error_eq : ∀ e, (s.heap.call (.allocate size)).1 = .error e →
    e = .chainFull size settings.maxChainLength
  reliable : ∀ call, Reliable (s.heap.call call).1
  reliable_read : ∀ handle length, Reliable (s.heap.read handle length)
  reliable_sizeOf : ∀ handle, Reliable (s.heap.sizeOf handle)
  room : ∀ b ∈ s.live, b.size = size → (s.heap.call (.free b.base)).1 = .ok none ∧
    ∀ between : List Call, (∀ call ∈ between, call.requested ≠ some (size : Int)) →
      ∃ handle, ((between.foldl next (s.next (.free b.base))).heap.call (.allocate size)).1
        = .ok (some handle)

section limited
variable {s : Session} (hs : s.Sound) {settings : Settings}
  (hg : s.heap.chunks.Graduated settings) {size : Nat} (hsize : ChunkSize.IsChunk size)
include hs hg hsize

/-- With room for a chunk, an allocation is granted. -/
theorem Sound.exists_allocate
    (hlt : s.liveOf size < settings.chunkLimit (Slab.capacity size settings.slabBufferSize)) :
    ∃ handle, (s.heap.call (.allocate size)).1 = .ok (some handle) := by
  rcases hs.allocate_limit hsize hg with ⟨hok, -⟩ | ⟨-, heq⟩
  · exact hok
  · omega

theorem Sound.limited : s.Limited settings size
    (settings.chunkLimit (Slab.capacity size settings.slabBufferSize)) := by
  have hlimit := hs.allocate_limit hsize hg
  refine ⟨?_, fun e he => ?_, hs.reliable_call, s.heap.reliable_read, s.heap.reliable_sizeOf,
    fun b hb hbsize => ?_⟩
  · rcases hlimit with ⟨⟨handle, hok⟩, hlt⟩ | ⟨hrefused, heq⟩
    · rw [hok]
      constructor
      · rintro ⟨e, he⟩
        cases he
      · intro heq
        omega
    · exact ⟨fun _ => heq, fun _ => ⟨_, hrefused⟩⟩
  · rcases hlimit with ⟨⟨handle, hok⟩, -⟩ | ⟨hrefused, -⟩
    · rw [hok] at he
      cases he
    · rw [hrefused] at he
      cases he
      rfl
  · obtain ⟨hok, hfewer⟩ := hs.liveOf_free_lt hb
    rw [hbsize] at hfewer
    refine ⟨hok, fun between hother => ?_⟩
    have hstill := (s.next (.free b.base)).liveOf_foldl_le hsize.1 hother
    have hsound := (hs.next (.free b.base)).foldl between
    have hgraduated := (ChunkPool.stable_graduated settings).foldl hg (.free b.base :: between)
    refine hsound.exists_allocate hgraduated hsize ?_
    rcases hlimit with ⟨-, hlt⟩ | ⟨-, heq⟩ <;> omega

end limited

/-- **The number of chunks that a heap holds.**  After any calls, an allocation of 1 to 1024 bytes
is refused exactly when as many of that size are live as the longest chain of whole increments
within the bound has slots. -/
theorem limited_after {settings : Settings} (h : settings.validate = .ok ()) (calls : List Call)
    {size : Nat} (hsize : ChunkSize.IsChunk size) :
    ∃ slots, (after settings calls).heap.chunks.slotCount? size = some slots ∧
      (after settings calls).Limited settings size (settings.chunkLimit slots) := by
  have hg : (after settings calls).heap.chunks.Graduated settings :=
    (ChunkPool.stable_graduated settings).foldl (ChunkPool.graduated_fresh settings) calls
  refine ⟨Slab.capacity size settings.slabBufferSize, ?_, (sound_after h calls).limited hg hsize⟩
  unfold ChunkPool.slotCount?
  rw [if_pos hsize, hg.under.slabBufferSize_eq]

/-- Settings whose bound is no multiple of the increment, so that a chain ends one slab short. -/
def uneven : Settings := { slabBufferSize := 1024, chainIncrement := 2, maxChainLength := 3 }

/-- Eight chunks fill two slabs, and a third one would come with a fourth. -/
theorem limited_after_filling :
    (after uneven (List.replicate 8 (.allocate 1024))).liveOf 1024 = 8 ∧
      ∃ slots,
        (after uneven (List.replicate 8 (.allocate 1024))).heap.chunks.slotCount? 1024
          = some slots ∧
        (after uneven (List.replicate 8 (.allocate 1024))).Limited uneven 1024
          (uneven.chunkLimit slots) :=
  ⟨by decide +kernel, limited_after rfl _ (by decide)⟩

end Session

end HandleHeap
