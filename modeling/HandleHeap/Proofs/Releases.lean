import HandleHeap.Proofs.Peaks

/-!
# Releases

What a chunk pool is after some releases does not depend on their order.  A valid pool is determined
by what can be seen of it: the shape of its chains, the flags and the bytes.  A release clears the
flag and the bytes of its slot and keeps the shape, and that the slab is cleared as a whole with its
last slot is not seen, as all of it is zero by then.

* `SizeClass.SameShape`, `SizeClass.Valid.eq_of_sameShape`: valid size classes that look the same
  are equal;
* `ChunkPool.Cleared`, `ChunkPool.Cleared.unique`: a pool without the chunks in a list, of which
  there is only one;
* `ChunkPool.Ledger.Edit`, `ChunkPool.Ledger.sound_edited`: runs of requests and writes;
* `ChunkPool.Ledger.freeAll_perm`: live chunks can be given back in any order, with one outcome.
-/

namespace HandleHeap

/-! ### What determines a size class -/

/-- Slabs of the same sizes with the same flags and bytes are equal. -/
theorem Slab.Valid.eq_of_forall {left right : Slab} {chunkSize slotCount : Nat}
    (hl : left.Valid chunkSize slotCount) (hr : right.Valid chunkSize slotCount)
    (hused : ∀ slot, left.isUsed slot = right.isUsed slot)
    (hbytes : ∀ p, left.buffer.get p = right.buffer.get p) : left = right := by
  have hsize : left.used.size = right.used.size := hl.size_used.trans hr.size_used.symm
  have hflags : left.used = right.used := by
    refine Array.ext hsize fun i hi hi' => ?_
    rw [← isUsed_of_lt hi, ← isUsed_of_lt hi', hused]
  have hbuffer : left.buffer = right.buffer :=
    Buffer.ext (hl.size_buffer.trans hr.size_buffer.symm) hbytes
  have hchunk := hl.chunkSize_eq.trans hr.chunkSize_eq.symm
  cases left
  cases right
  rw [Slab.mk.injEq]
  exact ⟨hchunk, hflags, hbuffer⟩

namespace SizeClass

/-- Two chains with the same sizes and with slabs at the same positions. -/
structure SameShape (left right : SizeClass) : Prop where
  chunkSize_eq : left.chunkSize = right.chunkSize
  slotCount_eq : left.slotCount = right.slotCount
  length_eq : left.length = right.length
  isSome_eq : ∀ i, (left.slab? i).isSome = (right.slab? i).isSome

theorem SameShape.refl (sizeClass : SizeClass) : SameShape sizeClass sizeClass :=
  ⟨rfl, rfl, rfl, fun _ => rfl⟩

theorem SameShape.symm {left right : SizeClass} (h : SameShape left right) :
    SameShape right left :=
  ⟨h.chunkSize_eq.symm, h.slotCount_eq.symm, h.length_eq.symm, fun i => (h.isSome_eq i).symm⟩

theorem SameShape.trans {left middle right : SizeClass} (h : SameShape left middle)
    (h' : SameShape middle right) : SameShape left right :=
  ⟨h.chunkSize_eq.trans h'.chunkSize_eq, h.slotCount_eq.trans h'.slotCount_eq,
    h.length_eq.trans h'.length_eq, fun i => (h.isSome_eq i).trans (h'.isSome_eq i)⟩

theorem Emptied.sameShape {sizeClass next : SizeClass} {position : Nat}
    (h : Emptied sizeClass position next) : SameShape next sizeClass :=
  ⟨h.chunkSize_eq, h.slotCount_eq, h.length_eq, fun i => Bool.eq_iff_iff.mpr (h.isSome_slab?_iff i)⟩

section determined
variable {left right : SizeClass} (hl : left.Valid) (hr : right.Valid) (h : SameShape left right)
  (hused : ∀ i j, left.isUsed i j = right.isUsed i j)
  (hbytes : ∀ i p, left.byteAt i p = right.byteAt i p)
include hl hr h hused hbytes

theorem Valid.slab?_eq (i : Nat) : left.slab? i = right.slab? i := by
  have hsome := h.isSome_eq i
  have hflags := hused i
  have hget := hbytes i
  unfold isUsed at hflags
  unfold byteAt at hget
  rcases hleft : left.slab? i with _ | slab <;> rcases hright : right.slab? i with _ | other <;>
    simp only [hleft, hright, Option.isSome_none, Option.isSome_some, Option.any_some,
      Option.map_some, Option.getD_some] at hsome hflags hget
  · rfl
  · cases hsome
  · cases hsome
  · have hvalid := hr.slab_valid i other hright
    rw [← h.chunkSize_eq, ← h.slotCount_eq] at hvalid
    rw [(hl.slab_valid i slab hleft).eq_of_forall hvalid hflags hget]

/-- **A valid size class is what it looks like**: the counters are told by the flags. -/
theorem Valid.eq_of_sameShape : left = right := by
  have hslab := hl.slab?_eq hr h hused hbytes
  have hslabs : left.slabs = right.slabs := by
    refine Array.ext h.length_eq fun i hi hi' => ?_
    have hi_eq := hslab i
    unfold slab? at hi_eq
    rw [Array.getElem?_eq_getElem hi, Array.getElem?_eq_getElem hi'] at hi_eq
    exact hi_eq
  have hcounters : left.counters = right.counters := by
    have hsize : left.counters.size = right.counters.size := by
      rw [hl.size_counters, hr.size_counters, hslabs]
    refine Array.ext hsize fun i hi hi' => UInt8.toNat.inj ?_
    have hlive : left.liveAt i = right.liveAt i := by
      rw [hl.liveAt_eq, hr.liveAt_eq]
      unfold usedAt
      rw [hslab]
    unfold liveAt at hlive
    rw [Array.getElem?_eq_getElem hi, Array.getElem?_eq_getElem hi'] at hlive
    exact hlive
  have hchunk := h.chunkSize_eq
  have hslot := h.slotCount_eq
  cases left
  cases right
  rw [SizeClass.mk.injEq]
  exact ⟨hchunk, hslot, hslabs, hcounters⟩

end determined

theorem Valid.sameShape_serve_free {sizeClass : SizeClass} (hv : sizeClass.Valid)
    (handle : Handle) (position slot : Nat) :
    SameShape (sizeClass.serve (.free handle position slot)) sizeClass := by
  rcases hv.serve_free handle position slot with h | hsame
  · exact h.sameShape
  · rw [hsame]
    exact SameShape.refl sizeClass

end SizeClass

/-! ### Pools without some chunks -/

namespace ChunkPool

/-- The pool without the chunks that start at some addresses: their flags and bytes are clear, and
everything else is as before. -/
structure Cleared (pool : ChunkPool) (chunks : List ChunkAddress) (next : ChunkPool) : Prop where
  valid : next.Valid
  slabBufferSize_eq : next.slabBufferSize = pool.slabBufferSize
  chainIncrement_eq : next.chainIncrement = pool.chainIncrement
  maxChainLength_eq : next.maxChainLength = pool.maxChainLength
  isSome_eq : ∀ size, (next.sizeClass? size).isSome = (pool.sizeClass? size).isSome
  shape : ∀ size, (next.sizeClass size).SameShape (pool.sizeClass size)
  isUsed_eq : ∀ b, next.isUsed b
    = if ∃ a ∈ chunks, b.SameSlot a then false else pool.isUsed b
  byteAt_eq : ∀ b, next.byteAt b
    = if ∃ a ∈ chunks, b.SameSlot a then 0 else pool.byteAt b

theorem Valid.cleared_nil {pool : ChunkPool} (hv : pool.Valid) : Cleared pool [] pool :=
  ⟨hv, rfl, rfl, rfl, fun _ => rfl, fun _ => SizeClass.SameShape.refl _, fun b => by simp,
    fun b => by simp⟩

/-- A release, then some others. -/
theorem Cleared.cons {pool middle next : ChunkPool} {address : ChunkAddress}
    {chunks : List ChunkAddress} (hfirst : Cleared pool [address] middle)
    (hrest : Cleared middle chunks next) : Cleared pool (address :: chunks) next := by
  refine ⟨hrest.valid, hrest.slabBufferSize_eq.trans hfirst.slabBufferSize_eq,
    hrest.chainIncrement_eq.trans hfirst.chainIncrement_eq,
    hrest.maxChainLength_eq.trans hfirst.maxChainLength_eq,
    fun size => (hrest.isSome_eq size).trans (hfirst.isSome_eq size),
    fun size => (hrest.shape size).trans (hfirst.shape size), fun b => ?_, fun b => ?_⟩
  · rw [hrest.isUsed_eq, hfirst.isUsed_eq]
    simp only [List.mem_cons, List.not_mem_nil, or_false, exists_eq_left, exists_eq_or_imp]
    by_cases hb : b.SameSlot address <;> simp [hb]
  · rw [hrest.byteAt_eq, hfirst.byteAt_eq]
    simp only [List.mem_cons, List.not_mem_nil, or_false, exists_eq_left, exists_eq_or_imp]
    by_cases hb : b.SameSlot address <;> simp [hb]

/-- Flags of a pool are flags of its size classes, each at an address of its own. -/
theorem sizeClass_isUsed_eq (pool : ChunkPool) {size : Nat} (hsize : ChunkSize.IsChunk size)
    (position slot : Nat) : (pool.sizeClass size).isUsed position slot
      = pool.isUsed ⟨ChunkSize.toIndex size, position, slot * size⟩ := by
  obtain ⟨hsame, hslot, -⟩ := slot_start hsize position slot
  unfold isUsed
  rw [hsame, hslot]

theorem sizeClass_byteAt_eq (pool : ChunkPool) {size : Nat} (hsize : ChunkSize.IsChunk size)
    (position p : Nat) : (pool.sizeClass size).byteAt position p
      = pool.byteAt ⟨ChunkSize.toIndex size, position, p⟩ := by
  have hsame : (⟨ChunkSize.toIndex size, position, p⟩ : ChunkAddress).chunkSize = size :=
    (ofIndex_toIndex hsize).1
  unfold byteAt
  rw [hsame]

/-- **There is one pool without the chunks in a list**, in whatever order the list has them. -/
theorem Cleared.unique {pool left right : ChunkPool} {chunks others : List ChunkAddress}
    (hl : Cleared pool chunks left) (hr : Cleared pool others right)
    (hmem : ∀ a, a ∈ chunks ↔ a ∈ others) : left = right := by
  have hused : ∀ b, left.isUsed b = right.isUsed b := fun b => by
    simp only [hl.isUsed_eq, hr.isUsed_eq, hmem]
  have hbytes : ∀ b, left.byteAt b = right.byteAt b := fun b => by
    simp only [hl.byteAt_eq, hr.byteAt_eq, hmem]
  have hclass : ∀ size, ChunkSize.IsChunk size → left.sizeClass size = right.sizeClass size :=
    fun size hsize => (hl.valid.serves size hsize).valid.eq_of_sameShape
      (hr.valid.serves size hsize).valid ((hl.shape size).trans (hr.shape size).symm)
      (fun i j => by
        rw [sizeClass_isUsed_eq left hsize, sizeClass_isUsed_eq right hsize, hused])
      (fun i p => by
        rw [sizeClass_byteAt_eq left hsize, sizeClass_byteAt_eq right hsize, hbytes])
  have hclasses : left.classes = right.classes := by
    apply Std.ExtTreeMap.ext_getElem?
    intro size
    show left.sizeClass? size = right.sizeClass? size
    have hsome := (hl.isSome_eq size).trans (hr.isSome_eq size).symm
    rcases hleft : left.sizeClass? size with _ | found <;>
      rcases hright : right.sizeClass? size with _ | other <;>
      simp only [hleft, hright, Option.isSome_none, Option.isSome_some] at hsome
    · rfl
    · cases hsome
    · cases hsome
    · have heq := hclass size (hl.valid.isChunk size found hleft)
      rw [sizeClass_of_some hleft, sizeClass_of_some hright] at heq
      rw [heq]
  have hbuffer := hl.slabBufferSize_eq.trans hr.slabBufferSize_eq.symm
  have hincrement := hl.chainIncrement_eq.trans hr.chainIncrement_eq.symm
  have hmax := hl.maxChainLength_eq.trans hr.maxChainLength_eq.symm
  cases left
  cases right
  rw [ChunkPool.mk.injEq]
  exact ⟨hbuffer, hincrement, hmax, hclasses⟩

/-- A release leaves the pool without its chunk. -/
theorem Valid.cleared_of_free {pool next : ChunkPool} (hv : pool.Valid) {handle : Handle}
    {address : ChunkAddress} (h : pool.free handle address = .ok next) :
    Cleared pool [address] next := by
  obtain ⟨-, hused, hfreed⟩ := hv.freed_of_free_eq_ok h
  obtain ⟨found, slab, hfound, -, -⟩ := exists_slab_of_isUsed hused
  have hclass := sizeClass_of_some hfound
  have hsize := hv.isChunk _ _ hfound
  have hshape := (hv.serves _ hsize).valid.sameShape_serve_free handle address.chainIndex
    address.slot
  refine ⟨hfreed.valid, ?_, ?_, ?_, fun size => ?_, fun size => ?_, fun b => ?_, fun b => ?_⟩
  · rw [eq_of_free_eq_ok h]; rfl
  · rw [eq_of_free_eq_ok h]; rfl
  · rw [eq_of_free_eq_ok h]; rfl
  · rw [eq_of_free_eq_ok h, sizeClass?_setSizeClass]
    split
    · next heq => rw [heq, hfound]; rfl
    · rfl
  · rw [eq_of_free_eq_ok h, sizeClass_setSizeClass]
    split
    · next heq => rw [heq]; exact hshape
    · exact SizeClass.SameShape.refl _
  · rw [hfreed.isUsed_eq]
    simp only [List.mem_singleton, exists_eq_left]
  · rw [hfreed.byteAt_eq]
    simp only [List.mem_singleton, exists_eq_left]

/-! ### Runs with writes -/

namespace Ledger

/-- A request to a chunk pool, or a write to its bytes. -/
inductive Edit where
  | request (request : Request)
  | write (handle : Handle) (address : ChunkAddress) (bytes : List UInt8)

/-- The ledger after one more request or write. -/
def edit (l : Ledger) : Edit → Ledger
  | .request request => l.next request
  | .write handle address bytes =>
    match l.pool.write handle address bytes with
    | .ok pool => ⟨pool, l.live⟩
    | .error _ => l

/-- The ledger after a run of requests and writes on a fresh pool. -/
def edited (settings : Settings) (edits : List Edit) : Ledger :=
  edits.foldl edit (start settings)

theorem Sound.edit_write {settings : Settings} {l : Ledger} (hs : l.Sound settings)
    (handle : Handle) (address : ChunkAddress) (bytes : List UInt8) :
    (l.edit (.write handle address bytes)).Sound settings := by
  rcases hcall : l.pool.write handle address bytes with e | pool <;> simp only [Ledger.edit, hcall]
  · exact hs
  have hw := hs.valid.written_of_write_eq_ok hcall
  refine ⟨hw.valid, hs.under.of_write hcall, hs.nodup, fun a n => ?_⟩
  rw [hw.isUsed_eq]
  exact hs.mem_live_iff a n

theorem Sound.edit {settings : Settings} {l : Ledger} (hs : l.Sound settings) (edit : Edit) :
    (l.edit edit).Sound settings := by
  cases edit with
  | request request => exact hs.next request
  | write handle address bytes => exact hs.edit_write handle address bytes

theorem sound_edited {settings : Settings} (h : settings.validate = .ok ()) (edits : List Edit) :
    (edited settings edits).Sound settings := by
  unfold edited
  induction edits using List.reverseRecOn with
  | nil => exact sound_start h
  | append_singleton edits edit ih =>
    rw [List.foldl_concat]
    exact ih.edit edit

end Ledger

/-! ### Releases in any order -/

/-- Gives back the chunks at some handles, one after the other, as long as none is refused. -/
def freeAll (pool : ChunkPool) (handles : List Handle) : Except HeapError ChunkPool :=
  handles.foldlM (fun pool handle => pool.free handle handle.chunk) pool

theorem freeAll_cons (pool : ChunkPool) (handle : Handle) (handles : List Handle) :
    pool.freeAll (handle :: handles)
      = (pool.free handle handle.chunk).bind fun next => next.freeAll handles := rfl

namespace Ledger

/-- A handle that was handed out and not given back since. -/
def Issued (l : Ledger) (handle : Handle) : Prop :=
  0 < handle.toInt ∧ ∃ entry ∈ l.live, handle.address = .chunk entry.1

instance (l : Ledger) (handle : Handle) : Decidable (l.Issued handle) :=
  inferInstanceAs (Decidable (_ ∧ _))

section issued
variable {settings : Settings} {l : Ledger} (hs : l.Sound settings)
include hs

omit hs in
theorem Issued.address_eq {handle : Handle} (h : l.Issued handle) :
    handle.address = .chunk handle.chunk := by
  obtain ⟨-, entry, -, haddress⟩ := h
  rw [haddress]
  exact congrArg Address.chunk (Handle.eq_of_address_eq_chunk haddress).symm

omit hs in
theorem Issued.exists_mem {handle : Handle} (h : l.Issued handle) :
    ∃ n, (handle.chunk, n) ∈ l.live := by
  obtain ⟨-, ⟨address, n⟩, hmem, haddress⟩ := h
  exact ⟨n, by rw [Handle.chunk, Handle.eq_of_address_eq_chunk haddress]; exact hmem⟩

/-- A chunk in use can be given back, and all others stay in use. -/
theorem Sound.free_issued {handle : Handle} (h : l.Issued handle) :
    ∃ next, l.pool.free handle handle.chunk = .ok next ∧
      (l.next (.free handle handle.chunk)).pool = next ∧
      ∀ other, l.Issued other → other ≠ handle →
        (l.next (.free handle handle.chunk)).Issued other := by
  obtain ⟨n, hmem⟩ := h.exists_mem
  obtain ⟨hoffset, hused, -⟩ := (hs.mem_live_iff _ _).mp hmem
  have hindex : handle.chunk.sizeIndex < 0x400 := by
    have hfits := Handle.address_fits h.1
    rw [h.address_eq] at hfits
    exact hfits.1
  rcases hs.valid.free_cases handle hindex hoffset with ⟨-, next, hcall, -⟩ | ⟨hfree, -⟩
  · refine ⟨next, hcall, by simp only [Ledger.next, hcall], fun other hother hne => ?_⟩
    refine ⟨hother.1, ?_⟩
    obtain ⟨m, hm⟩ := hother.exists_mem
    refine ⟨(other.chunk, m), ?_, hother.address_eq⟩
    simp only [Ledger.next, hcall, List.mem_filter, decide_eq_true_iff]
    refine ⟨hm, fun heq => hne ?_⟩
    refine Handle.eq_of_address_eq hother.1 h.1 ?_
    rw [hother.address_eq, h.address_eq, heq]
  · rw [hused] at hfree
    cases hfree

/-- **Chunks in use can all be given back**, which leaves the pool without them. -/
theorem Sound.exists_freeAll {handles : List Handle} (hnodup : handles.Nodup)
    (hlive : ∀ handle ∈ handles, l.Issued handle) :
    ∃ pool, l.pool.freeAll handles = .ok pool ∧
      Cleared l.pool (handles.map Handle.chunk) pool := by
  induction handles generalizing l with
  | nil => exact ⟨l.pool, rfl, hs.valid.cleared_nil⟩
  | cons handle handles ih =>
    rw [List.nodup_cons] at hnodup
    obtain ⟨next, hcall, hnext, hothers⟩ := hs.free_issued (hlive handle List.mem_cons_self)
    have hrest : ∀ other ∈ handles, (l.next (.free handle handle.chunk)).Issued other := by
      intro other hother
      refine hothers other (hlive other (List.mem_cons_of_mem _ hother)) ?_
      rintro rfl
      exact hnodup.1 hother
    obtain ⟨pool, hall, hcleared⟩ := ih (hs.next _) hnodup.2 hrest
    rw [hnext] at hall hcleared
    refine ⟨pool, ?_, (hs.valid.cleared_of_free hcall).cons hcleared⟩
    rw [freeAll_cons, hcall]
    exact hall

end issued

/-- **Releases commute.**  After any requests and writes, chunks in use can be given back in any
order: no release is refused, and the pool that is left is the same. -/
theorem freeAll_perm {settings : Settings} (h : settings.validate = .ok ()) (edits : List Edit)
    {handles others : List Handle} (hnodup : handles.Nodup)
    (hlive : ∀ handle ∈ handles, (edited settings edits).Issued handle)
    (hperm : handles.Perm others) :
    ∃ pool, (edited settings edits).pool.freeAll handles = .ok pool ∧
      (edited settings edits).pool.freeAll others = .ok pool := by
  have hs := sound_edited h edits
  obtain ⟨pool, hall, hcleared⟩ := hs.exists_freeAll hnodup hlive
  obtain ⟨other, hothers, hcleared'⟩ := hs.exists_freeAll (hperm.nodup hnodup)
    fun handle hhandle => hlive handle (hperm.mem_iff.mpr hhandle)
  have hsame : pool = other :=
    hcleared.unique hcleared' fun a => (hperm.map Handle.chunk).mem_iff
  exact ⟨pool, hall, hsame ▸ hothers⟩

/-- A run that makes three chunks of one size and one of another, and writes to two of them. -/
def written : List Edit :=
  [.request (.allocate 16), .request (.allocate 16), .request (.allocate 40),
    .write (.ofSlot 15 0 1) ⟨15, 0, 16⟩ [1, 2, 3], .write (.ofSlot 39 0 0) ⟨39, 0, 8⟩ [4]]

/-- Either of the two chunks of one slab can be the last. -/
theorem freeAll_perm_of_written :
    (∀ handle ∈ [Handle.ofSlot 15 0 0, .ofSlot 39 0 0, .ofSlot 15 0 1],
        (edited {} written).Issued handle) ∧
      ∃ pool, (edited {} written).pool.freeAll [.ofSlot 15 0 0, .ofSlot 39 0 0, .ofSlot 15 0 1]
          = .ok pool ∧
        (edited {} written).pool.freeAll [.ofSlot 15 0 1, .ofSlot 39 0 0, .ofSlot 15 0 0]
          = .ok pool := by
  have hlive : ∀ handle ∈ [Handle.ofSlot 15 0 0, .ofSlot 39 0 0, .ofSlot 15 0 1],
      (edited {} written).Issued handle := by
    simp only [List.forall_mem_cons, List.not_mem_nil, false_imp_iff, implies_true, and_true]
    decide +kernel
  exact ⟨hlive, freeAll_perm rfl written (by decide +kernel) hlive (by decide +kernel)⟩

end Ledger

end ChunkPool

end HandleHeap
