import HandleHeap.Proofs.Chains
import HandleHeap.Proofs.ChunkPools

/-!
# Peaks

A chain is as long as its peak demands: the slabs are as few as could hold the most chunks that were
ever live at once, and the length is the least multiple of the increment that could.

* `SizeClass.Packed`: a size class that has what a peak demands; allocation and release keep it so
  with the peak that they leave;
* `ChunkPool.sizeClass_allocate`, `ChunkPool.sizeClass_free`: a request to a pool is one to a single
  size class;
* `ChunkPool.Valid.length_eq_liveSlots`: the chunks of one size, counted by their addresses;
* `ChunkPool.Request`, `ChunkPool.Ledger`: requests to a pool, and the pool beside the chunks that
  its answers tell to be live;
* `ChunkPool.Ledger.demand_after`: length and slabs of a chain from the peak of a run.
-/

namespace HandleHeap

/-! ### Size classes -/

namespace SizeClass

/-- A size class with as many slabs and positions as a peak demands. -/
structure Packed (sizeClass : SizeClass) (increment peak : Nat) : Prop where
  valid : sizeClass.Valid
  increment_pos : 0 < increment
  liveSlots_le : sizeClass.liveSlots ≤ peak
  compact : sizeClass.Compact (peak ⌈/⌉ sizeClass.slotCount)
  length_eq : sizeClass.length
    = increment * (max 1 peak ⌈/⌉ (increment * sizeClass.slotCount))

theorem packed_fresh {chunkSize slotCount increment : Nat} (hsize : 0 < chunkSize)
    (hlow : 0 < slotCount) (hhigh : slotCount ≤ 127) (hpos : 0 < increment) :
    (fresh chunkSize slotCount increment).Packed increment 0 := by
  have hv := valid_fresh chunkSize slotCount increment hsize hlow hhigh
  have hlive : (fresh chunkSize slotCount increment).liveSlots = 0 := by
    have hle := hv.liveSlots_le_of_zero fun i hi =>
      (compact_fresh chunkSize slotCount increment).liveAt_eq_zero hv hi
    omega
  have hone : max 1 0 ⌈/⌉ (increment * slotCount) = 1 := by
    have hper : 0 < increment * slotCount := Nat.mul_pos hpos hlow
    rw [Nat.max_eq_left (Nat.zero_le 1), Nat.ceilDiv_eq_add_pred_div, Nat.add_sub_cancel_left,
      Nat.div_self hper]
  refine ⟨hv, hpos, Nat.le_of_eq hlive, ?_, ?_⟩
  · rw [zero_ceilDiv]
    exact compact_fresh chunkSize slotCount increment
  · show _ = increment * (max 1 0 ⌈/⌉ (increment * slotCount))
    rw [hone, length_fresh, Nat.mul_one]

section packed
variable {sizeClass next : SizeClass} {increment peak : Nat} (hp : sizeClass.Packed increment peak)
include hp

/-- A new slab is made when all slabs are full. -/
theorem Packed.compact_of_filled {bound position : Nat}
    (h : Filled sizeClass increment bound position next) :
    next.Compact (max peak next.liveSlots ⌈/⌉ sizeClass.slotCount) := by
  have hv := hp.valid
  have hpos := hv.slotCount_pos
  have hle := h.position_le hp.compact hv
  have hcompact := h.compact hp.compact hv
  have hlive := h.liveSlots_eq hv
  rw [hlive]
  generalize hunits : peak ⌈/⌉ sizeClass.slotCount = units at hle hcompact
  rcases Nat.lt_or_eq_of_le hle with hlt | heq
  · rw [Nat.max_eq_left hlt] at hcompact
    have hfit := h.valid.liveSlots_le_of_zero fun i hi => hcompact.liveAt_eq_zero h.valid hi
    rw [hlive, h.slotCount_eq] at hfit
    rw [ceilDiv_max_of_lt hpos hunits hfit]
    exact hcompact
  · rw [heq, Nat.max_eq_right (Nat.le_succ units)] at hcompact
    have hfull := hv.liveSlots_eq_mul
      (fun i hi => hp.compact.liveAt_eq_zero hv (by rw [hunits]; exact hi))
      (fun i hi => h.full_before i (by omega))
    rw [ceilDiv_max_of_full hpos hunits hp.liveSlots_le hfull]
    exact hcompact

/-- The chain is lengthened when all of it is full. -/
theorem Packed.length_of_filled {bound position : Nat}
    (h : Filled sizeClass increment bound position next) : next.length
      = increment * (max 1 (max peak next.liveSlots) ⌈/⌉ (increment * sizeClass.slotCount)) := by
  have hv := hp.valid
  have hper : 0 < increment * sizeClass.slotCount := Nat.mul_pos hp.increment_pos hv.slotCount_pos
  have hlive := h.liveSlots_eq hv
  have hlength := hp.length_eq
  have hpeak := hp.liveSlots_le
  rw [← Nat.max_assoc, hlive]
  generalize hunits : max 1 peak ⌈/⌉ (increment * sizeClass.slotCount) = units at hlength
  have hslots : sizeClass.length * sizeClass.slotCount
      = units * (increment * sizeClass.slotCount) := by
    rw [hlength, Nat.mul_comm increment, Nat.mul_assoc]
  rcases h.length_eq with ⟨-, hsame⟩ | ⟨heq, hgrown, -⟩
  · have hfit := h.valid.liveSlots_le
    rw [hlive, h.slotCount_eq, hsame, hslots] at hfit
    rw [ceilDiv_max_of_lt hper hunits hfit, hsame, hlength]
  · have hfull := hv.liveSlots_of_full fun i hi => h.full_before i (by omega)
    rw [hslots] at hfull
    rw [ceilDiv_max_of_full hper hunits (by omega) hfull, hgrown, hlength, Nat.mul_add,
      Nat.mul_one]

theorem Packed.filled {bound position : Nat} (h : Filled sizeClass increment bound position next) :
    next.Packed increment (max peak next.liveSlots) := by
  refine ⟨h.valid, hp.increment_pos, Nat.le_max_right _ _, ?_, ?_⟩
  · rw [h.slotCount_eq]
    exact hp.compact_of_filled h
  · rw [h.slotCount_eq]
    exact hp.length_of_filled h

theorem Packed.emptied {position : Nat} (h : Emptied sizeClass position next) :
    next.Packed increment (max peak next.liveSlots) := by
  have hlive := h.liveSlots_eq hp.valid
  have hpeak := hp.liveSlots_le
  rw [Nat.max_eq_left (by omega)]
  refine ⟨h.valid, hp.increment_pos, by omega, ?_, ?_⟩
  · rw [h.slotCount_eq]
    exact h.compact hp.compact
  · rw [h.slotCount_eq, h.length_eq]
    exact hp.length_eq

theorem Packed.same : sizeClass.Packed increment (max peak sizeClass.liveSlots) := by
  rw [Nat.max_eq_left hp.liveSlots_le]
  exact hp

theorem Packed.length_pos : 0 < sizeClass.length := by
  have hper : 0 < increment * sizeClass.slotCount :=
    Nat.mul_pos hp.increment_pos hp.valid.slotCount_pos
  rw [hp.length_eq]
  exact Nat.mul_pos hp.increment_pos (ceilDiv_pos hper (lt_max_of_lt_left Nat.one_pos))

/-- An allocation leaves what the peak demands, and some slot in use: a refused one finds the chain
full, and no chain is empty. -/
theorem Packed.serve_allocate (bound : Nat) :
    (sizeClass.serve (.allocate increment bound)).Packed increment
        (max peak (sizeClass.serve (.allocate increment bound)).liveSlots) ∧
      0 < (sizeClass.serve (.allocate increment bound)).liveSlots := by
  rcases hp.valid.serve_allocate hp.increment_pos bound with ⟨position, h⟩ | ⟨hsame, hfull⟩
  · have hlive := h.liveSlots_eq hp.valid
    exact ⟨hp.filled h, by omega⟩
  · have hlive := hp.valid.liveSlots_of_full hfull
    have hslots := Nat.mul_pos hp.length_pos hp.valid.slotCount_pos
    rw [hsame]
    exact ⟨hp.same, by omega⟩

theorem Packed.serve_free (handle : Handle) (position slot : Nat) :
    (sizeClass.serve (.free handle position slot)).Packed increment
      (max peak (sizeClass.serve (.free handle position slot)).liveSlots) := by
  rcases hp.valid.serve_free handle position slot with h | hsame
  · exact hp.emptied h
  · rw [hsame]
    exact hp.same

end packed

end SizeClass

/-! ### Pools -/

/-- The start of a slot is its only address without an offset into it. -/
theorem ChunkAddress.SameSlot.eq {a b : ChunkAddress} (h : a.SameSlot b) (ha : a.slotOffset = 0)
    (hb : b.slotOffset = 0) : a = b := by
  obtain ⟨hsize, hchain, hslot⟩ := h
  have hposition := a.slot_mul_add
  rw [ha, hslot, show a.chunkSize = b.chunkSize from congrArg Nat.succ hsize, ← hb,
    b.slot_mul_add] at hposition
  cases a
  cases b
  rw [ChunkAddress.mk.injEq]
  exact ⟨hsize, hchain, hposition.symm⟩

namespace ChunkPool

/-- A pool that was made with the given settings. -/
structure Under (pool : ChunkPool) (settings : Settings) : Prop where
  slabBufferSize_eq : pool.slabBufferSize = settings.slabBufferSize
  chainIncrement_eq : pool.chainIncrement = settings.chainIncrement
  maxChainLength_eq : pool.maxChainLength = settings.maxChainLength

theorem Under.setSizeClass {pool : ChunkPool} {settings : Settings} (hu : pool.Under settings)
    (size : Nat) (sizeClass : SizeClass) : (pool.setSizeClass size sizeClass).Under settings :=
  ⟨hu.slabBufferSize_eq, hu.chainIncrement_eq, hu.maxChainLength_eq⟩

theorem under_fresh (settings : Settings) : (fresh settings).Under settings := ⟨rfl, rfl, rfl⟩

theorem Under.of_write {pool next : ChunkPool} {settings : Settings} (hu : pool.Under settings)
    {handle : Handle} {address : ChunkAddress} {bytes : List UInt8}
    (h : pool.write handle address bytes = .ok next) : next.Under settings := by
  unfold write at h
  rcases hslab : pool.slabFor handle address bytes.length with e | slab <;> rw [hslab] at h <;>
    cases h
  exact hu.setSizeClass _ _

section requests
variable {pool next : ChunkPool} {handle : Handle} {address : ChunkAddress}

/-- An allocation is one from the size class of its size, granted or refused. -/
theorem allocate_snd (pool : ChunkPool) (size : Nat) : (pool.allocate size).2 =
    if ChunkSize.IsChunk size then
      pool.setSizeClass size
        ((pool.sizeClass size).serve (.allocate pool.chainIncrement pool.maxChainLength))
    else pool := by
  unfold allocate
  split <;> rfl

/-- A release is one to the size class of the address. -/
theorem eq_of_free_eq_ok (h : pool.free handle address = .ok next) :
    next = pool.setSizeClass address.chunkSize
      ((pool.sizeClass address.chunkSize).serve
        (.free handle address.chainIndex address.slot)) := by
  unfold free at h
  split at h
  · cases h
  rcases hfound : pool.sizeClass? address.chunkSize with _ | found <;>
    simp only [hfound] at h
  · cases h
  split at h
  · rw [sizeClass_of_some hfound]
    rcases hcall : found.free handle address.chainIndex address.slot with e | freed <;>
      rw [hcall] at h <;> cases h
    simp only [SizeClass.serve, hcall]
  · cases h

/-- A size class with a slab is one in use. -/
theorem sizeClass?_of_slab {size i : Nat} (h : ((pool.sizeClass size).slab? i).isSome = true) :
    pool.sizeClass? size = some (pool.sizeClass size) := by
  rcases hfound : pool.sizeClass? size with _ | found
  · unfold sizeClass at h
    rw [hfound, Option.getD_none, SizeClass.slab?_fresh] at h
    cases h
  · rw [sizeClass_of_some hfound]

/-- A release that is granted takes back a chunk that starts at the address. -/
theorem Valid.freed_of_free_eq_ok (hv : pool.Valid) (h : pool.free handle address = .ok next) :
    address.slotOffset = 0 ∧ pool.isUsed address = true ∧ Freed pool address next := by
  have hoffset : address.slotOffset = 0 := by
    by_contra hne
    unfold free at h
    rw [if_pos hne] at h
    cases h
  have hindex : address.sizeIndex < 0x400 := by
    unfold free at h
    rw [if_neg (fun hne => hne hoffset)] at h
    rcases hfound : pool.sizeClass? address.chunkSize with _ | found
    · simp only [hfound] at h
      cases h
    · have hsize := (hv.isChunk _ _ hfound).2
      unfold ChunkSize.greatest ChunkAddress.chunkSize ChunkSize.ofIndex at hsize
      omega
  rcases hv.free_cases handle hindex hoffset with ⟨hused, freed, hcall, hfreed⟩ | ⟨-, hcall⟩
  · rw [h] at hcall
    cases hcall
    exact ⟨hoffset, hused, hfreed⟩
  · rw [h] at hcall
    cases hcall

end requests

section chunks
variable {pool : ChunkPool} (hv : pool.Valid) {size : Nat} (hsize : ChunkSize.IsChunk size)
  {chunks : List ChunkAddress} (hnodup : chunks.Nodup)
  (hmem : ∀ a, a ∈ chunks ↔ a.slotOffset = 0 ∧ pool.isUsed a = true ∧ a.chunkSize = size)

/-- The slots that some chunks lie in. -/
def slotsOf (chunks : List ChunkAddress) : List (Nat × Nat) :=
  chunks.map fun a => (a.chainIndex, a.slot)

include hnodup hmem in
theorem nodup_slotsOf : (slotsOf chunks).Nodup := by
  refine hnodup.map_on fun a ha b hb heq => ?_
  obtain ⟨haoffset, -, hasize⟩ := (hmem a).mp ha
  obtain ⟨hboffset, -, hbsize⟩ := (hmem b).mp hb
  rw [Prod.mk.injEq] at heq
  exact ChunkAddress.SameSlot.eq ⟨Nat.succ.inj (hasize.trans hbsize.symm), heq⟩ haoffset hboffset

include hsize hmem in
theorem mem_slotsOf_iff (position slot : Nat) : (position, slot) ∈ slotsOf chunks ↔
    (pool.sizeClass size).isUsed position slot = true := by
  unfold slotsOf
  rw [List.mem_map]
  constructor
  · rintro ⟨a, ha, heq⟩
    obtain ⟨-, hused, hasize⟩ := (hmem a).mp ha
    rw [Prod.mk.injEq] at heq
    unfold isUsed at hused
    rw [hasize, heq.1, heq.2] at hused
    exact hused
  · intro hused
    obtain ⟨hsame, hslot, hoffset⟩ := slot_start hsize position slot
    refine ⟨⟨ChunkSize.toIndex size, position, slot * size⟩, (hmem _).mpr ⟨hoffset, ?_, hsame⟩, ?_⟩
    · unfold isUsed
      rw [hsame, hslot]
      exact hused
    · rw [hslot]

include hv hsize hnodup hmem

/-- **The chunks of one size** are as many as the counters of their size class tell. -/
theorem Valid.length_eq_liveSlots : chunks.length = (pool.sizeClass size).liveSlots := by
  rw [← (hv.serves size hsize).valid.length_eq_liveSlots (nodup_slotsOf hnodup hmem)
    (mem_slotsOf_iff hsize hmem), slotsOf, List.length_map]

/-- In each slab they are as many as its counter tells. -/
theorem Valid.countP_eq_liveAt (position : Nat) :
    chunks.countP (fun a => a.chainIndex = position)
      = (pool.sizeClass size).liveAt position := by
  rw [← (hv.serves size hsize).valid.countP_eq_liveAt (nodup_slotsOf hnodup hmem)
    (mem_slotsOf_iff hsize hmem), slotsOf, List.countP_map]
  rfl

end chunks

/-! ### Requests and answers -/

/-- A request to a chunk pool. -/
inductive Request where
  | allocate (size : Nat)
  | free (handle : Handle) (address : ChunkAddress)
deriving DecidableEq, Repr

/-- A pool, and the live chunks that the answers of its run tell of: where they start and what was
asked for. -/
structure Ledger where
  pool : ChunkPool
  live : List (ChunkAddress × Nat)

namespace Ledger

/-- The number of live chunks of a size. -/
def liveOf (l : Ledger) (size : Nat) : Nat := l.live.countP fun entry => entry.2 = size

/-- The ledger before any request. -/
def start (settings : Settings) : Ledger := ⟨fresh settings, []⟩

/-- The ledger after one more request. -/
def next (l : Ledger) : Request → Ledger
  | .allocate size =>
    match l.pool.allocate size with
    | (.ok handle, pool) =>
      ⟨pool, (⟨handle.sizeIndex, handle.chainIndex, handle.offset⟩, size) :: l.live⟩
    | (.error _, pool) => ⟨pool, l.live⟩
  | .free handle address =>
    match l.pool.free handle address with
    | .ok pool => ⟨pool, l.live.filter fun entry => entry.1 ≠ address⟩
    | .error _ => l

/-- The ledger after a run of requests on a fresh pool. -/
def after (settings : Settings) (requests : List Request) : Ledger :=
  requests.foldl next (start settings)

/-- **The invariant of a ledger.** -/
structure Sound (l : Ledger) (settings : Settings) : Prop where
  valid : l.pool.Valid
  under : l.pool.Under settings
  nodup : (l.live.map Prod.fst).Nodup
  mem_live_iff : ∀ a n, (a, n) ∈ l.live ↔
    a.slotOffset = 0 ∧ l.pool.isUsed a = true ∧ a.chunkSize = n

theorem sound_start {settings : Settings} (h : settings.validate = .ok ()) :
    (start settings).Sound settings :=
  ⟨valid_fresh h, under_fresh settings, List.nodup_nil, fun a n => by simp [start]⟩

theorem pool_next_allocate (l : Ledger) (size : Nat) :
    (l.next (.allocate size)).pool = (l.pool.allocate size).2 := by
  rcases hcall : l.pool.allocate size with ⟨e | handle, pool⟩ <;> simp only [Ledger.next, hcall]

section steps
variable {settings : Settings} {l : Ledger} (hs : l.Sound settings)
include hs

theorem Sound.allocated {address : ChunkAddress} {pool : ChunkPool}
    (h : Allocated l.pool address pool) (hu : pool.Under settings)
    (hoffset : address.slotOffset = 0) :
    Sound ⟨pool, (address, address.chunkSize) :: l.live⟩ settings := by
  refine ⟨h.valid, hu, ?_, fun a n => ?_⟩
  · rw [List.map_cons, List.nodup_cons]
    refine ⟨fun hmem => ?_, hs.nodup⟩
    obtain ⟨⟨_, n⟩, hentry, rfl⟩ := List.mem_map.mp hmem
    have hused := ((hs.mem_live_iff _ _).mp hentry).2.1
    rw [h.free] at hused
    cases hused
  · rw [List.mem_cons, hs.mem_live_iff, h.isUsed_eq, Prod.mk.injEq]
    by_cases hsame : a.SameSlot address
    · rw [if_pos hsame]
      constructor
      · rintro (⟨rfl, rfl⟩ | ⟨ha, -, hn⟩)
        · exact ⟨hoffset, rfl, rfl⟩
        · exact ⟨ha, rfl, hn⟩
      · rintro ⟨ha, -, hn⟩
        have heq := hsame.eq ha hoffset
        exact Or.inl ⟨heq, heq ▸ hn.symm⟩
    · rw [if_neg hsame]
      refine ⟨fun hor => hor.resolve_left ?_, Or.inr⟩
      rintro ⟨rfl, -⟩
      exact hsame ⟨rfl, rfl, rfl⟩

theorem Sound.freed {address : ChunkAddress} {pool : ChunkPool} (h : Freed l.pool address pool)
    (hu : pool.Under settings) (hoffset : address.slotOffset = 0) :
    Sound ⟨pool, l.live.filter fun entry => entry.1 ≠ address⟩ settings := by
  refine ⟨h.valid, hu, hs.nodup.sublist (List.filter_sublist.map _), fun a n => ?_⟩
  rw [List.mem_filter, hs.mem_live_iff, h.isUsed_eq, decide_eq_true_iff]
  by_cases hsame : a.SameSlot address
  · rw [if_pos hsame]
    constructor
    · rintro ⟨⟨ha, -, -⟩, hne⟩
      exact absurd (hsame.eq ha hoffset) hne
    · rintro ⟨-, hfalse, -⟩
      cases hfalse
  · rw [if_neg hsame]
    refine and_iff_left ?_
    rintro rfl
    exact hsame ⟨rfl, rfl, rfl⟩

theorem Sound.next_allocate (size : Nat) : (l.next (.allocate size)).Sound settings := by
  have hpool := allocate_snd l.pool size
  by_cases hsize : ChunkSize.IsChunk size
  · rw [if_pos hsize] at hpool
    rcases hs.valid.allocate_address hsize with
      ⟨handle, address, pool, hcall, -, haddress, hoffset, rfl, ha⟩ | hcall
    · have hu : pool.Under settings := by
        rw [hcall] at hpool
        rw [show pool = _ from hpool]
        exact hs.under.setSizeClass _ _
      simp only [Ledger.next, hcall, Handle.eq_of_address_eq_chunk haddress]
      exact hs.allocated ha hu hoffset
    · simp only [Ledger.next, hcall]
      exact hs
  · have hcall : l.pool.allocate size
        = (.error (.sizeOutOfRange (Int64.ofNat size).toInt), l.pool) := if_neg hsize
    simp only [Ledger.next, hcall]
    exact hs

theorem Sound.next_free (handle : Handle) (address : ChunkAddress) :
    (l.next (.free handle address)).Sound settings := by
  rcases hcall : l.pool.free handle address with e | pool
  · simp only [Ledger.next, hcall]
    exact hs
  · obtain ⟨hoffset, -, hfreed⟩ := hs.valid.freed_of_free_eq_ok hcall
    have hu : pool.Under settings := by
      rw [eq_of_free_eq_ok hcall]
      exact hs.under.setSizeClass _ _
    simp only [Ledger.next, hcall]
    exact hs.freed hfreed hu hoffset

theorem Sound.next (request : Request) : (l.next request).Sound settings := by
  cases request with
  | allocate size => exact hs.next_allocate size
  | free handle address => exact hs.next_free handle address

/-- The live chunks of a size are the slots in use of its size class. -/
theorem Sound.liveOf_eq {size : Nat} (hsize : ChunkSize.IsChunk size) :
    l.liveOf size = (l.pool.sizeClass size).liveSlots := by
  have hsub : ((l.live.filter fun entry => entry.2 = size).map Prod.fst).Nodup :=
    hs.nodup.sublist (List.filter_sublist.map _)
  unfold liveOf
  rw [List.countP_eq_length_filter, ← List.length_map,
    hs.valid.length_eq_liveSlots hsize hsub]
  intro a
  rw [← hs.mem_live_iff, List.mem_map]
  constructor
  · rintro ⟨⟨_, n⟩, hentry, rfl⟩
    rw [List.mem_filter, decide_eq_true_iff] at hentry
    obtain ⟨hlive, rfl⟩ := hentry
    exact hlive
  · intro hlive
    exact ⟨(a, size), by simpa using hlive, rfl⟩

/-- A request leaves each size class with what its peak demands. -/
theorem Sound.packed_next {size peak : Nat} (hsize : ChunkSize.IsChunk size)
    (hp : (l.pool.sizeClass size).Packed settings.chainIncrement peak) (request : Request) :
    ((l.next request).pool.sizeClass size).Packed settings.chainIncrement
      (max peak ((l.next request).liveOf size)) := by
  rw [(hs.next request).liveOf_eq hsize]
  cases request with
  | allocate other =>
    rw [pool_next_allocate, allocate_snd]
    split
    · rw [sizeClass_setSizeClass, hs.under.chainIncrement_eq]
      split
      · next heq =>
        rw [← heq]
        exact (hp.serve_allocate _).1
      · exact hp.same
    · exact hp.same
  | free handle address =>
    rcases hcall : l.pool.free handle address with e | pool <;> simp only [Ledger.next, hcall]
    · exact hp.same
    · rw [eq_of_free_eq_ok hcall, sizeClass_setSizeClass]
      split
      · next heq =>
        rw [← heq]
        exact hp.serve_free _ _ _
      · exact hp.same

end steps

/-! ### Runs -/

section runs
variable {settings : Settings} (h : settings.validate = .ok ())
include h

omit h in
theorem after_concat (requests : List Request) (request : Request) :
    after settings (requests ++ [request]) = (after settings requests).next request := by
  unfold after
  exact List.foldl_concat _ _ _ _

theorem sound_after (requests : List Request) : (after settings requests).Sound settings := by
  induction requests using List.reverseRecOn with
  | nil => exact sound_start h
  | append_singleton requests request ih =>
    rw [after_concat]
    exact ih.next request

/-- Every size class has what the peak of its chunks demands. -/
theorem packed_after {size : Nat} (hsize : ChunkSize.IsChunk size) (requests : List Request) :
    ∃ peak, IsGreatest (levels (fun past => (after settings past).liveOf size) requests) peak ∧
      ((after settings requests).pool.sizeClass size).Packed settings.chainIncrement peak := by
  induction requests using List.reverseRecOn with
  | nil =>
    have hv := valid_fresh h
    have hs := hv.serves size hsize
    refine ⟨0, isGreatest_levels_nil, ?_⟩
    exact SizeClass.packed_fresh hsize.1 (Slab.capacity_pos hsize.1 _)
      (Slab.capacity_le hsize.1 _) hv.increment_pos
  | append_singleton requests request ih =>
    obtain ⟨peak, hpeak, hp⟩ := ih
    have hmore := isGreatest_levels_concat hpeak request
    have hpacked := (sound_after h requests).packed_next hsize hp request
    rw [← after_concat] at hpacked
    exact ⟨_, hmore, hpacked⟩

/-- After an allocation of some size, granted or refused, some chunk of that size is live. -/
theorem liveOf_pos {size : Nat} (hsize : ChunkSize.IsChunk size) (past : List Request) :
    0 < (after settings (past ++ [.allocate size])).liveOf size := by
  obtain ⟨peak, -, hp⟩ := packed_after h hsize past
  have hs := sound_after h past
  rw [after_concat, (hs.next _).liveOf_eq hsize, pool_next_allocate, allocate_snd, if_pos hsize,
    sizeClass_setSizeClass, if_pos rfl, hs.under.chainIncrement_eq]
  exact (hp.serve_allocate _).2

/-- **Chains are as long as their peak demands.**  After any requests, a size that was asked for has
a size class with the fewest slabs that hold the most chunks of that size that were ever live at
once, and with the least multiple of the increment as its length that does. -/
theorem demand_after {requests : List Request} {size : Nat} (hsize : ChunkSize.IsChunk size)
    (hmem : .allocate size ∈ requests) :
    ∃ peak found,
      IsGreatest (levels (fun past => (after settings past).liveOf size) requests) peak ∧
      (after settings requests).pool.sizeClass? size = some found ∧
      found.length = settings.chainIncrement *
        (peak ⌈/⌉ (settings.chainIncrement * Slab.capacity size settings.slabBufferSize)) ∧
      found.slabCount = peak ⌈/⌉ Slab.capacity size settings.slabBufferSize := by
  obtain ⟨peak, hpeak, hp⟩ := packed_after h hsize requests
  have hs := sound_after h requests
  have hslots := (hs.valid.serves size hsize).slotCount_eq
  rw [hs.under.slabBufferSize_eq] at hslots
  have hcompact := hp.compact
  have hlength := hp.length_eq
  rw [hslots] at hcompact hlength
  have hpos : 0 < peak := by
    obtain ⟨past, later, rfl⟩ := List.append_of_mem hmem
    exact Nat.lt_of_lt_of_le (liveOf_pos h hsize past) (hpeak.2 ⟨_, by simp, rfl⟩)
  rw [Nat.max_eq_right hpos] at hlength
  have hunits : 0 < peak ⌈/⌉ Slab.capacity size settings.slabBufferSize :=
    ceilDiv_pos (Slab.capacity_pos hsize.1 _) hpos
  have hfound := sizeClass?_of_slab ((hcompact 0).mpr hunits)
  exact ⟨peak, _, hpeak, hfound, hlength, hcompact.slabCount_eq⟩

end runs

/-- Settings under which a chain is lengthened by one slab at a time. -/
def narrow : Settings := { slabBufferSize := 1024, chainIncrement := 1, maxChainLength := 3 }

/-- Five chunks, for which one slab of four is too small, then two released and one more. -/
def fragmented : List Request :=
  List.replicate 5 (.allocate 1024) ++
    [.free Handle.null ⟨1023, 0, 0⟩, .free Handle.null ⟨1023, 0, 1024⟩, .allocate 1024]

/-- The two slabs that five live chunks demanded stay when four are live. -/
theorem demand_after_fragmented :
    (after narrow fragmented).liveOf 1024 = 4 ∧
      ((after narrow fragmented).pool.sizeClass 1024).slabCount = 2 ∧
      ∃ peak found,
        IsGreatest (levels (fun past => (after narrow past).liveOf 1024) fragmented) peak ∧
        (after narrow fragmented).pool.sizeClass? 1024 = some found ∧
        found.length = narrow.chainIncrement *
          (peak ⌈/⌉ (narrow.chainIncrement * Slab.capacity 1024 narrow.slabBufferSize)) ∧
        found.slabCount = peak ⌈/⌉ Slab.capacity 1024 narrow.slabBufferSize :=
  ⟨by decide +kernel, by decide +kernel, demand_after rfl (by decide) (by decide)⟩

end Ledger

end ChunkPool

end HandleHeap
