import HandleHeap.Proofs.Bounds
import HandleHeap.Proofs.Releases

/-!
# Extents

The part of a buffer that an access of some length is given, computed on words of 64 bits as the
two kinds of memory do it.  A block asks whether the end of the range is a word; a chunk adds
without asking, so that a sum which is too large loses its top bit or ends the program.  Lengths
are all those that a word can have.

* `Overflow`, `Overflow.add`: sums of words in the two ways of building a program;
* `ChunkPool.extent`, `BlockTable.extent`: the part of a slab or block that is given out;
* `SizeClass.Roomy`, `ChunkPool.Roomy`: slabs have room for their slots, under any settings;
* `ChunkPool.Ranged`, `BlockTable.Ranged`, `ranged_edited`: what every access is answered.
  Everything beyond the chunk or block is out of bounds, unless the sum is too large.
-/

namespace HandleHeap

/-! ### Sums of words -/

/-- How a sum of more than 64 bits ends: it loses what is too much, or the program stops. -/
inductive Overflow where
  | wraps
  | fails
deriving DecidableEq, Repr

/-- A sum of two words. -/
def Overflow.add : Overflow → UInt64 → UInt64 → Guarded UInt64
  | wraps, left, right => return left + right
  | fails, left, right => do
    let _ ← Guarded.word (left.toNat + right.toNat)
    return left + right

/-- A sum of two words, if it is a word. -/
def checkedAdd (left right : UInt64) : Option UInt64 :=
  if left.toNat + right.toNat < 0x10000000000000000 then some (left + right) else none

section sums
variable {left right : UInt64}

theorem toNat_add_of_lt (h : left.toNat + right.toNat < 0x10000000000000000) :
    (left + right).toNat = left.toNat + right.toNat := by
  rw [UInt64.toNat_add]
  exact Nat.mod_eq_of_lt h

/-- The top bit is all that a sum of two words can lose. -/
theorem toNat_add_of_le (h : 0x10000000000000000 ≤ left.toNat + right.toNat) :
    (left + right).toNat = left.toNat + right.toNat - 0x10000000000000000 := by
  have hleft := left.toNat_lt
  have hright := right.toNat_lt
  rw [UInt64.toNat_add]
  omega

theorem Overflow.add_of_lt (overflow : Overflow)
    (h : left.toNat + right.toNat < 0x10000000000000000) :
    overflow.add left right = .ok (left + right) := by
  cases overflow with
  | wraps => rfl
  | fails =>
    simp only [Overflow.add, Guarded.word_of_lt h]
    rfl

theorem Overflow.fails_add_of_le (h : 0x10000000000000000 ≤ left.toNat + right.toNat) :
    Overflow.fails.add left right
      = .error (.width (left.toNat + right.toNat) 0x10000000000000000) := by
  have hword : Guarded.word (left.toNat + right.toNat)
      = .error (.width (left.toNat + right.toNat) 0x10000000000000000) := if_neg (Nat.not_lt.mpr h)
  simp only [Overflow.add, hword]
  rfl

end sums

/-! ### Parts of buffers -/

/-- The bytes of a buffer from one position to another. -/
structure Extent where
  buffer : Buffer
  start : Nat
  stop : Nat

namespace Extent

/-- The bytes between two positions, which must be in order and in the buffer. -/
def cut (buffer : Buffer) (start stop : UInt64) : Guarded Extent :=
  if stop < start then .error (.negative stop.toNat start.toNat)
  else if buffer.size < stop.toNat then
    .error (.range start.toNat (stop.toNat - start.toNat) buffer.size)
  else .ok ⟨buffer, start.toNat, stop.toNat⟩

theorem cut_of_le {buffer : Buffer} {start stop : UInt64} (hle : start.toNat ≤ stop.toNat)
    (hroom : stop.toNat ≤ buffer.size) :
    cut buffer start stop = .ok ⟨buffer, start.toNat, stop.toNat⟩ := by
  have horder : ¬ stop < start := by rw [UInt64.lt_iff_toNat_lt]; omega
  unfold cut
  rw [if_neg horder, if_neg (Nat.not_lt.mpr hroom)]

theorem cut_of_lt (buffer : Buffer) {start stop : UInt64} (h : stop.toNat < start.toNat) :
    cut buffer start stop = .error (.negative stop.toNat start.toNat) :=
  if_pos (UInt64.lt_iff_toNat_lt.mpr h)

end Extent

/-- The bytes of a chunk from the address on.  The range is computed before the slab is looked
for, and without asking whether it wraps. -/
def ChunkPool.extent (overflow : Overflow) (pool : ChunkPool) (handle : Handle)
    (address : ChunkAddress) (length : UInt64) : Guarded (Except HeapError Extent) := do
  let inner ← overflow.add (.ofNat address.slotOffset) length
  if .ofNat address.chunkSize < inner then
    return .error (.outOfBounds handle length.toNat)
  else
    let stop ← overflow.add (.ofNat address.position) length
    match pool.liveSlab handle address with
    | .error e => return .error e
    | .ok slab => return .ok (← Extent.cut slab.buffer (.ofNat address.position) stop)

/-- The bytes of a block from the address on. -/
def BlockTable.extent (table : BlockTable) (handle : Handle) (address : BlockAddress)
    (length : UInt64) : Guarded (Except HeapError Extent) :=
  match table.liveBuffer handle address with
  | .error e => return .error e
  | .ok buffer =>
    match checkedAdd (.ofNat address.offset) length with
    | none => return .error (.outOfBounds handle length.toNat)
    | some stop =>
      if stop.toNat ≤ buffer.size then do
        return .ok (← Extent.cut buffer (.ofNat address.offset) stop)
      else
        return .error (.outOfBounds handle length.toNat)

/-! ### Room for the slots -/

/-- Every slab has the bytes of all its slots. -/
def SizeClass.Roomy (sizeClass : SizeClass) : Prop :=
  ∀ slab, some slab ∈ sizeClass.slabs →
    slab.buffer.size = slab.used.size * sizeClass.chunkSize

/-- The size classes have the chunk sizes that they are found by, and room for their slots. -/
def ChunkPool.Roomy (pool : ChunkPool) : Prop :=
  ∀ size found, pool.sizeClass? size = some found → found.chunkSize = size ∧ found.Roomy

namespace SizeClass

theorem roomy_fresh (chunkSize slotCount length : Nat) :
    (fresh chunkSize slotCount length).Roomy := by
  intro slab hslab
  exact absurd (Array.mem_replicate.mp hslab).2 nofun

theorem chunkSize_claimAt (sizeClass : SizeClass) (position : Nat) :
    (sizeClass.claimAt position).2.chunkSize = sizeClass.chunkSize := by
  unfold claimAt
  dsimp only
  split <;> rfl

theorem chunkSize_allocate (sizeClass : SizeClass) (increment bound : Nat) :
    (sizeClass.allocate increment bound).2.chunkSize = sizeClass.chunkSize := by
  unfold allocate extend
  split
  · exact chunkSize_claimAt _ _
  · split
    · rfl
    · next longer hlonger =>
      split at hlonger
      · cases hlonger
      · cases hlonger
        exact chunkSize_claimAt _ _

theorem chunkSize_of_free_eq_ok {sizeClass next : SizeClass} {handle : Handle}
    {position slot : Nat} (h : sizeClass.free handle position slot = .ok next) :
    next.chunkSize = sizeClass.chunkSize := by
  unfold free at h
  split at h
  · cases h
  · cases h
    rfl

section roomy
variable {sizeClass : SizeClass} (hr : sizeClass.Roomy)
include hr

theorem Roomy.setSlab {slab : Slab}
    (h : slab.buffer.size = slab.used.size * sizeClass.chunkSize) (position : Nat) :
    (sizeClass.setSlab position slab).Roomy := by
  intro other hother
  rcases Array.mem_or_eq_of_mem_setIfInBounds hother with hmem | heq
  · exact hr other hmem
  · rw [Option.some.inj heq]
    exact h

theorem Roomy.of_slab? {position : Nat} {slab : Slab} (h : sizeClass.slab? position = some slab) :
    slab.buffer.size = slab.used.size * sizeClass.chunkSize :=
  hr slab (Array.mem_of_getElem? (slab?_eq_some_iff.mp h))

theorem Roomy.claimAt (position : Nat) : (sizeClass.claimAt position).2.Roomy := by
  have hslab : (sizeClass.slabOrFresh position).buffer.size
      = (sizeClass.slabOrFresh position).used.size * sizeClass.chunkSize := by
    unfold slabOrFresh
    rcases hfound : sizeClass.slab? position with _ | slab
    · show sizeClass.chunkSize * sizeClass.slotCount
        = (Array.replicate sizeClass.slotCount false).size * sizeClass.chunkSize
      rw [Array.size_replicate, Nat.mul_comm]
    · exact hr.of_slab? hfound
  unfold SizeClass.claimAt
  rw [← slabOrFresh]
  dsimp only
  split
  · exact hr.setSlab hslab position
  · next slot claimed hclaim =>
    -- a claim sets a flag, and neither the number of flags nor the bytes change
    obtain ⟨index, -, hclaimed⟩ := Option.map_eq_some_iff.mp hclaim
    obtain rfl := (Prod.mk.inj hclaimed).2
    refine hr.setSlab ?_ position
    rw [Array.size_setIfInBounds]
    exact hslab

theorem Roomy.allocate (increment bound : Nat) : (sizeClass.allocate increment bound).2.Roomy := by
  unfold SizeClass.allocate SizeClass.extend
  split
  · exact hr.claimAt _
  · split
    · exact hr
    · next longer hlonger =>
      split at hlonger
      · cases hlonger
      · cases hlonger
        refine Roomy.claimAt (fun slab hslab => ?_) _
        rcases Array.mem_append.mp hslab with hold | hnew
        · exact hr slab hold
        · exact absurd (Array.mem_replicate.mp hnew).2 nofun

theorem Roomy.of_free_eq_ok {next : SizeClass} {handle : Handle} {position slot : Nat}
    (h : sizeClass.free handle position slot = .ok next) : next.Roomy := by
  unfold SizeClass.free at h
  split at h
  · cases h
  · next released hreleased =>
    cases h
    obtain ⟨slab, hslab, hrelease⟩ := Option.bind_eq_some_iff.mp hreleased
    have hsize : released.buffer.size = released.used.size * sizeClass.chunkSize := by
      unfold Slab.release at hrelease
      split at hrelease
      · cases hrelease
        rw [Buffer.size_put, Array.size_setIfInBounds]
        exact hr.of_slab? hslab
      · cases hrelease
    refine hr.setSlab ?_ position
    split
    · exact hsize
    · exact hsize

end roomy

end SizeClass

namespace ChunkPool

theorem roomy_fresh (settings : Settings) : (fresh settings).Roomy := by
  intro size found hfound
  exact absurd hfound (by simp [sizeClass?, fresh])

section roomy
variable {pool : ChunkPool} (hr : pool.Roomy)
include hr

theorem Roomy.sizeClass (size : Nat) :
    (pool.sizeClass size).chunkSize = size ∧ (pool.sizeClass size).Roomy := by
  rcases hfound : pool.sizeClass? size with _ | found
  · unfold ChunkPool.sizeClass
    rw [hfound]
    exact ⟨rfl, SizeClass.roomy_fresh _ _ _⟩
  · rw [sizeClass_of_some hfound]
    exact hr size found hfound

theorem Roomy.setSizeClass {size : Nat} {next : SizeClass} (hsize : next.chunkSize = size)
    (hnext : next.Roomy) : (pool.setSizeClass size next).Roomy := by
  intro other found hfound
  rw [sizeClass?_setSizeClass] at hfound
  split at hfound
  · next heq =>
    cases hfound
    exact ⟨hsize.trans heq.symm, hnext⟩
  · exact hr other found hfound

theorem Roomy.allocate (size : Nat) : (pool.allocate size).2.Roomy := by
  obtain ⟨hsize, hclass⟩ := hr.sizeClass size
  rw [allocate_snd]
  split
  · exact hr.setSizeClass ((SizeClass.chunkSize_allocate _ _ _).trans hsize) (hclass.allocate _ _)
  · exact hr

theorem Roomy.of_free_eq_ok {next : ChunkPool} {handle : Handle} {address : ChunkAddress}
    (h : pool.free handle address = .ok next) : next.Roomy := by
  obtain ⟨hsize, hclass⟩ := hr.sizeClass address.chunkSize
  rw [ChunkPool.eq_of_free_eq_ok h]
  rcases hcall : (pool.sizeClass address.chunkSize).free handle address.chainIndex address.slot
    with e | freed <;> simp only [SizeClass.serve, hcall]
  · exact hr.setSizeClass hsize hclass
  · exact hr.setSizeClass ((SizeClass.chunkSize_of_free_eq_ok hcall).trans hsize)
      (hclass.of_free_eq_ok hcall)

theorem Roomy.of_liveSlab {handle : Handle} {address : ChunkAddress} {slab : Slab}
    (h : pool.liveSlab handle address = .ok slab) :
    slab.isUsed address.slot = true ∧
      slab.buffer.size = slab.used.size * address.chunkSize := by
  obtain ⟨found, hfound, hslab, hused⟩ := ChunkPool.of_liveSlab h
  obtain ⟨hsize, hclass⟩ := hr _ found hfound
  rw [← hsize]
  exact ⟨hused, hclass.of_slab? hslab⟩

theorem Roomy.of_write_eq_ok {next : ChunkPool} {handle : Handle} {address : ChunkAddress}
    {bytes : List UInt8} (h : pool.write handle address bytes = .ok next) : next.Roomy := by
  obtain ⟨hsize, hclass⟩ := hr.sizeClass address.chunkSize
  rcases hslab : pool.slabFor handle address bytes.length with e | slab <;>
    rw [write, hslab] at h <;> cases h
  have hlive : pool.liveSlab handle address = .ok slab := by
    unfold slabFor at hslab
    split_ifs at hslab
    exact hslab
  refine hr.setSizeClass hsize (hclass.setSlab ?_ _)
  rw [Buffer.size_put, hsize]
  exact (hr.of_liveSlab hlive).2

end roomy

namespace Ledger

theorem roomy_edit {l : Ledger} (hr : l.pool.Roomy) (edit : Edit) : (l.edit edit).pool.Roomy := by
  cases edit with
  | request request =>
    cases request with
    | allocate size =>
      show (l.next (.allocate size)).pool.Roomy
      rw [pool_next_allocate]
      exact hr.allocate size
    | free handle address =>
      rcases hcall : l.pool.free handle address with e | pool <;>
        simp only [Ledger.edit, Ledger.next, hcall]
      · exact hr
      · exact hr.of_free_eq_ok hcall
  | write handle address bytes =>
    rcases hcall : l.pool.write handle address bytes with e | pool <;>
      simp only [Ledger.edit, hcall]
    · exact hr
    · exact hr.of_write_eq_ok hcall

/-- Whatever the settings, slabs keep the room for their slots. -/
theorem roomy_edited (settings : Settings) (edits : List Edit) :
    (edited settings edits).pool.Roomy := by
  unfold edited
  induction edits using List.reverseRecOn with
  | nil => exact roomy_fresh settings
  | append_singleton edits edit ih =>
    rw [List.foldl_concat]
    exact roomy_edit ih edit

end Ledger

end ChunkPool

/-! ### Blocks smaller than the largest word -/

namespace BlockTable

/-- A call that changes a table. -/
inductive Edit where
  | allocate (size : UInt64)
  | free (handle : Handle) (address : BlockAddress)
  | write (handle : Handle) (address : BlockAddress) (bytes : List UInt8)

/-- The table after one more call. -/
def edit (table : BlockTable) : Edit → BlockTable
  | .allocate size => (table.allocate size.toNat).2
  | .free handle address => (table.free handle address).toOption.getD table
  | .write handle address bytes => (table.write handle address bytes).toOption.getD table

/-- The table after a run of calls on an empty one. -/
def edited (edits : List Edit) : BlockTable := edits.foldl edit empty

/-- The size of every buffer is a word. -/
def Sized (table : BlockTable) : Prop :=
  ∀ buffer, some buffer ∈ table.buffers → buffer.size < 0x10000000000000000

section sized
variable {table : BlockTable} (hs : table.Sized)
include hs

theorem Sized.setIfInBounds {content : Option Buffer}
    (h : ∀ buffer, content = some buffer → buffer.size < 0x10000000000000000) (index : Nat)
    (spare : List Nat) : Sized ⟨table.buffers.setIfInBounds index content, spare⟩ := by
  intro buffer hbuffer
  rcases Array.mem_or_eq_of_mem_setIfInBounds hbuffer with hmem | heq
  · exact hs buffer hmem
  · exact h buffer heq.symm

theorem Sized.of_buffer? {identifier : Nat} {buffer : Buffer}
    (h : table.buffer? identifier = some buffer) : buffer.size < 0x10000000000000000 := by
  obtain ⟨index, -, -, hindex⟩ := exists_index h
  exact hs buffer (Array.mem_of_getElem? hindex)

theorem Sized.allocate (size : UInt64) : (table.allocate size.toNat).2.Sized := by
  have hsize : (Buffer.zeroed size.toNat).size < 0x10000000000000000 := size.toNat_lt
  unfold BlockTable.allocate
  split
  · exact hs.setIfInBounds (fun buffer hbuffer => by cases hbuffer; exact hsize) _ _
  · split
    · intro buffer hbuffer
      rcases Array.mem_push.mp hbuffer with hmem | heq
      · exact hs buffer hmem
      · cases heq
        exact hsize
    · exact hs

theorem Sized.of_free_eq_ok {next : BlockTable} {handle : Handle} {address : BlockAddress}
    (h : table.free handle address = .ok next) : next.Sized := by
  unfold BlockTable.free at h
  split at h
  · cases h
  split at h
  · cases h
  split at h
  · cases h
    refine hs.setIfInBounds (fun buffer hbuffer => ?_) _ _
    cases hbuffer
  · cases h

theorem Sized.of_write_eq_ok {next : BlockTable} {handle : Handle} {address : BlockAddress}
    {bytes : List UInt8} (h : table.write handle address bytes = .ok next) : next.Sized := by
  unfold write at h
  rcases hcall : table.bufferFor handle address bytes.length with e | buffer <;>
    rw [hcall] at h <;> cases h
  have hsize := hs.of_buffer? (bufferFor_eq_ok_iff.mp hcall).1
  refine hs.setIfInBounds (fun other hother => ?_) _ _
  rw [← Option.some.inj hother, Buffer.size_put]
  exact hsize

theorem Sized.edit (edit : Edit) : (table.edit edit).Sized := by
  cases edit with
  | allocate size => exact hs.allocate size
  | free handle address =>
    show ((table.free handle address).toOption.getD table).Sized
    rcases hcall : table.free handle address with e | next
    · exact hs
    · exact hs.of_free_eq_ok hcall
  | write handle address bytes =>
    show ((table.write handle address bytes).toOption.getD table).Sized
    rcases hcall : table.write handle address bytes with e | next
    · exact hs
    · exact hs.of_write_eq_ok hcall

end sized

theorem sized_edited (edits : List Edit) : (edited edits).Sized := by
  unfold edited
  induction edits using List.reverseRecOn with
  | nil => exact fun buffer hbuffer => absurd hbuffer (by simp [empty])
  | append_singleton edits edit ih =>
    rw [List.foldl_concat]
    exact ih.edit edit

end BlockTable

/-! ### Answers -/

/-- What an access to `length` bytes of a chunk pool is answered. -/
structure ChunkPool.Ranged (pool : ChunkPool) (handle : Handle) (address : ChunkAddress)
    (length : UInt64) : Prop where
  /-- What goes beyond the chunk is out of bounds, as long as the end of it is a word, -/
  outOfBounds : address.slotOffset + length.toNat < 0x10000000000000000 →
    address.chunkSize < address.slotOffset + length.toNat → ∀ overflow,
      pool.extent overflow handle address length = .ok (.error (.outOfBounds handle length.toNat))
  /-- what does not is refused where no chunk is live, -/
  dead : address.slotOffset + length.toNat ≤ address.chunkSize → pool.isUsed address = false →
    ∀ overflow, pool.extent overflow handle address length
      = .ok (.error (.invalidHandle handle))
  /-- and else is in the chunk, which is in the slab. -/
  granted : address.slotOffset + length.toNat ≤ address.chunkSize → pool.isUsed address = true →
    ∃ slab, pool.liveSlab handle address = .ok slab ∧
      address.slot * address.chunkSize ≤ address.position ∧
      address.position + length.toNat ≤ (address.slot + 1) * address.chunkSize ∧
      (address.slot + 1) * address.chunkSize ≤ slab.buffer.size ∧
      ∀ overflow, pool.extent overflow handle address length
        = .ok (.ok ⟨slab.buffer, address.position, address.position + length.toNat⟩)
  /-- An end that is no word stops the program, -/
  fails : 0x10000000000000000 ≤ address.slotOffset + length.toNat →
    pool.extent .fails handle address length
      = .error (.width (address.slotOffset + length.toNat) 0x10000000000000000)
  /-- or has it cut a live slab at an end before the start, or is not noticed. -/
  wraps : 0x10000000000000000 ≤ address.slotOffset + length.toNat →
    pool.extent .wraps handle address length = if pool.isUsed address = true then
        .error (.negative (address.position + length.toNat - 0x10000000000000000) address.position)
      else .ok (.error (.invalidHandle handle))
  /-- It is what reading and writing are given, which stop at an end that is no word. -/
  slabFor_eq : pool.extent .fails handle address length
    = match pool.slabFor handle address length.toNat with
      | .ok slab => .ok (.ok ⟨slab.buffer, address.position, address.position + length.toNat⟩)
      | .error (.wrappedRange _ _) =>
        .error (.width (address.slotOffset + length.toNat) 0x10000000000000000)
      | .error e => .ok (.error e)

/-- What an access to `length` bytes of a block table is answered. -/
structure BlockTable.Ranged (table : BlockTable) (handle : Handle) (address : BlockAddress)
    (length : UInt64) : Prop where
  dead : table.buffer? address.identifier = none →
    table.extent handle address length = .ok (.error (.invalidHandle handle))
  outOfBounds : ∀ buffer, table.buffer? address.identifier = some buffer →
    buffer.size < address.offset + length.toNat →
      table.extent handle address length = .ok (.error (.outOfBounds handle length.toNat))
  granted : ∀ buffer, table.buffer? address.identifier = some buffer →
    address.offset + length.toNat ≤ buffer.size →
      table.extent handle address length
        = .ok (.ok ⟨buffer, address.offset, address.offset + length.toNat⟩)
  /-- It is what reading and writing are given. -/
  bufferFor_eq : table.extent handle address length
    = .ok ((table.bufferFor handle address length.toNat).map fun buffer =>
        ⟨buffer, address.offset, address.offset + length.toNat⟩)

namespace ChunkPool

section words
variable {address : ChunkAddress} (ha : (Address.chunk address).Fits) (length : UInt64)
include ha

/-- The three numbers of an address are words, and far from the largest. -/
theorem toNat_words : (UInt64.ofNat address.slotOffset).toNat = address.slotOffset ∧
    (UInt64.ofNat address.chunkSize).toNat = address.chunkSize ∧
    (UInt64.ofNat address.position).toNat = address.position ∧
    address.slotOffset < address.chunkSize ∧ address.chunkSize ≤ 0x400 ∧
    address.slotOffset ≤ address.position ∧ address.position < 0x100000000 := by
  obtain ⟨hindex, -, hposition⟩ := ha
  have hsize : address.chunkSize ≤ 0x400 := (isChunk_chunkSize hindex).2
  have hinner : address.slotOffset < address.chunkSize := Nat.mod_lt _ address.chunkSize_pos
  have hstart : address.slotOffset ≤ address.position := Nat.mod_le _ _
  have hword : UInt64.size = 0x10000000000000000 := rfl
  exact ⟨UInt64.toNat_ofNat_of_lt' (by omega), UInt64.toNat_ofNat_of_lt' (by omega),
    UInt64.toNat_ofNat_of_lt' (by omega), hinner, hsize, hstart, hposition⟩

variable (pool : ChunkPool) (handle : Handle)

theorem extent_of_lt (overflow : Overflow)
    (hword : address.slotOffset + length.toNat < 0x10000000000000000)
    (hlong : address.chunkSize < address.slotOffset + length.toNat) :
    pool.extent overflow handle address length
      = .ok (.error (.outOfBounds handle length.toNat)) := by
  obtain ⟨hslot, hchunk, -, -, -, -, -⟩ := toNat_words ha
  rw [← hslot] at hword hlong
  have hlt : UInt64.ofNat address.chunkSize < .ofNat address.slotOffset + length := by
    rw [UInt64.lt_iff_toNat_lt, toNat_add_of_lt hword, hchunk]
    exact hlong
  unfold extent
  rw [overflow.add_of_lt hword, ok_bind, if_pos hlt]
  rfl

/-- Within the chunk no sum wraps. -/
theorem extent_of_le (overflow : Overflow)
    (hle : address.slotOffset + length.toNat ≤ address.chunkSize) :
    pool.extent overflow handle address length
      = match pool.liveSlab handle address with
        | .error e => .ok (.error e)
        | .ok slab => (Extent.cut slab.buffer (.ofNat address.position)
            (.ofNat address.position + length)).map .ok := by
  obtain ⟨hslot, hchunk, hstart, -, hsize, -, hposition⟩ := toNat_words ha
  have hinner : (UInt64.ofNat address.slotOffset).toNat + length.toNat < 0x10000000000000000 := by
    omega
  have houter : (UInt64.ofNat address.position).toNat + length.toNat < 0x10000000000000000 := by
    omega
  have hfit : ¬ UInt64.ofNat address.chunkSize < .ofNat address.slotOffset + length := by
    rw [UInt64.lt_iff_toNat_lt, toNat_add_of_lt hinner]
    omega
  unfold extent
  rw [overflow.add_of_lt hinner, ok_bind, if_neg hfit, overflow.add_of_lt houter,
    ok_bind]
  rcases pool.liveSlab handle address with e | slab
  · rfl
  · rfl

/-- A sum that wraps is small enough to pass for a range within the chunk. -/
theorem extent_wraps_of_le (hwrap : 0x10000000000000000 ≤ address.slotOffset + length.toNat) :
    pool.extent .wraps handle address length
      = match pool.liveSlab handle address with
        | .error e => .ok (.error e)
        | .ok _ => .error (.negative (address.position + length.toNat - 0x10000000000000000)
            address.position) := by
  obtain ⟨hslot, hchunk, hstart, hinner, -, hle, -⟩ := toNat_words ha
  have hlength := length.toNat_lt
  rw [← hslot] at hwrap
  have hfit : ¬ UInt64.ofNat address.chunkSize < .ofNat address.slotOffset + length := by
    rw [UInt64.lt_iff_toNat_lt, toNat_add_of_le hwrap]
    omega
  have hstop : (UInt64.ofNat address.position + length).toNat
      = address.position + length.toNat - 0x10000000000000000 := by
    rw [toNat_add_of_le (by omega), hstart]
  unfold extent
  show (if UInt64.ofNat address.chunkSize < .ofNat address.slotOffset + length then _ else _) = _
  rw [if_neg hfit]
  rcases pool.liveSlab handle address with e | slab
  · rfl
  · have hcut := Extent.cut_of_lt slab.buffer
      (by omega : (UInt64.ofNat address.position + length).toNat
        < (UInt64.ofNat address.position).toNat)
    rw [hstop, hstart] at hcut
    simp only [Overflow.add, pure_eq_ok, ok_bind, hcut]
    rfl

theorem extent_fails_of_le (hwrap : 0x10000000000000000 ≤ address.slotOffset + length.toNat) :
    pool.extent .fails handle address length
      = .error (.width (address.slotOffset + length.toNat) 0x10000000000000000) := by
  obtain ⟨hslot, -, -, -, -, -, -⟩ := toNat_words ha
  rw [← hslot] at hwrap ⊢
  unfold extent
  rw [Overflow.fails_add_of_le hwrap]
  rfl

end words

section roomy
variable {pool : ChunkPool} (hr : pool.Roomy) {address : ChunkAddress}
  (ha : (Address.chunk address).Fits) (handle : Handle) (length : UInt64)
include hr ha

/-- A range within a live chunk is one of the slab, whose last slot the chunk need not be. -/
theorem Roomy.extent_eq {slab : Slab} (hlive : pool.liveSlab handle address = .ok slab)
    (hle : address.slotOffset + length.toNat ≤ address.chunkSize) :
    (address.slot + 1) * address.chunkSize ≤ slab.buffer.size ∧
      ∀ overflow, pool.extent overflow handle address length
        = .ok (.ok ⟨slab.buffer, address.position, address.position + length.toNat⟩) := by
  obtain ⟨-, -, hstart, -, hsize, -, hposition⟩ := toNat_words ha
  obtain ⟨hused, hbuffer⟩ := hr.of_liveSlab hlive
  have hsplit := address.slot_mul_add
  have hnext : (address.slot + 1) * address.chunkSize
      = address.slot * address.chunkSize + address.chunkSize := Nat.succ_mul _ _
  have hroom : (address.slot + 1) * address.chunkSize ≤ slab.buffer.size := by
    rw [hbuffer]
    exact Nat.mul_le_mul_right _ (Slab.lt_of_isUsed hused)
  have hstop : (UInt64.ofNat address.position + length).toNat
      = address.position + length.toNat := by
    rw [toNat_add_of_lt (by omega), hstart]
  have hcut := Extent.cut_of_le
    (by omega : (UInt64.ofNat address.position).toNat
      ≤ (UInt64.ofNat address.position + length).toNat)
    (by omega : (UInt64.ofNat address.position + length).toNat ≤ slab.buffer.size)
  rw [hstart, hstop] at hcut
  refine ⟨hroom, fun overflow => ?_⟩
  rw [extent_of_le ha length pool handle overflow hle, hlive]
  simp only [hcut]
  rfl

/-- The part of a slab that is given out is the one that is read and written. -/
theorem Roomy.extent_eq_slabFor : pool.extent .fails handle address length
    = match pool.slabFor handle address length.toNat with
      | .ok slab => .ok (.ok ⟨slab.buffer, address.position, address.position + length.toNat⟩)
      | .error (.wrappedRange _ _) =>
        .error (.width (address.slotOffset + length.toNat) 0x10000000000000000)
      | .error e => .ok (.error e) := by
  obtain ⟨-, -, -, hinner, hsize, -, -⟩ := toNat_words ha
  rcases Nat.lt_or_ge (address.slotOffset + length.toNat) 0x10000000000000000 with hword | hwrap
  · rw [slabFor_eq hword]
    by_cases hlong : address.chunkSize < address.slotOffset + length.toNat
    · rw [if_pos hlong, extent_of_lt ha length pool handle .fails hword hlong]
    · rw [if_neg hlong]
      have hle := Nat.not_lt.mp hlong
      rcases liveSlab_cases pool handle address with ⟨-, -, slab, -, -, -, hlive⟩ | ⟨-, herror⟩
      · rw [hlive]
        exact (hr.extent_eq ha handle length hlive hle).2 .fails
      · rw [extent_of_le ha length pool handle .fails hle, herror]
  · rw [extent_fails_of_le ha length pool handle hwrap, slabFor, if_pos hwrap]

/-- **Access to a pool**, with any length that is a word. -/
theorem Roomy.ranged : pool.Ranged handle address length := by
  have hsplit := address.slot_mul_add
  have hnext : (address.slot + 1) * address.chunkSize
      = address.slot * address.chunkSize + address.chunkSize := Nat.succ_mul _ _
  refine ⟨fun hword hlong overflow => extent_of_lt ha length pool handle overflow hword hlong,
    fun hle hdead overflow => ?_, fun hle hused => ?_,
    fun hwrap => extent_fails_of_le ha length pool handle hwrap, fun hwrap => ?_,
    hr.extent_eq_slabFor ha handle length⟩
  · rcases liveSlab_cases pool handle address with ⟨hused, -⟩ | ⟨-, herror⟩
    · rw [hdead] at hused
      cases hused
    · rw [extent_of_le ha length pool handle overflow hle, herror]
  · rcases liveSlab_cases pool handle address with ⟨-, -, slab, -, -, -, hlive⟩ | ⟨hdead, -⟩
    · obtain ⟨hroom, hextent⟩ := hr.extent_eq ha handle length hlive hle
      exact ⟨slab, hlive, by omega, by omega, hroom, hextent⟩
    · rw [hused] at hdead
      cases hdead
  · rw [extent_wraps_of_le ha length pool handle hwrap]
    rcases liveSlab_cases pool handle address with
      ⟨hused, -, slab, -, -, -, hlive⟩ | ⟨hdead, herror⟩
    · rw [hlive, if_pos hused]
    · rw [herror, if_neg (by rw [hdead]; exact nofun)]

end roomy

end ChunkPool

namespace BlockTable

section sized
variable {table : BlockTable} (hs : table.Sized) {address : BlockAddress}
  (ha : (Address.block address).Fits) (handle : Handle) (length : UInt64)
include hs ha

/-- The part of a block that is given out is the one that is read and written. -/
theorem Sized.extent_eq_bufferFor : table.extent handle address length
    = .ok ((table.bufferFor handle address length.toNat).map fun buffer =>
        ⟨buffer, address.offset, address.offset + length.toNat⟩) := by
  obtain ⟨-, hoffset⟩ := ha
  have hstart : (UInt64.ofNat address.offset).toNat = address.offset :=
    UInt64.toNat_ofNat_of_lt' (Nat.lt_trans hoffset (by decide))
  unfold extent bufferFor liveBuffer checkedAdd
  rcases hbuffer : table.buffer? address.identifier with _ | buffer
  · rfl
  have hsize := hs.of_buffer? hbuffer
  rw [hstart]
  by_cases hword : address.offset + length.toNat < 0x10000000000000000
  · have hstop : (UInt64.ofNat address.offset + length).toNat
        = address.offset + length.toNat := by
      rw [toNat_add_of_lt (by omega), hstart]
    simp only [if_pos hword, hstop]
    by_cases hle : address.offset + length.toNat ≤ buffer.size
    · have hcut := Extent.cut_of_le
        (by omega : (UInt64.ofNat address.offset).toNat
          ≤ (UInt64.ofNat address.offset + length).toNat)
        (by omega : (UInt64.ofNat address.offset + length).toNat ≤ buffer.size)
      rw [hstart, hstop] at hcut
      simp only [if_pos hle, hcut]
      rfl
    · simp only [if_neg hle]
      rfl
  · -- a sum that is no word goes beyond every buffer
    simp only [if_neg hword, if_neg (by omega : ¬ address.offset + length.toNat ≤ buffer.size)]
    rfl

/-- **Access to a table**, with any length that is a word. -/
theorem Sized.ranged : table.Ranged handle address length := by
  have hextent := hs.extent_eq_bufferFor ha handle length
  refine ⟨fun hdead => ?_, fun buffer hbuffer hlong => ?_, fun buffer hbuffer hle => ?_, hextent⟩
  · rw [hextent]
    unfold bufferFor liveBuffer
    rw [hdead]
    rfl
  · rw [hextent]
    unfold bufferFor liveBuffer
    simp only [hbuffer, if_neg (Nat.not_le.mpr hlong)]
    rfl
  · rw [hextent, bufferFor_eq_ok_iff.mpr ⟨hbuffer, hle⟩]
    rfl

end sized

end BlockTable

/-- **Every access is answered by its range.**  After any calls, under any settings, what goes
beyond a block is out of bounds for every length, and so is what goes beyond a chunk unless the end
within the slot is no word. -/
theorem ranged_edited (settings : Settings) (chunkEdits : List ChunkPool.Ledger.Edit)
    (blockEdits : List BlockTable.Edit) (handle : Handle) (length : UInt64) :
    (∀ address, Address.ofHandle handle = .ok (.chunk address) →
      (ChunkPool.Ledger.edited settings chunkEdits).pool.Ranged handle address length) ∧
    ∀ address, Address.ofHandle handle = .ok (.block address) →
      (BlockTable.edited blockEdits).Ranged handle address length := by
  refine ⟨fun address haddress => ?_, fun address haddress => ?_⟩
  · exact (ChunkPool.Ledger.roomy_edited settings chunkEdits).ranged
      (Address.fits_of_ofHandle haddress) handle length
  · exact (BlockTable.sized_edited blockEdits).ranged
      (Address.fits_of_ofHandle haddress) handle length

/-- The pool after some allocations of eight bytes. -/
def eights (count : Nat) : ChunkPool :=
  (ChunkPool.Ledger.edited {} (List.replicate count (.request (.allocate 8)))).pool

/-- The end of a range can be no word.  Four bytes into the second slot, and with a length that
makes the end within the slot `2 ^ 64`, the range is not refused for its length.  The program stops;
or else a slot that was not handed out is what is wrong with it, and one that was is cut at an end
before the start. -/
theorem extent_eights :
    Address.ofHandle 4643211215818981388 = .ok (.chunk ⟨7, 0, 12⟩) ∧
      ChunkAddress.chunkSize ⟨7, 0, 12⟩
        < ChunkAddress.slotOffset ⟨7, 0, 12⟩ + (0xfffffffffffffffc : UInt64).toNat ∧
      (eights 1).read 4643211215818981388 ⟨7, 0, 12⟩ 0xfffffffffffffffc
        = .error (.wrappedRange 4643211215818981388 0xfffffffffffffffc) ∧
      (eights 1).extent .wraps 4643211215818981388 ⟨7, 0, 12⟩ 0xfffffffffffffffc
        = .ok (.error (.invalidHandle 4643211215818981388)) ∧
      (eights 2).extent .wraps 4643211215818981388 ⟨7, 0, 12⟩ 0xfffffffffffffffc
        = .error (.negative 8 12) ∧
      ∀ count, (eights count).extent .fails 4643211215818981388 ⟨7, 0, 12⟩ 0xfffffffffffffffc
        = .error (.width 0x10000000000000000 0x10000000000000000) := by
  have hfits : (Address.chunk ⟨7, 0, 12⟩).Fits := ⟨by decide, by decide, by decide⟩
  have hwrap : 0x10000000000000000
      ≤ ChunkAddress.slotOffset ⟨7, 0, 12⟩ + (0xfffffffffffffffc : UInt64).toNat := by decide
  have hranged := fun count => (ChunkPool.Ledger.roomy_edited {}
    (List.replicate count (.request (.allocate 8)))).ranged hfits 4643211215818981388
      0xfffffffffffffffc
  have hdead : (eights 1).isUsed ⟨7, 0, 12⟩ = false := by decide +kernel
  have hlive : (eights 2).isUsed ⟨7, 0, 12⟩ = true := by decide +kernel
  refine ⟨by decide, by decide, ?_, ?_, ?_, fun count => (hranged count).fails hwrap⟩
  · have hread : (eights 1).slabFor 4643211215818981388 ⟨7, 0, 12⟩ 0xfffffffffffffffc
        = .error (.wrappedRange 4643211215818981388 0xfffffffffffffffc) := if_pos hwrap
    rw [ChunkPool.read, hread]
    rfl
  · rw [eights, (hranged 1).wraps hwrap, ← eights, hdead]
    rfl
  · rw [eights, (hranged 2).wraps hwrap, ← eights, hlive]
    rfl

end HandleHeap
