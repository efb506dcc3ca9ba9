import HandleHeap.Proofs.Bounds
import HandleHeap.Proofs.ByteArrays

/-!
# Windows on a heap

A range to which access is granted lies in one buffer, and the rest of the heap surrounds it.
Access inside the range is access to that buffer.

* `ChunkPool.withSlab`, `BlockTable.withBuffer`: another slab or buffer in the same place;
* `Heap.Window`: where a range starts in its buffer, and the heap around the buffer;
* `Heap.Valid.nonempty_window`: every range to which access is granted has a window.
-/

namespace HandleHeap

/-! ### Another buffer in the same place -/

namespace SizeClass

theorem setSlab_self {sizeClass : SizeClass} {position : Nat} {slab : Slab}
    (h : sizeClass.slab? position = some slab) : sizeClass.setSlab position slab = sizeClass := by
  have hslabs : sizeClass.slabs.setIfInBounds position (some slab) = sizeClass.slabs := by
    refine Array.ext_getElem? fun i => ?_
    rw [Array.getElem?_setIfInBounds]
    split
    · next heq =>
      have hlt : position < sizeClass.slabs.size := lt_of_slab? h
      rw [if_pos hlt, ← heq, slab?_eq_some_iff.mp h]
    · rfl
  unfold setSlab
  rw [hslabs]

theorem setSlab_setSlab (sizeClass : SizeClass) (position : Nat) (first second : Slab) :
    (sizeClass.setSlab position first).setSlab position second
      = sizeClass.setSlab position second := by
  unfold setSlab
  simp only [Array.setIfInBounds_setIfInBounds]

end SizeClass

namespace ChunkPool

theorem setSizeClass_setSizeClass (pool : ChunkPool) (size : Nat) (first second : SizeClass) :
    (pool.setSizeClass size first).setSizeClass size second = pool.setSizeClass size second := by
  have hclasses : (pool.classes.insert size first).insert size second
      = pool.classes.insert size second := by
    refine Std.ExtTreeMap.ext_getElem? fun other => ?_
    simp only [Std.ExtTreeMap.getElem?_insert]
    split
    · rfl
    · rfl
  unfold setSizeClass
  rw [hclasses]

/-- The pool with another slab behind an address. -/
def withSlab (pool : ChunkPool) (address : ChunkAddress) (slab : Slab) : ChunkPool :=
  pool.setSizeClass address.chunkSize
    ((pool.sizeClass address.chunkSize).setSlab address.chainIndex slab)

theorem withSlab_withSlab (pool : ChunkPool) (address : ChunkAddress) (first second : Slab) :
    (pool.withSlab address first).withSlab address second = pool.withSlab address second := by
  unfold withSlab
  rw [sizeClass_setSizeClass, if_pos rfl, setSizeClass_setSizeClass, SizeClass.setSlab_setSlab]

section live
variable {pool : ChunkPool} {handle : Handle} {address : ChunkAddress} {slab : Slab}
  (h : pool.liveSlab handle address = .ok slab)
include h

theorem withSlab_self : pool.withSlab address slab = pool := by
  obtain ⟨found, hfound, hslab, -⟩ := of_liveSlab h
  unfold withSlab
  rw [sizeClass_of_some hfound, SizeClass.setSlab_self hslab, setSizeClass_self hfound]

variable (content : Buffer) {p : Nat} (other : Handle)
  (hslot : ({ address with position := p } : ChunkAddress).slot = address.slot)
include hslot

theorem liveSlab_withSlab :
    (pool.withSlab address { slab with buffer := content }).liveSlab other
      { address with position := p } = .ok { slab with buffer := content } := by
  obtain ⟨found, hfound, hslab, hused⟩ := of_liveSlab h
  have hnext : ((pool.withSlab address { slab with buffer := content }).sizeClass?
      address.chunkSize).bind (·.slab? address.chainIndex)
        = some { slab with buffer := content } := by
    unfold withSlab
    rw [sizeClass?_setSizeClass, if_pos rfl, Option.bind_some, sizeClass_of_some hfound,
      SizeClass.slab?_setSlab found (SizeClass.lt_of_slab? hslab), if_pos rfl]
  have hflag : ({ slab with buffer := content } : Slab).isUsed
      ({ address with position := p } : ChunkAddress).slot = true := by
    rw [hslot]
    exact hused
  have hsize : ({ address with position := p } : ChunkAddress).chunkSize = address.chunkSize := rfl
  unfold liveSlab
  rw [hsize, hnext]
  exact if_pos hflag

variable (ha : address.sizeIndex < 0x400) {length : Nat}
  (hroom : ({ address with position := p } : ChunkAddress).slotOffset + length
    ≤ address.chunkSize)
include ha hroom

theorem slabFor_withSlab :
    (pool.withSlab address { slab with buffer := content }).slabFor other
      { address with position := p } length = .ok { slab with buffer := content } := by
  have hindex : ({ address with position := p } : ChunkAddress).sizeIndex < 0x400 := ha
  exact (slabFor_eq_ok_iff hindex).mpr ⟨hroom, liveSlab_withSlab h content other hslot⟩

theorem read_withSlab :
    (pool.withSlab address { slab with buffer := content }).read other
      { address with position := p } length = .ok (content.read p length) := by
  unfold read
  rw [slabFor_withSlab h content other hslot ha hroom]
  rfl

theorem write_withSlab {bytes : List UInt8} (hlength : bytes.length = length) :
    (pool.withSlab address { slab with buffer := content }).write other
        { address with position := p } bytes
      = .ok (pool.withSlab address { slab with buffer := content.put p bytes }) := by
  unfold write
  rw [hlength, slabFor_withSlab h content other hslot ha hroom]
  exact congrArg Except.ok (withSlab_withSlab pool address { slab with buffer := content }
    { slab with buffer := content.put p bytes })

end live

end ChunkPool

namespace BlockTable

/-- The table with another buffer behind an identifier. -/
def withBuffer (table : BlockTable) (identifier : Nat) (content : Buffer) : BlockTable :=
  { table with buffers := table.buffers.setIfInBounds (identifier - 1) (some content) }

theorem withBuffer_withBuffer (table : BlockTable) (identifier : Nat) (first second : Buffer) :
    (table.withBuffer identifier first).withBuffer identifier second
      = table.withBuffer identifier second := by
  unfold withBuffer
  simp only [Array.setIfInBounds_setIfInBounds]

section live
variable {table : BlockTable} {identifier : Nat} {buffer : Buffer}
  (h : table.buffer? identifier = some buffer)
include h

theorem withBuffer_self : table.withBuffer identifier buffer = table := by
  obtain ⟨index, rfl, hlt, hlookup⟩ := exists_index h
  have hbuffers : table.buffers.setIfInBounds index (some buffer) = table.buffers := by
    refine Array.ext_getElem? fun i => ?_
    rw [Array.getElem?_setIfInBounds]
    split
    · next heq =>
      unfold length at hlt
      rw [if_pos hlt, ← heq, hlookup]
    · rfl
  unfold withBuffer
  rw [Nat.add_sub_cancel, hbuffers]

theorem buffer?_withBuffer (content : Buffer) :
    (table.withBuffer identifier content).buffer? identifier = some content := by
  obtain ⟨index, rfl, hlt, -⟩ := exists_index h
  exact (replaced_setIfInBounds table hlt (some content) table.spare (index + 1)).trans
    (if_pos rfl)

variable (content : Buffer) (other : Handle) {offset length : Nat}
  (hroom : offset + length ≤ content.size)
include hroom

theorem bufferFor_withBuffer :
    (table.withBuffer identifier content).bufferFor other ⟨identifier, offset⟩ length
      = .ok content :=
  bufferFor_eq_ok_iff.mpr ⟨buffer?_withBuffer h content, hroom⟩

theorem read_withBuffer :
    (table.withBuffer identifier content).read other ⟨identifier, offset⟩ length
      = .ok (content.read offset length) := by
  unfold read
  rw [bufferFor_withBuffer h content other hroom]
  rfl

theorem write_withBuffer {bytes : List UInt8} (hlength : bytes.length = length) :
    (table.withBuffer identifier content).write other ⟨identifier, offset⟩ bytes
      = .ok (table.withBuffer identifier (content.put offset bytes)) := by
  unfold write
  rw [hlength, bufferFor_withBuffer h content other hroom]
  exact congrArg Except.ok (withBuffer_withBuffer table identifier content
    (content.put offset bytes))

end live

end BlockTable

/-! ### Windows -/

namespace Heap

/-- A heap seen through the buffer that a range lies in.  Inside the range the buffer is read and
written, whatever it holds. -/
structure Window (heap : Heap) (handle : Handle) (length : Nat) where
  /-- Where the range starts in the buffer. -/
  start : Nat
  /-- The buffer. -/
  buffer : Buffer
  /-- The heap with another content of the buffer. -/
  around : Buffer → Heap
  room : start + length ≤ buffer.size
  around_buffer : around buffer = heap
  read_eq : ∀ content : Buffer, content.size = buffer.size → ∀ i < length, ∀ n, i + n ≤ length →
    (around content).read (handle + Int64.ofNat i) n = .ok (content.read (start + i) n)
  write_eq : ∀ content : Buffer, content.size = buffer.size → ∀ i < length, ∀ bytes : List UInt8,
    i + bytes.length ≤ length → (around content).write (handle + Int64.ofNat i) bytes
      = .ok (around (content.put (start + i) bytes))

section window
variable {heap : Heap} {handle : Handle} {length : Nat}

/-- The window on a range in a slab. -/
def Window.ofSlab {a : ChunkAddress} {slab : Slab} (hv : heap.chunks.Valid)
    (ha : a.sizeIndex < 0x400) (hslab : heap.chunks.slabFor handle a length = .ok slab)
    (hmoved : ∀ i < length, Address.ofHandle (handle + Int64.ofNat i)
      = .ok ((Address.chunk a).advance i)) : heap.Window handle length where
  start := a.position
  buffer := slab.buffer
  around content := { heap with chunks := heap.chunks.withSlab a { slab with buffer := content } }
  room := hv.room_of_slabFor handle ha hslab
  around_buffer := by
    rw [ChunkPool.withSlab_self ((ChunkPool.slabFor_eq_ok_iff ha).mp hslab).2]
  read_eq content _ i hi n hn := by
    obtain ⟨hle, hlive⟩ := (ChunkPool.slabFor_eq_ok_iff ha).mp hslab
    obtain ⟨hadvance, hslot, hoffset⟩ :=
      Address.slot_advance a (by omega : a.slotOffset + i < a.chunkSize)
    unfold read
    rw [hmoved i hi, hadvance]
    exact ChunkPool.read_withSlab hlive content _ hslot ha (by omega)
  write_eq content _ i hi bytes hbytes := by
    obtain ⟨hle, hlive⟩ := (ChunkPool.slabFor_eq_ok_iff ha).mp hslab
    obtain ⟨hadvance, hslot, hoffset⟩ :=
      Address.slot_advance a (by omega : a.slotOffset + i < a.chunkSize)
    have hroom : ({ a with position := a.position + i } : ChunkAddress).slotOffset + bytes.length
        ≤ a.chunkSize := by omega
    have hwrite := ChunkPool.write_withSlab hlive content (handle + Int64.ofNat i) hslot ha hroom
      rfl
    unfold write
    rw [hmoved i hi, hadvance]
    simp only [hwrite]
    rfl

/-- The window on a range in a block. -/
def Window.ofBuffer {a : BlockAddress} {buffer : Buffer}
    (hbuffer : heap.blocks.bufferFor handle a length = .ok buffer)
    (hmoved : ∀ i < length, Address.ofHandle (handle + Int64.ofNat i)
      = .ok ((Address.block a).advance i)) : heap.Window handle length where
  start := a.offset
  buffer := buffer
  around content := { heap with blocks := heap.blocks.withBuffer a.identifier content }
  room := (BlockTable.bufferFor_eq_ok_iff.mp hbuffer).2
  around_buffer := by
    rw [BlockTable.withBuffer_self (BlockTable.bufferFor_eq_ok_iff.mp hbuffer).1]
  read_eq content hsize i hi n hn := by
    obtain ⟨hlive, hle⟩ := BlockTable.bufferFor_eq_ok_iff.mp hbuffer
    unfold read
    rw [hmoved i hi]
    exact BlockTable.read_withBuffer hlive content _ (by omega)
  write_eq content hsize i hi bytes hbytes := by
    obtain ⟨hlive, hle⟩ := BlockTable.bufferFor_eq_ok_iff.mp hbuffer
    unfold write
    rw [hmoved i hi]
    have hwrite := BlockTable.write_withBuffer hlive content (handle + Int64.ofNat i)
      (by omega : a.offset + i + bytes.length ≤ content.size) rfl
    simp only [Address.advance, hwrite]
    rfl

/-- **A range to which access is granted** is seen through its buffer. -/
theorem Valid.nonempty_window (hv : heap.Valid) (h : heap.checkRange handle length = .ok ()) :
    Nonempty (heap.Window handle length) := by
  obtain ⟨hpos, n, hsize, hle⟩ := checkRange_eq_ok_iff.mp h
  have hfits := Handle.address_fits hpos
  have hmoved : ∀ i < length, Address.ofHandle (handle + Int64.ofNat i)
      = .ok (handle.address.advance i) := fun i hi => by
    have hlt : handle.address.inner + i < n := by omega
    obtain ⟨-, hmoved_pos, haddress⟩ := hv.ofHandle_add hpos hsize hlt
    rw [Address.ofHandle_of_pos hmoved_pos, haddress]
  unfold checkRange at h
  rw [Address.ofHandle_of_pos hpos] at h
  rcases haddress : handle.address with a | a <;> rw [haddress] at h hfits hmoved
  · obtain ⟨slab, hslab⟩ := map_unit_eq_ok_iff.mp h
    exact ⟨Window.ofSlab hv.chunks hfits.1 hslab hmoved⟩
  · obtain ⟨buffer, hbuffer⟩ := map_unit_eq_ok_iff.mp h
    exact ⟨Window.ofBuffer hbuffer hmoved⟩

end window

/-! ### Whole windows -/

namespace Window

variable {heap : Heap} {handle : Handle} {length : Nat} (w : heap.Window handle length)
  (hpos : 0 < length) {content : Buffer} (hsize : content.size = w.buffer.size)
include hpos hsize

theorem read_all : (w.around content).read handle length = .ok (content.read w.start length) := by
  have hread := w.read_eq content hsize 0 hpos length (by omega)
  rw [show handle + Int64.ofNat 0 = handle from Int64.add_zero handle] at hread
  exact hread

theorem write_all {bytes : List UInt8} (hlength : bytes.length = length) :
    (w.around content).write handle bytes = .ok (w.around (content.put w.start bytes)) := by
  have hwrite := w.write_eq content hsize 0 hpos bytes (by omega)
  rw [show handle + Int64.ofNat 0 = handle from Int64.add_zero handle] at hwrite
  exact hwrite

end Window

end Heap

end HandleHeap
