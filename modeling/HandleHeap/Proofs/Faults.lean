import HandleHeap.Proofs.Bounds

/-!
# Freedom from faults

No call and no query of a heap meets a fault, whatever handles, sizes and lengths it is given, and
in whatever order.

* `Heap.Valid.readGuarded_eq`, `Heap.Valid.writeGuarded_eq`: access by handle, to a range of any
  length that a machine word can tell;
* `Heap.Valid.moveGuarded_eq`: what was read has the length of the range that it goes to;
* `Heap.Valid.usageGuarded_eq`: the totals of a report are words;
* `Heap.Valid.performGuarded_eq`, `Session.Sound.runGuarded_eq`: one action, and a run of them;
* `Heap.no_faults`: every run of a fresh heap has the answers of the plain operations.
-/

namespace HandleHeap

open Guarded

/-! ### The heap -/

theorem Scalar.storeInGuarded_eq (scalar : Scalar) (order : ByteOrder) (bytes : List UInt8)
    (index : Nat) (value : scalar.Value) : scalar.storeInGuarded order bytes index value
      = .ok (scalar.storeIn order bytes index value) := by
  unfold storeInGuarded storeIn
  split
  · rw [exactly_of_eq (scalar.length_encode order value)]
    rfl
  · rfl

namespace Heap

section valid
variable {heap : Heap} (hv : heap.Valid)
include hv

/-- No allocation is as large as what lies below the sign of a word. -/
theorem Valid.size_lt {handle : Handle} {size : Nat} (h : heap.sizeOf handle = .ok size) :
    size < 0x8000000000000000 := by
  obtain ⟨hpos, -, hlive⟩ := sizeOf_eq_ok_iff.mp h
  have hle := hv.place_add_size_le (Handle.address_fits hpos) hlive
  omega

theorem Valid.allocateGuarded_eq (size : Int) :
    heap.allocateGuarded size = .ok (heap.allocate size) := by
  unfold allocateGuarded allocate
  split
  · rfl
  split
  · rfl
  split
  · rw [hv.chunks.allocateGuarded_eq]
    rfl
  · rw [hv.blocks.allocateGuarded_eq]
    rfl

theorem Valid.freeGuarded_eq (handle : Handle) :
    heap.freeGuarded handle = .ok (heap.free handle) := by
  unfold freeGuarded free
  split
  · rfl
  rcases hgate : Address.ofHandle handle with e | a | a
  · rfl
  · simp only [hv.chunks.freeGuarded_eq handle (Address.fits_of_ofHandle hgate).1]
    rfl
  · rfl

section access
variable (handle : Handle) {length : Nat} (hlength : length < 0x8000000000000000)
include hlength

theorem Valid.readGuarded_eq :
    heap.readGuarded handle length = .ok (heap.read handle length) := by
  unfold readGuarded read
  rcases hgate : Address.ofHandle handle with e | a | a
  · rfl
  · exact hv.chunks.readGuarded_eq handle (Address.fits_of_ofHandle hgate) hlength
  · exact BlockTable.readGuarded_eq heap.blocks handle a length

theorem Valid.writeGuarded_eq {bytes : List UInt8} (hbytes : bytes.length = length) :
    heap.writeGuarded handle length bytes = .ok (heap.write handle bytes) := by
  unfold writeGuarded write
  rcases hgate : Address.ofHandle handle with e | a | a
  · rfl
  · have hfits := Address.fits_of_ofHandle hgate
    simp only [hv.chunks.writeGuarded_eq handle hfits hlength hbytes]
    rfl
  · simp only [BlockTable.writeGuarded_eq heap.blocks handle a length hbytes]
    rfl

/-- What was read has the length of the range that it goes to. -/
theorem Valid.moveGuarded_eq (target : Handle) :
    heap.moveGuarded handle target length = .ok (heap.move handle target length) := by
  unfold moveGuarded move
  rw [hv.readGuarded_eq handle hlength, ok_bind]
  rcases hread : heap.read handle length with e | kept
  · rfl
  simp only [hv.writeGuarded_eq target hlength (length_of_read hread), ok_bind]
  show _ = Except.ok (heap.write target kept >>= fun filled => filled.free handle)
  rcases hwrite : heap.write target kept with e | filled
  · rfl
  · exact (hv.of_write hwrite).freeGuarded_eq handle

end access

/-- A reallocation keeps no more bytes than the allocation has. -/
theorem Valid.reallocateGuarded_eq (handle : Handle) (size : Int) :
    heap.reallocateGuarded handle size = .ok (heap.reallocate handle size) := by
  unfold reallocateGuarded reallocate
  split
  · exact hv.allocateGuarded_eq size
  rcases hold : heap.sizeOf handle with e | oldSize
  · rfl
  -- the old allocation is read and given up in the heap that has the new one already
  have hgrown := hv.of_allocate size
  have hkept : min oldSize size.toNat < 0x8000000000000000 :=
    Nat.lt_of_le_of_lt (Nat.min_le_left _ _) (hv.size_lt hold)
  simp only [hv.allocateGuarded_eq size, ok_bind]
  rcases hcall : heap.allocate size with ⟨e | target, grown⟩
  · rfl
  rw [hcall] at hgrown
  simp only [hgrown.freeGuarded_eq, hgrown.moveGuarded_eq handle hkept target]
  split
  · rcases grown.free handle with e | next <;> rfl
  · rcases grown.move handle target (min oldSize size.toNat) with e | next <;> rfl

theorem Valid.fillGuarded_eq (handle : Handle) {length : Int} (h : length < 0x8000000000000000)
    (value : UInt8) :
    heap.fillGuarded handle length value = .ok (heap.fill handle length value) := by
  unfold fillGuarded
  by_cases hneg : length < 0
  · simp only [fill, lengthOf, if_pos hneg]
    rfl
  · rw [fill_eq_write _ _ hneg]
    simp only [lengthOf, if_neg hneg]
    exact hv.writeGuarded_eq handle (by omega) List.length_replicate

theorem Valid.copyGuarded_eq (source target : Handle) {length : Int}
    (h : length < 0x8000000000000000) :
    heap.copyGuarded source target length = .ok (heap.copy source target length) := by
  unfold copyGuarded copy
  by_cases hneg : length < 0
  · simp only [lengthOf, if_pos hneg]
    rfl
  have hlength : length.toNat < 0x8000000000000000 := by omega
  simp only [lengthOf, if_neg hneg, hv.readGuarded_eq source hlength, ok_bind]
  show _ = Except.ok (heap.read source length.toNat >>= fun bytes => heap.write target bytes)
  rcases hread : heap.read source length.toNat with e | bytes
  · rfl
  · exact hv.writeGuarded_eq target hlength (length_of_read hread)

section typed
variable (scalar : Scalar) (order : ByteOrder) (handle : Handle)

theorem Valid.loadGuarded_eq :
    heap.loadGuarded scalar order handle = .ok (heap.load scalar order handle) := by
  have hwidth := scalar.width_le
  unfold loadGuarded load
  rw [hv.readGuarded_eq handle (by omega), ok_bind]
  rcases hread : heap.read handle scalar.width with e | bytes
  · rfl
  · simp only [exactly_of_eq (length_of_read hread)]
    rfl

theorem Valid.storeGuarded_eq (value : scalar.Value) :
    heap.storeGuarded scalar order handle value = .ok (heap.store scalar order handle value) := by
  have hwidth := scalar.width_le
  exact hv.writeGuarded_eq handle (by omega) (scalar.length_encode order value)

theorem Valid.loadArrayGuarded_eq {into : List scalar.Value}
    (h : into.length * scalar.width < 0x8000000000000000) :
    heap.loadArrayGuarded scalar order handle into
      = .ok (heap.loadArray scalar order handle into) := by
  unfold loadArrayGuarded loadArray
  rw [word_of_lt (by omega), ok_bind, hv.readGuarded_eq handle h, ok_bind]
  rcases hread : heap.read handle (into.length * scalar.width) with e | bytes
  · rfl
  · simp only [exactly_of_eq (length_of_read hread)]
    rfl

theorem Valid.storeArrayGuarded_eq {values : List scalar.Value}
    (h : values.length * scalar.width < 0x8000000000000000) :
    heap.storeArrayGuarded scalar order handle values
      = .ok (heap.storeArray scalar order handle values) := by
  unfold storeArrayGuarded
  rw [word_of_lt (by omega), ok_bind,
    hv.writeGuarded_eq handle h (scalar.length_flatMap_encode order values)]
  rfl

end typed

/-- Fewer than 2 ^ 30 blocks of fewer than 2 ^ 31 bytes are less than a word counts. -/
theorem Valid.liveBytes_lt : heap.blocks.liveBytes < 0x10000000000000000 := by
  have hlength : heap.blocks.length ≤ 0x40000000 :=
    Nat.le_trans hv.blocks.length_le (by decide)
  have hsize : ∀ entry ∈ heap.blocks.buffers.toList,
      (entry.map (·.size)).getD 0 ≤ 0x80000000 := by
    rintro (_ | buffer) hentry
    · exact Nat.zero_le _
    obtain ⟨index, hindex⟩ := List.mem_iff_getElem?.mp hentry
    rw [Array.getElem?_toList] at hindex
    have hle := (hv.block_size _ buffer (BlockTable.buffer?_eq_some_iff.mpr hindex)).2
    unfold greatestSize at hle
    show buffer.size ≤ 0x80000000
    omega
  have htotal : heap.blocks.liveBytes ≤ 0x40000000 * 0x80000000 :=
    sum_le_mul (by rw [List.length_map, Array.length_toList]; exact hlength)
      (List.forall_mem_map.mpr hsize)
  omega

theorem Valid.usageGuarded_eq : heap.usageGuarded = .ok heap.usage := by
  have hrows : heap.chunks.usage.length ≤ 0x400 := by
    rw [ChunkPool.usage_eq, List.length_map]
    exact hv.chunks.length_sizes_le
  have hchunks : (heap.chunks.usage.map (·.liveSlots)).sum ≤ 0x400 * 0x8000000 :=
    sum_le_mul (by rwa [List.length_map])
      (List.forall_mem_map.mpr fun row hrow => (hv.chunks.row_le hrow).1)
  have hbytes : (heap.chunks.usage.map fun row => row.liveSlots * row.chunkSize).sum
      ≤ 0x400 * 0x2000000000 :=
    sum_le_mul (by rwa [List.length_map])
      (List.forall_mem_map.mpr fun row hrow => (hv.chunks.row_le hrow).2)
  have hwords : heap.chunks.usage.mapM (fun row => word (row.liveSlots * row.chunkSize))
      = .ok (heap.chunks.usage.map fun row => row.liveSlots * row.chunkSize) :=
    mapM_eq_ok_map fun row hrow => word_of_lt (by have hle := (hv.chunks.row_le hrow).2; omega)
  unfold usageGuarded
  rw [hv.chunks.usageGuarded_eq, ok_bind, word_of_lt (by omega), ok_bind, hwords, ok_bind,
    word_of_lt (by omega), ok_bind, hv.blocks.liveCountGuarded_eq, ok_bind,
    word_of_lt hv.liveBytes_lt]
  rfl

/-! ### Actions -/

theorem Valid.callGuarded_eq {call : Call} (h : Action.Fits (.call call)) :
    heap.callGuarded call = .ok (heap.call call) := by
  cases call with
  | allocate size => simp only [callGuarded, hv.allocateGuarded_eq, ok_bind]; rfl
  | reallocate handle size => simp only [callGuarded, hv.reallocateGuarded_eq, ok_bind]; rfl
  | free handle => simp only [callGuarded, hv.freeGuarded_eq, ok_bind]; rfl
  | fill handle length value => simp only [callGuarded, hv.fillGuarded_eq handle h, ok_bind]; rfl
  | store scalar order handle value => simp only [callGuarded, hv.storeGuarded_eq, ok_bind]; rfl
  | copy source target length =>
    simp only [callGuarded, hv.copyGuarded_eq source target h, ok_bind]; rfl
  | storeArray scalar order handle values =>
    simp only [callGuarded, hv.storeArrayGuarded_eq scalar order handle h, ok_bind]; rfl

theorem Valid.answerGuarded_eq {query : Query} (h : Action.Fits (.query query)) :
    heap.answerGuarded query = .ok (heap.answer query) := by
  cases query with
  | sizeOf handle => rfl
  | load scalar order handle => simp only [answerGuarded, hv.loadGuarded_eq, ok_bind]; rfl
  | loadArray scalar order handle into =>
    simp only [answerGuarded, hv.loadArrayGuarded_eq scalar order handle h, ok_bind]; rfl
  | storeIn scalar order bytes index value =>
    simp only [answerGuarded, Scalar.storeInGuarded_eq, ok_bind]; rfl
  | usage => simp only [answerGuarded, hv.usageGuarded_eq, ok_bind]; rfl
  | chainLength chunkSize => simp only [answerGuarded, hv.chunks.sizeClassGuarded_eq, ok_bind]; rfl
  | occupancy chunkSize chainIndex =>
    simp only [answerGuarded, hv.chunks.sizeClassGuarded_eq, ok_bind]; rfl
  | slotCount chunkSize => simp only [answerGuarded, ChunkPool.slotCountGuarded_eq, ok_bind]; rfl

/-- **No action meets a fault.** -/
theorem Valid.performGuarded_eq {action : Action} (h : action.Fits) :
    heap.performGuarded action = .ok (heap.perform action) := by
  cases action with
  | call call => simp only [performGuarded, hv.callGuarded_eq h, ok_bind]; rfl
  | query query => simp only [performGuarded, hv.answerGuarded_eq h, ok_bind]; rfl

end valid

end Heap

/-! ### Runs -/

theorem Session.Sound.runGuarded_eq {s : Session} (hs : s.Sound) {actions : List Action}
    (h : ∀ action ∈ actions, action.Fits) :
    s.heap.runGuarded actions = .ok (s.heap.answersTo actions, s.heap.afterAll actions) := by
  -- the session goes along with the run, as its invariant is what keeps the heap valid
  induction actions generalizing s with
  | nil => rfl
  | cons action actions ih =>
    have hrest := ih (hs.act action) fun a ha => h a (List.mem_cons_of_mem action ha)
    rw [s.heap_act action] at hrest
    unfold Heap.runGuarded
    simp only [hs.valid.performGuarded_eq (h action List.mem_cons_self), ok_bind, hrest]
    rfl

namespace Heap

/-- **No run meets a fault.**  Whatever is asked of a fresh heap, every index and range is in
bounds, every number fits its word, and no counter is lowered below zero. -/
theorem no_faults {settings : Settings} (h : settings.validate = .ok ())
    {actions : List Action} (hfits : ∀ action ∈ actions, action.Fits) :
    (fresh settings).runGuarded actions =
      .ok ((fresh settings).answersTo actions, (fresh settings).afterAll actions) :=
  (Session.sound_start h).runGuarded_eq hfits

/-- A run with a chunk that is moved to a block, and then with handles that were given back or made
up and lengths that no allocation has. -/
def forged : List Action :=
  [.call (.allocate 16), .call (.allocate 2000), .call (.reallocate (.ofSlot 15 0 0) 3000),
    .call (.free (.ofSlot 15 0 0)), .call (.free (.ofSlot 1023 0xfffff 0x3fffff)),
    .call (.fill (.ofSlot 15 7 126) 0x7fffffffffffffff 255),
    .call (.copy (.ofBlock 1 1999) (.ofBlock 0x3fffffff 0xffffffff) 1),
    .query (.load .long .big (.ofWord 0xffffffffffffffff)), .query .usage]

/-- Both blocks are live in the end, and nothing has failed on the way. -/
theorem no_faults_of_forged : (∀ action ∈ forged, action.Fits) ∧
    ((fresh {}).afterAll forged).usage.liveBlockBytes = 5000 ∧
    (fresh {}).runGuarded forged =
      .ok ((fresh {}).answersTo forged, (fresh {}).afterAll forged) := by
  have hfits : ∀ action ∈ forged, action.Fits := by simp [forged, Action.Fits]
  exact ⟨hfits, by decide +kernel, no_faults rfl hfits⟩

end Heap

end HandleHeap
