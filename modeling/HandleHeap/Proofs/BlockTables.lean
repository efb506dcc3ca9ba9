import HandleHeap.BlockTable
import HandleHeap.Proofs.Addresses
import HandleHeap.Proofs.Slabs

/-!
# Block tables

The free list of a table names exactly the indices without a buffer, and so a table is no more than
the buffers behind its identifiers.

* `BlockTable.Valid`: the invariant of the table and its free list;
* `BlockTable.Made`, `BlockTable.GivenUp`: what a granted allocation and a granted release do to the
  buffers, the free list and the length;
* `BlockTable.Valid.allocate_cases`, `BlockTable.Valid.free_cases`: a block is made under an
  identifier that had none or given up, or the call is refused and changes nothing;
* `BlockTable.bufferFor_eq_ok_iff`: access is granted to the bytes of one live block;
* `BlockTable.read_eq`, `BlockTable.Valid.write_of_bufferFor`: what granted access reads and
  changes.
-/

namespace HandleHeap.BlockTable

/-- The byte of a block, zero where there is none. -/
def byteAt (table : BlockTable) (address : BlockAddress) : UInt8 :=
  ((table.buffer? address.identifier).map (·.get address.offset)).getD 0

/-- The sizes of the buffers by index and the free list: all that is kept about blocks. -/
def occupancy (table : BlockTable) : Array (Option Nat) × List Nat :=
  (table.buffers.map (Option.map Buffer.size), table.spare)

/-- **The invariant of a table.**  The free list holds every index without a buffer, once. -/
structure Valid (table : BlockTable) : Prop where
  nodup : table.spare.Nodup
  mem_spare_iff : ∀ index, index ∈ table.spare ↔ table.buffers[index]? = some none
  length_le : table.length ≤ greatestIdentifier

/-- The table with another content behind one identifier. -/
def Replaced (table : BlockTable) (identifier : Nat) (content : Option Buffer)
    (next : BlockTable) : Prop :=
  ∀ i, next.buffer? i = if i = identifier then content else table.buffer? i

/-- What making a block changes: an identifier that had no buffer has one of zeros.  It is that of
the first free index or, without a free index, the next one. -/
structure Made (table : BlockTable) (size identifier : Nat) (next : BlockTable) : Prop where
  valid : next.Valid
  none_before : table.buffer? identifier = none
  replaced : Replaced table identifier (some (Buffer.zeroed size)) next
  place : (∃ index < table.length, table.spare = index :: next.spare ∧ identifier = index + 1 ∧
      next.length = table.length) ∨
    table.spare = [] ∧ identifier = table.length + 1 ∧ next.spare = [] ∧
      next.length = table.length + 1

/-- What giving up a block changes: its index is the first free one. -/
structure GivenUp (table : BlockTable) (identifier : Nat) (next : BlockTable) : Prop where
  valid : next.Valid
  replaced : Replaced table identifier none next
  spare_eq : ∃ index, identifier = index + 1 ∧ next.spare = index :: table.spare
  length_eq : next.length = table.length

/-- What a write inside a block changes: the bytes that it covers. -/
structure Written (table : BlockTable) (address : BlockAddress) (bytes : List UInt8)
    (next : BlockTable) : Prop where
  valid : next.Valid
  occupancy_eq : next.occupancy = table.occupancy
  size_eq : ∀ i, (next.buffer? i).map (·.size) = (table.buffer? i).map (·.size)
  byteAt_eq : ∀ b, next.byteAt b =
    if b.identifier = address.identifier ∧ address.offset ≤ b.offset ∧
        b.offset < address.offset + bytes.length
    then bytes[b.offset - address.offset]?.getD 0 else table.byteAt b

/-! ### Buffers by identifier -/

theorem buffer?_zero (table : BlockTable) : table.buffer? 0 = none := rfl

theorem buffer?_succ (table : BlockTable) (index : Nat) :
    table.buffer? (index + 1) = table.buffers[index]?.join := rfl

theorem buffer?_eq_some_iff {table : BlockTable} {index : Nat} {buffer : Buffer} :
    table.buffer? (index + 1) = some buffer ↔ table.buffers[index]? = some (some buffer) :=
  Option.join_eq_some_iff

/-- A live block has a positive identifier, and its index is within the table. -/
theorem exists_index {table : BlockTable} {identifier : Nat} {buffer : Buffer}
    (h : table.buffer? identifier = some buffer) :
    ∃ index, identifier = index + 1 ∧ index < table.length ∧
      table.buffers[index]? = some (some buffer) := by
  rcases identifier with _ | index
  · rw [buffer?_zero] at h
    cases h
  · have hbuffer := buffer?_eq_some_iff.mp h
    exact ⟨index, rfl, (Array.getElem?_eq_some_iff.mp hbuffer).1, hbuffer⟩

/-- Replacing an entry of the table replaces the content behind its identifier. -/
theorem replaced_setIfInBounds (table : BlockTable) {index : Nat} (h : index < table.length)
    (content : Option Buffer) (spare : List Nat) :
    Replaced table (index + 1) content
      { buffers := table.buffers.setIfInBounds index content, spare := spare } := by
  intro i
  rcases i with _ | i
  · rw [if_neg (by omega)]
    rfl
  · unfold length at h
    simp only [buffer?_succ, Array.getElem?_setIfInBounds, Nat.succ_inj]
    by_cases heq : index = i
    · rw [if_pos heq, if_pos h, if_pos heq.symm]
      rfl
    · rw [if_neg heq, if_neg (fun hc => heq hc.symm)]

/-- So does an entry that the table grows by. -/
theorem replaced_push (table : BlockTable) (content : Buffer) (spare : List Nat) :
    Replaced table (table.length + 1) (some content)
      { buffers := table.buffers.push (some content), spare := spare } := by
  intro i
  rcases i with _ | i
  · rw [if_neg (by omega)]
    rfl
  · simp only [buffer?_succ, Array.getElem?_push, Nat.succ_inj]
    unfold length
    split <;> rfl

/-! ### Validity -/

theorem valid_empty : empty.Valid :=
  ⟨List.nodup_nil, fun index => by simp [empty], Nat.zero_le _⟩

section Valid
variable {table : BlockTable} (hv : table.Valid)
include hv

/-- A table without free indices may grow. -/
theorem Valid.push (hspare : table.spare = []) (hlt : table.length < greatestIdentifier)
    (content : Buffer) : Valid ⟨table.buffers.push (some content), []⟩ := by
  refine ⟨List.nodup_nil, fun index => ?_, ?_⟩
  · have hmem := hv.mem_spare_iff index
    rw [hspare] at hmem
    simp only [Array.getElem?_push]
    rw [hmem]
    split
    · next heq =>
      rw [heq, Array.getElem?_eq_none (Nat.le_refl _)]
      simp
    · rfl
  · unfold length at hlt ⊢
    rw [Array.size_push]
    omega

/-- The first free index may be used. -/
theorem Valid.reuse {index : Nat} {spare : List Nat} (hspare : table.spare = index :: spare)
    (content : Buffer) : Valid ⟨table.buffers.setIfInBounds index (some content), spare⟩ := by
  have hnodup := hv.nodup
  rw [hspare, List.nodup_cons] at hnodup
  refine ⟨hnodup.2, fun i => ?_, ?_⟩
  · have hi := hv.mem_spare_iff i
    rw [hspare, List.mem_cons] at hi
    simp only [Array.getElem?_setIfInBounds]
    by_cases heq : index = i
    · rw [if_pos heq, ← heq]
      split <;> simp [hnodup.1]
    · rw [if_neg heq, ← hi]
      exact ⟨Or.inr, fun h => h.resolve_left (fun hc => heq hc.symm)⟩
  · unfold length
    rw [Array.size_setIfInBounds]
    exact hv.length_le

/-- An index with a buffer may become free. -/
theorem Valid.giveUp {index : Nat} {buffer : Buffer}
    (h : table.buffers[index]? = some (some buffer)) :
    Valid ⟨table.buffers.setIfInBounds index none, index :: table.spare⟩ := by
  have hlt : index < table.buffers.size := (Array.getElem?_eq_some_iff.mp h).1
  refine ⟨?_, fun i => ?_, ?_⟩
  · rw [List.nodup_cons, hv.mem_spare_iff, h]
    refine ⟨?_, hv.nodup⟩
    simp
  · have hi := hv.mem_spare_iff i
    simp only [List.mem_cons, Array.getElem?_setIfInBounds]
    by_cases heq : index = i
    · rw [if_pos heq, if_pos hlt]
      exact ⟨fun _ => rfl, fun _ => Or.inl heq.symm⟩
    · rw [if_neg heq, ← hi]
      exact ⟨fun hc => hc.resolve_left (fun hc => heq hc.symm), Or.inr⟩
  · unfold length
    rw [Array.size_setIfInBounds]
    exact hv.length_le

/-! ### Allocation and release -/

omit hv in
theorem Made.identifier_le {size identifier : Nat} {next : BlockTable}
    (h : Made table size identifier next) : 0 < identifier ∧ identifier ≤ greatestIdentifier := by
  have hle := h.valid.length_le
  rcases h.place with ⟨index, hlt, -, rfl, hlength⟩ | ⟨-, rfl, -, hlength⟩
  · omega
  · omega

/-- An allocation uses the first free index, or lengthens a table that has none. -/
theorem Valid.allocate_made (size : Nat) :
    (∃ identifier next, table.allocate size = (.ok (Handle.ofBlock identifier 0), next) ∧
        Made table size identifier next) ∨
      table.allocate size = (.error (.tableFull greatestIdentifier), table) := by
  unfold allocate
  rcases hspare : table.spare with _ | ⟨index, spare⟩
  · by_cases hlt : table.length < greatestIdentifier
    · left
      have hnone : table.buffer? (table.length + 1) = none := by
        rw [buffer?_succ]
        unfold length
        rw [Array.getElem?_eq_none (Nat.le_refl _)]
        rfl
      have hlength : length ⟨table.buffers.push (some (Buffer.zeroed size)), []⟩
          = table.length + 1 := Array.size_push _
      refine ⟨table.length + 1, _, ?_, hv.push hspare hlt _, hnone, replaced_push table _ [],
        Or.inr ⟨hspare, rfl, rfl, hlength⟩⟩
      simp only [if_pos hlt]
    · right
      simp only [if_neg hlt]
  · left
    have hmem : table.buffers[index]? = some none :=
      (hv.mem_spare_iff index).mp (by rw [hspare]; exact List.mem_cons_self)
    have hlt : index < table.length := (Array.getElem?_eq_some_iff.mp hmem).1
    have hlength : length ⟨table.buffers.setIfInBounds index (some (Buffer.zeroed size)), spare⟩
        = table.length := Array.size_setIfInBounds
    refine ⟨index + 1, _, rfl, hv.reuse hspare _, ?_, replaced_setIfInBounds table hlt _ spare,
      Or.inl ⟨index, hlt, hspare, rfl, hlength⟩⟩
    rw [buffer?_succ, hmem]
    rfl

/-- **Allocation makes a block of zeros behind an identifier that had none**, or finds the table
full. -/
theorem Valid.allocate_cases (size : Nat) :
    (∃ identifier next, table.allocate size = (.ok (Handle.ofBlock identifier 0), next) ∧
        0 < identifier ∧ identifier ≤ greatestIdentifier ∧
        table.buffer? identifier = none ∧ next.Valid ∧
        Replaced table identifier (some (Buffer.zeroed size)) next) ∨
      table.allocate size = (.error (.tableFull greatestIdentifier), table) := by
  rcases hv.allocate_made size with ⟨identifier, next, hcall, h⟩ | hcall
  · obtain ⟨hlow, hhigh⟩ := h.identifier_le
    exact Or.inl ⟨identifier, next, hcall, hlow, hhigh, h.none_before, h.valid, h.replaced⟩
  · exact Or.inr hcall

/-- The release of a live block puts its index in front of the free list. -/
theorem Valid.exists_free (handle : Handle) {address : BlockAddress} (hoffset : address.offset = 0)
    {buffer : Buffer} (hbuffer : table.buffer? address.identifier = some buffer) :
    ∃ next, table.free handle address = .ok next ∧ GivenUp table address.identifier next := by
  obtain ⟨index, hid, hlt, hlookup⟩ := exists_index hbuffer
  have hlength : length ⟨table.buffers.setIfInBounds index none, index :: table.spare⟩
      = table.length := Array.size_setIfInBounds
  refine ⟨⟨table.buffers.setIfInBounds index none, index :: table.spare⟩, ?_, hv.giveUp hlookup,
    ?_, ⟨index, hid, rfl⟩, hlength⟩
  · unfold free
    rw [if_neg (fun hne => hne hoffset), hid]
    rw [hid, buffer?_succ] at hbuffer
    simp only [indexOf?, hbuffer, Option.isSome_some, if_true]
  · rw [hid]
    exact replaced_setIfInBounds table hlt none (index :: table.spare)

/-- **Release gives up a live block**, or finds none. -/
theorem Valid.free_cases (handle : Handle) {address : BlockAddress}
    (hoffset : address.offset = 0) :
    (∃ buffer next, table.buffer? address.identifier = some buffer ∧
        table.free handle address = .ok next ∧ next.Valid ∧
        Replaced table address.identifier none next) ∨
      (table.buffer? address.identifier = none ∧
        table.free handle address = .error (.invalidHandle handle)) := by
  rcases hbuffer : table.buffer? address.identifier with _ | buffer
  · right
    refine ⟨rfl, ?_⟩
    unfold free
    rw [if_neg (fun hne => hne hoffset)]
    rcases hid : address.identifier with _ | index
    · rfl
    · rw [hid, buffer?_succ] at hbuffer
      simp only [indexOf?, hbuffer, Option.isSome_none, Bool.false_eq_true, if_false]
  · left
    obtain ⟨next, hcall, h⟩ := hv.exists_free handle hoffset hbuffer
    exact ⟨buffer, next, rfl, hcall, h.valid, h.replaced⟩

end Valid

/-! ### Access -/

section access
variable {table : BlockTable} {handle : Handle} {address : BlockAddress}

/-- The size of a live block. -/
theorem sizeOf_eq_ok_iff {n : Nat} : table.sizeOf handle address = .ok n ↔
    ∃ buffer, table.buffer? address.identifier = some buffer ∧ buffer.size = n := by
  unfold sizeOf liveBuffer
  rcases table.buffer? address.identifier with _ | buffer <;> simp [Except.map]

/-- **Access is granted to the bytes of one live block.** -/
theorem bufferFor_eq_ok_iff {length : Nat} {buffer : Buffer} :
    table.bufferFor handle address length = .ok buffer ↔
      table.buffer? address.identifier = some buffer ∧ address.offset + length ≤ buffer.size := by
  unfold bufferFor liveBuffer
  rcases table.buffer? address.identifier with _ | found
  · exact ⟨nofun, fun h => nomatch h.1⟩
  · simp only
    split
    · next hle =>
      constructor
      · intro h; cases h; exact ⟨rfl, hle⟩
      · rintro ⟨h, -⟩; cases h; rfl
    · next hgt =>
      constructor
      · intro h; cases h
      · rintro ⟨h, hle⟩; cases h; exact absurd hle hgt

/-- A refused range ends beyond its block, or no block is there. -/
theorem eq_of_bufferFor_eq_error {length : Nat} {e : HeapError}
    (h : table.bufferFor handle address length = .error e) :
    e = if (table.buffer? address.identifier).isSome then .outOfBounds handle length
      else .invalidHandle handle := by
  unfold bufferFor liveBuffer at h
  rcases hbuffer : table.buffer? address.identifier with _ | buffer <;> rw [hbuffer] at h
  · cases h; rfl
  · simp only at h
    split at h
    · cases h
    · cases h; rfl

/-- The bytes read are those at the addresses of the range. -/
theorem read_eq {length : Nat} {buffer : Buffer}
    (h : table.bufferFor handle address length = .ok buffer) :
    table.read handle address length = .ok ((List.range' address.offset length).map fun p =>
      table.byteAt { address with offset := p }) := by
  obtain ⟨hbuffer, -⟩ := bufferFor_eq_ok_iff.mp h
  unfold read Buffer.read
  rw [h]
  refine congrArg Except.ok (List.map_congr_left fun p _ => ?_)
  unfold byteAt
  rw [hbuffer]
  rfl

/-- Another buffer of the same size keeps all that is kept about blocks. -/
theorem occupancy_setIfInBounds {index : Nat} {buffer next : Buffer}
    (hlookup : table.buffers[index]? = some (some buffer)) (hsize : next.size = buffer.size) :
    (⟨table.buffers.setIfInBounds index (some next), table.spare⟩ : BlockTable).occupancy
      = table.occupancy := by
  have hlt : index < table.buffers.size := (Array.getElem?_eq_some_iff.mp hlookup).1
  refine Prod.ext (Array.ext_getElem? fun i => ?_) rfl
  simp only [occupancy, Array.getElem?_map, Array.getElem?_setIfInBounds]
  by_cases heq : index = i
  · rw [if_pos heq, if_pos hlt, ← heq, hlookup, Option.map_some, Option.map_some, Option.map_some,
      Option.map_some, hsize]
  · rw [if_neg heq]

/-- A buffer that is there may be replaced by another one. -/
theorem Valid.replace (hv : table.Valid) {index : Nat} {buffer : Buffer}
    (hlookup : table.buffers[index]? = some (some buffer)) (next : Buffer) :
    Valid ⟨table.buffers.setIfInBounds index (some next), table.spare⟩ := by
  have hlt : index < table.buffers.size := (Array.getElem?_eq_some_iff.mp hlookup).1
  refine ⟨hv.nodup, fun i => ?_, ?_⟩
  · rw [hv.mem_spare_iff]
    simp only [Array.getElem?_setIfInBounds]
    by_cases heq : index = i
    · rw [if_pos heq, if_pos hlt, ← heq, hlookup]
      simp
    · rw [if_neg heq]
  · unfold length
    rw [Array.size_setIfInBounds]
    exact hv.length_le

/-- **A granted write** changes the bytes that it covers. -/
theorem Valid.write_of_bufferFor (hv : table.Valid) {bytes : List UInt8} {buffer : Buffer}
    (h : table.bufferFor handle address bytes.length = .ok buffer) :
    ∃ next, table.write handle address bytes = .ok next ∧ Written table address bytes next := by
  obtain ⟨hbuffer, hroom⟩ := bufferFor_eq_ok_iff.mp h
  obtain ⟨index, hindex, hlt, hlookup⟩ := exists_index hbuffer
  have hreplaced := replaced_setIfInBounds table hlt
    (some (buffer.put address.offset bytes)) table.spare
  rw [← hindex] at hreplaced
  have hsize := Buffer.size_put buffer address.offset bytes
  refine ⟨_, ?_, hv.replace hlookup (buffer.put address.offset bytes),
    occupancy_setIfInBounds hlookup hsize, fun i => ?_, fun b => ?_⟩
  · unfold write
    rw [h, hindex]
    rfl
  · rw [hreplaced]
    split
    · next hi => rw [hi, hbuffer, Option.map_some, Option.map_some, hsize]
    · rfl
  · unfold byteAt
    rw [hreplaced]
    by_cases hi : b.identifier = address.identifier
    · rw [if_pos hi, hi, hbuffer, Option.map_some, Option.map_some, Option.getD_some,
        Option.getD_some, Buffer.get_put_within _ hroom]
      simp only [true_and]
    · rw [if_neg hi, if_neg (fun hc => hi hc.1)]

end access

end HandleHeap.BlockTable
