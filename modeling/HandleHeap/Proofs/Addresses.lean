import Mathlib
import HandleHeap.Address

/-!
# Handles and addresses as numbers

A positive handle is the number of the address that it stands for, `Address.number`: the bit that
marks chunks, the fields above the lower four bytes, and the lower four bytes.  On addresses whose
fields fit their places the number determines the address, so what is said of an interval of handles
can be said of the addresses in it.

* `Address.inner`, `Address.start`: the distance of an address from the start of the memory that it
  points into, and that start;
* `Address.advance`: the address some bytes further on;
* `Handle.address_fits`, `Handle.number_address`: the fields of a positive handle fit, and give the
  handle back;
* `Handle.address_eq`: the only address with the number of a handle is that of the handle;
* `Handle.address_ofSlot`, `Handle.address_ofBlock`: a packed handle holds what was packed.
-/

namespace HandleHeap

/-! ### Slots of an address -/

namespace ChunkAddress

theorem chunkSize_pos (a : ChunkAddress) : 0 < a.chunkSize := Nat.succ_pos _

theorem slot_mul_add (a : ChunkAddress) : a.slot * a.chunkSize + a.slotOffset = a.position := by
  rw [Nat.mul_comm]; exact Nat.div_add_mod _ _

/-- The first address of a slot. -/
theorem slot_eq_of_position {a : ChunkAddress} {i : Nat}
    (h : a.position = i * a.chunkSize) : a.slot = i ∧ a.slotOffset = 0 := by
  unfold slot slotOffset
  rw [h]
  exact ⟨Nat.mul_div_cancel _ a.chunkSize_pos, Nat.mul_mod_left _ _⟩

end ChunkAddress

namespace Address

/-- The number of an address: its fields, each at its place. -/
def number : Address → Nat
  | chunk address =>
    0x4000000000000000 + (address.sizeIndex * 0x100000 + address.chainIndex) * 0x100000000
      + address.position
  | block address => address.identifier * 0x100000000 + address.offset

/-- Every field is narrow enough for its place in a handle. -/
def Fits : Address → Prop
  | chunk address => address.sizeIndex < 0x400 ∧ address.chainIndex < 0x100000
      ∧ address.position < 0x100000000
  | block address => address.identifier < 0x40000000 ∧ address.offset < 0x100000000

/-- The byte position in the buffer that the address points into. -/
def place : Address → Nat
  | chunk address => address.position
  | block address => address.offset

/-- The distance from the start of the chunk or block. -/
def inner : Address → Nat
  | chunk address => address.slotOffset
  | block address => address.offset

/-- The start of the chunk or block. -/
def start : Address → Address
  | chunk address => chunk { address with position := address.slot * address.chunkSize }
  | block address => block { address with offset := 0 }

/-- The address some bytes further on in the same buffer. -/
def advance (length : Nat) : Address → Address
  | chunk address => chunk { address with position := address.position + length }
  | block address => block { address with offset := address.offset + length }

/-- Whether the address lies in a slab. -/
def isChunk : Address → Bool
  | chunk _ => true
  | block _ => false

/-! ### Arithmetic of addresses -/

theorem number_inj {a b : Address} (ha : a.Fits) (hb : b.Fits) (h : a.number = b.number) :
    a = b := by
  rcases a with ⟨s, c, p⟩ | ⟨i, o⟩ <;> rcases b with ⟨s', c', p'⟩ | ⟨i', o'⟩ <;>
    simp only [Fits, number] at ha hb h
  · have hs : s = s' := by omega
    have hc : c = c' := by omega
    have hp : p = p' := by omega
    rw [hs, hc, hp]
  · omega
  · omega
  · have hi : i = i' := by omega
    have ho : o = o' := by omega
    rw [hi, ho]

theorem number_lt {a : Address} (ha : a.Fits) : a.number < 0x8000000000000000 := by
  rcases a with ⟨s, c, p⟩ | ⟨i, o⟩ <;> simp only [Fits, number] at ha ⊢ <;> omega

theorem number_add_le {a : Address} (ha : a.Fits) {length : Nat}
    (h : a.place + length ≤ 0x100000000) : a.number + length ≤ 0x8000000000000000 := by
  rcases a with ⟨s, c, p⟩ | ⟨i, o⟩ <;> simp only [Fits, place, number] at ha h ⊢ <;> omega

@[simp] theorem number_advance (a : Address) (length : Nat) :
    (a.advance length).number = a.number + length := by
  rcases a with ⟨s, c, p⟩ | ⟨i, o⟩ <;> simp only [advance, number] <;> omega

@[simp] theorem advance_zero (a : Address) : a.advance 0 = a := by
  rcases a with ⟨s, c, p⟩ | ⟨i, o⟩ <;> rfl

theorem fits_advance {a : Address} (ha : a.Fits) {length : Nat}
    (h : a.place + length < 0x100000000) : (a.advance length).Fits := by
  rcases a with ⟨s, c, p⟩ | ⟨i, o⟩ <;> simp only [Fits, place, advance] at ha h ⊢ <;> omega

/-- Two addresses in one stretch of four gigabytes differ by an advance. -/
theorem eq_advance {a b : Address} (ha : a.Fits) (hb : b.Fits) (hle : a.number ≤ b.number)
    (hroom : a.place + (b.number - a.number) < 0x100000000) :
    b = a.advance (b.number - a.number) := by
  refine number_inj hb (fits_advance ha hroom) ?_
  rw [number_advance]; omega

/-- A range in a slab holds the addresses of that slab whose positions it covers. -/
theorem mem_range_chunk_iff {a b : ChunkAddress} (ha : (chunk a).Fits) (hb : (chunk b).Fits)
    {length : Nat} (hroom : a.position + length ≤ 0x100000000) :
    (chunk a).number ≤ (chunk b).number ∧ (chunk b).number < (chunk a).number + length ↔
      b.sizeIndex = a.sizeIndex ∧ b.chainIndex = a.chainIndex ∧
        a.position ≤ b.position ∧ b.position < a.position + length := by
  obtain ⟨s, c, p⟩ := a
  obtain ⟨s', c', p'⟩ := b
  simp only [Fits, number] at ha hb hroom ⊢
  omega

/-- A range in a block holds the addresses of that block whose offsets it covers. -/
theorem mem_range_block_iff {a b : BlockAddress} (ha : (block a).Fits) (hb : (block b).Fits)
    {length : Nat} (hroom : a.offset + length ≤ 0x100000000) :
    (block a).number ≤ (block b).number ∧ (block b).number < (block a).number + length ↔
      b.identifier = a.identifier ∧ a.offset ≤ b.offset ∧ b.offset < a.offset + length := by
  obtain ⟨i, o⟩ := a
  obtain ⟨i', o'⟩ := b
  simp only [Fits, number] at ha hb hroom ⊢
  omega

/-- No range reaches from one kind of memory into the other. -/
theorem not_mem_range_of_isChunk_ne {a b : Address} (ha : a.Fits) (hb : b.Fits)
    (hne : a.isChunk ≠ b.isChunk) {length : Nat} (hroom : a.place + length ≤ 0x100000000) :
    ¬ (a.number ≤ b.number ∧ b.number < a.number + length) := by
  rcases a with ⟨s, c, p⟩ | ⟨i, o⟩ <;> rcases b with ⟨s', c', p'⟩ | ⟨i', o'⟩
  · exact absurd rfl hne
  · simp only [Fits, number, place] at ha hb hroom ⊢
    omega
  · simp only [Fits, number, place] at ha hb hroom ⊢
    omega
  · exact absurd rfl hne

theorem fits_start {a : Address} (ha : a.Fits) : a.start.Fits := by
  rcases a with address | ⟨i, o⟩
  · have hle : address.slot * address.chunkSize ≤ address.position := Nat.div_mul_le_self _ _
    simp only [Fits, start] at ha ⊢; omega
  · simp only [Fits, start] at ha ⊢; omega

theorem place_start (a : Address) : a.place = a.start.place + a.inner := by
  rcases a with address | ⟨i, o⟩
  · exact address.slot_mul_add.symm
  · exact (Nat.zero_add o).symm

theorem number_start (a : Address) : a.number = a.start.number + a.inner := by
  have h := a.place_start
  rcases a with address | ⟨i, o⟩ <;> simp only [number, place, start, inner] at h ⊢ <;> omega

theorem start_eq_self_iff {a : Address} : a.start = a ↔ a.inner = 0 := by
  have h := a.number_start
  constructor
  · intro heq; rw [heq] at h; omega
  · rcases a with ⟨s, c, p⟩ | ⟨i, o⟩
    · intro hin
      simp only [inner, ChunkAddress.slotOffset] at hin
      simp only [start, ChunkAddress.slot, chunk.injEq, ChunkAddress.mk.injEq, true_and]
      exact Nat.div_mul_cancel (Nat.dvd_of_mod_eq_zero hin)
    · intro hin; simp only [inner] at hin; subst hin; rfl

/-- Within a chunk an advance keeps the slot. -/
theorem slot_advance (a : ChunkAddress) {length : Nat}
    (h : a.slotOffset + length < a.chunkSize) :
    (chunk a).advance length = chunk { a with position := a.position + length } ∧
      ({ a with position := a.position + length } : ChunkAddress).slot = a.slot ∧
      ({ a with position := a.position + length } : ChunkAddress).slotOffset
        = a.slotOffset + length := by
  have hsplit : a.chunkSize * a.slot + a.slotOffset = a.position := Nat.div_add_mod _ _
  have hpos : a.position + length = a.slotOffset + length + a.chunkSize * a.slot := by omega
  have hcs : 0 < a.chunkSize := Nat.succ_pos _
  refine ⟨rfl, ?_, ?_⟩
  · change (a.position + length) / a.chunkSize = a.slot
    rw [hpos, Nat.add_mul_div_left _ _ hcs, Nat.div_eq_of_lt h, Nat.zero_add]
  · change (a.position + length) % a.chunkSize = a.slotOffset + length
    rw [hpos, Nat.add_mul_mod_self_left, Nat.mod_eq_of_lt h]

end Address

namespace Handle

variable {handle : Handle}

/-! ### The bits of a handle -/

theorem toInt_eq_word (h : 0 < handle.toInt) : handle.toInt = handle.word := by
  have hcond : handle.toInt = _ := BitVec.toInt_eq_toNat_cond handle.toBitVec
  have hword : handle.word = handle.toBitVec.toNat := rfl
  have hlt := handle.toBitVec.isLt
  rw [← hword] at hcond hlt
  split at hcond <;> omega

theorem word_lt (h : 0 < handle.toInt) : handle.word < 0x8000000000000000 := by
  have heq := toInt_eq_word h
  have hlt := handle.toInt_lt
  omega

theorem eq_null_iff : handle = Handle.null ↔ handle.toInt = 0 := by
  rw [← Int64.toInt_inj]; rfl

theorem ne_null_of_pos (h : 0 < handle.toInt) : handle ≠ Handle.null := by
  rw [ne_eq, eq_null_iff]
  omega

theorem lt_one_iff : handle < 1 ↔ handle.toInt < 1 := Int64.lt_iff_toInt_lt

/-- A word below the sign bit is the number of its handle. -/
theorem toInt_ofWord {n : Nat} (h : n < 0x8000000000000000) : (ofWord n).toInt = n := by
  have hword : (ofWord n).toBitVec = BitVec.ofNat 64 n := rfl
  rw [← Int64.toInt_toBitVec, hword, BitVec.toInt_eq_toNat_cond, BitVec.toNat_ofNat,
    Nat.mod_eq_of_lt (by omega)]
  exact if_pos (by omega)

/-- Flipping a bit that is set takes it away. -/
theorem add_xor_two_pow {i r : Nat} (h : r < 2 ^ i) : (2 ^ i + r) ^^^ 2 ^ i = r := by
  have hdiv : ((2 ^ i + r) ^^^ 2 ^ i) / 2 ^ i = 0 := by
    rw [Nat.xor_div_two_pow, Nat.add_div_left _ (Nat.two_pow_pos i), Nat.div_eq_of_lt h,
      Nat.div_self (Nat.two_pow_pos i), Nat.xor_self]
  have hmod : ((2 ^ i + r) ^^^ 2 ^ i) % 2 ^ i = r := by
    rw [Nat.xor_mod_two_pow, Nat.add_mod_left, Nat.mod_self, Nat.xor_zero, Nat.mod_eq_of_lt h]
  have hsplit := Nat.div_add_mod ((2 ^ i + r) ^^^ 2 ^ i) (2 ^ i)
  rw [hdiv, hmod] at hsplit
  omega

theorem isChunk_iff (h : 0 < handle.toInt) :
    handle.isChunk = true ↔ 0x4000000000000000 ≤ handle.word := by
  have hlt := word_lt h
  unfold isChunk
  rw [Nat.testBit_eq_decide_div_mod_eq, decide_eq_true_iff]
  omega

theorem sizeIndex_eq (h : 0 < handle.toInt) (hc : handle.isChunk = true) :
    handle.sizeIndex = (handle.word - 0x4000000000000000) / 0x10000000000000 := by
  have hlt := word_lt h
  have hge := (isChunk_iff h).mp hc
  have hbit : (0x40000000 : Nat) = 2 ^ 30 := by decide
  obtain ⟨rest, hrest⟩ : ∃ rest, handle.identifier = 2 ^ 30 + rest :=
    ⟨handle.identifier - 2 ^ 30, by unfold identifier; omega⟩
  have hword : handle.word / 0x100000000 = 2 ^ 30 + rest := hrest
  unfold sizeIndex
  rw [hrest, hbit, add_xor_two_pow (by omega)]
  omega

/-! ### The address of a handle -/

/-- The fields of a positive handle fit their places. -/
theorem address_fits (h : 0 < handle.toInt) : handle.address.Fits := by
  have hlt := word_lt h
  unfold address
  split
  · next hc =>
    have hge := (isChunk_iff h).mp hc
    refine ⟨?_, Nat.mod_lt _ (by decide), Nat.mod_lt _ (by decide)⟩
    simp only
    rw [sizeIndex_eq h hc]
    omega
  · next hc =>
    rw [isChunk_iff h] at hc
    refine ⟨?_, Nat.mod_lt _ (by decide)⟩
    simp only [identifier]
    omega

/-- The fields of a positive handle give the handle back. -/
theorem number_address (h : 0 < handle.toInt) : (handle.address.number : Int) = handle.toInt := by
  have hlt := word_lt h
  rw [toInt_eq_word h]
  unfold address
  split
  · next hc =>
    have hge := (isChunk_iff h).mp hc
    simp only [Address.number]
    rw [sizeIndex_eq h hc]
    unfold chainIndex offset identifier
    omega
  · simp only [Address.number]
    unfold offset identifier
    omega

/-- The only address with the number of a handle is that of the handle. -/
theorem address_eq (h : 0 < handle.toInt) {a : Address} (ha : a.Fits)
    (hn : (a.number : Int) = handle.toInt) : handle.address = a := by
  have hnum := number_address h
  exact Address.number_inj (address_fits h) ha (by omega)

theorem eq_of_address_eq {other : Handle} (h : 0 < handle.toInt) (ho : 0 < other.toInt)
    (heq : handle.address = other.address) : handle = other := by
  rw [← Int64.toInt_inj, ← number_address h, ← number_address ho, heq]

theorem isChunk_address (handle : Handle) : handle.address.isChunk = handle.isChunk := by
  unfold address
  split
  · next hc => rw [hc]; rfl
  · next hc => rw [Bool.not_eq_true] at hc; rw [hc]; rfl

/-- The fields of a handle, read as those of a handle into a slab. -/
def chunk (handle : Handle) : ChunkAddress :=
  ⟨handle.sizeIndex, handle.chainIndex, handle.offset⟩

theorem eq_of_address_eq_chunk {handle : Handle} {a : ChunkAddress}
    (h : handle.address = .chunk a) : ⟨handle.sizeIndex, handle.chainIndex, handle.offset⟩ = a := by
  unfold address at h
  split at h
  · exact Address.chunk.inj h
  · cases h

theorem eq_of_address_eq_block {handle : Handle} {a : BlockAddress}
    (h : handle.address = .block a) : ⟨handle.identifier, handle.offset⟩ = a := by
  unfold address at h
  split at h
  · cases h
  · exact Address.block.inj h

/-! ### Packing -/

/-- Fields that fit are added up. -/
theorem ofSlot_eq_ofWord {sizeIndex chainIndex slot : Nat} (hs : sizeIndex < 0x400)
    (hc : chainIndex < 0x100000) (hp : slot * (sizeIndex + 1) < 0x100000000) :
    ofSlot sizeIndex chainIndex slot = ofWord (0x4000000000000000
      + (sizeIndex * 0x100000 + chainIndex) * 0x100000000 + slot * (sizeIndex + 1)) := by
  have hupper : sizeIndex * 0x100000 ||| chainIndex = sizeIndex * 0x100000 + chainIndex := by
    have h := Nat.two_pow_add_eq_or_of_lt (i := 20) hc sizeIndex
    rw [Nat.mul_comm sizeIndex]
    exact h.symm
  have hword : ∀ n, n < 2 ^ 62 → 0x4000000000000000 ||| n = 0x4000000000000000 + n :=
    fun n hn => (Nat.two_pow_add_eq_or_of_lt hn 1).symm
  unfold ofSlot
  simp only
  rw [hupper, Nat.mod_eq_of_lt (by omega : sizeIndex * 0x100000 + chainIndex < 0x100000000),
    Nat.mod_eq_of_lt hp, hword _ (by omega), Nat.add_assoc]

theorem toInt_ofSlot {sizeIndex chainIndex slot : Nat} (hs : sizeIndex < 0x400)
    (hc : chainIndex < 0x100000) (hp : slot * (sizeIndex + 1) < 0x100000000) :
    (ofSlot sizeIndex chainIndex slot).toInt
      = (Address.chunk ⟨sizeIndex, chainIndex, slot * (sizeIndex + 1)⟩).number := by
  rw [ofSlot_eq_ofWord hs hc hp, toInt_ofWord (by omega)]
  rfl

theorem toInt_ofBlock {identifier offset : Nat} (hi : identifier < 0x40000000)
    (ho : offset < 0x100000000) :
    (ofBlock identifier offset).toInt = (Address.block ⟨identifier, offset⟩).number := by
  unfold ofBlock
  exact toInt_ofWord (by omega)

/-- A packed slot holds what was packed. -/
theorem address_ofSlot {sizeIndex chainIndex slot : Nat} (hs : sizeIndex < 0x400)
    (hc : chainIndex < 0x100000) (hp : slot * (sizeIndex + 1) < 0x100000000) :
    0 < (ofSlot sizeIndex chainIndex slot).toInt ∧ (ofSlot sizeIndex chainIndex slot).address
      = .chunk ⟨sizeIndex, chainIndex, slot * (sizeIndex + 1)⟩ := by
  have heq := toInt_ofSlot hs hc hp
  have hpos : 0 < (ofSlot sizeIndex chainIndex slot).toInt := by
    rw [heq]; simp only [Address.number]; omega
  exact ⟨hpos, address_eq hpos ⟨hs, hc, hp⟩ heq.symm⟩

/-- A packed byte of a block holds what was packed, unless it is the null handle. -/
theorem address_ofBlock {identifier offset : Nat} (hi : identifier < 0x40000000)
    (ho : offset < 0x100000000) (hne : 0 < identifier ∨ 0 < offset) :
    0 < (ofBlock identifier offset).toInt
      ∧ (ofBlock identifier offset).address = .block ⟨identifier, offset⟩ := by
  have heq := toInt_ofBlock hi ho
  have hpos : 0 < (ofBlock identifier offset).toInt := by
    rw [heq]; simp only [Address.number]; omega
  exact ⟨hpos, address_eq hpos ⟨hi, ho⟩ heq.symm⟩

end Handle

/-! ### The gate in front of every call -/

theorem Address.ofHandle_of_pos {handle : Handle} (h : 0 < handle.toInt) :
    Address.ofHandle handle = .ok handle.address := by
  have hone : ¬ handle < 1 := by rw [Handle.lt_one_iff]; omega
  unfold Address.ofHandle Handle.validate
  rw [if_neg (Handle.ne_null_of_pos h), if_neg hone]
  rfl

theorem Address.ofHandle_null : Address.ofHandle Handle.null = .error .nullHandle := rfl

theorem Address.ofHandle_of_neg {handle : Handle} (h : handle.toInt < 0) :
    Address.ofHandle handle = .error (.invalidHandle handle) := by
  have hnull : ¬ handle = Handle.null := by rw [Handle.eq_null_iff]; omega
  have hone : handle < 1 := by rw [Handle.lt_one_iff]; omega
  unfold Address.ofHandle Handle.validate
  rw [if_neg hnull, if_pos hone]
  rfl

theorem Address.ofHandle_eq_ok_iff {handle : Handle} {a : Address} :
    Address.ofHandle handle = .ok a ↔ 0 < handle.toInt ∧ handle.address = a := by
  rcases Int.lt_trichotomy handle.toInt 0 with hneg | hzero | hpos
  · rw [ofHandle_of_neg hneg]
    exact ⟨nofun, fun h => by omega⟩
  · rw [Handle.eq_null_iff.mpr hzero, ofHandle_null]
    exact ⟨nofun, fun h => absurd h.1 (by decide)⟩
  · rw [ofHandle_of_pos hpos]
    exact ⟨fun h => ⟨hpos, Except.ok.inj h⟩, fun h => by rw [h.2]⟩

theorem Address.fits_of_ofHandle {handle : Handle} {a : Address}
    (h : Address.ofHandle handle = .ok a) : a.Fits := by
  obtain ⟨hpos, rfl⟩ := Address.ofHandle_eq_ok_iff.mp h
  exact Handle.address_fits hpos

end HandleHeap
