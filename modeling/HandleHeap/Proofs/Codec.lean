import HandleHeap.Proofs.Addresses

/-!
# The handles of addresses

Decoding takes the positive handles one to one onto the addresses that a handle has room for, and
packing takes them back.  What is added to a handle is added to the place that it stands for, as
long as the sum stays below four gigabytes.

* `Address.Encodable`: the addresses that handles stand for;
* `Address.toHandle`: the handle of an address, packed from its fields;
* `Address.ofHandle_add`: a handle moved on stands for the address moved on;
* `Address.bijOn_ofHandle`, `Address.Encodable.ofHandle_toHandle`, `Address.toHandle_eq`: decoding
  and packing undo each other;
* `Address.ofHandle_codec`: all of this together.
-/

namespace HandleHeap

/-! ### Moving a handle -/

namespace Handle

variable {handle : Handle} {length : Nat}

theorem place_address (handle : Handle) : handle.address.place = handle.offset := by
  unfold address
  split <;> rfl

/-- A positive handle moved on within the positive words is moved by as much as is added. -/
theorem toInt_add_ofNat (h : 0 < handle.toInt)
    (hroom : handle.toInt + length < 0x8000000000000000) :
    (handle + Int64.ofNat length).toInt = handle.toInt + length := by
  have hlength : (Int64.ofNat length).toInt = length := Int64.toInt_ofNat_of_lt (by omega)
  rw [Int64.toInt_add, hlength]
  exact Int.bmod_eq_of_le (by omega) (by omega)

/-- The last handle with the same upper half is a positive word. -/
theorem toInt_add_lt (h : 0 < handle.toInt) (hroom : handle.offset + length < 0x100000000) :
    handle.toInt + length < 0x8000000000000000 := by
  have hlt := word_lt h
  rw [toInt_eq_word h]
  unfold offset at hroom
  omega

end Handle

namespace Address

variable {handle : Handle} {a : Address} {length : Nat}

/-- **A handle moved on** within its lower four bytes stands for its address moved on. -/
theorem ofHandle_add (h : ofHandle handle = .ok a)
    (hroom : handle.offset + length < 0x100000000) :
    (handle + Int64.ofNat length).toInt = handle.toInt + length ∧
      ofHandle (handle + Int64.ofNat length) = .ok (a.advance length) := by
  obtain ⟨hpos, rfl⟩ := ofHandle_eq_ok_iff.mp h
  have hmoved := Handle.toInt_add_ofNat hpos (Handle.toInt_add_lt hpos hroom)
  have hfits : (handle.address.advance length).Fits :=
    fits_advance (Handle.address_fits hpos) (by rw [Handle.place_address]; exact hroom)
  have hnumber : ((handle.address.advance length).number : Int)
      = (handle + Int64.ofNat length).toInt := by
    rw [hmoved, number_advance, Nat.cast_add, Handle.number_address hpos]
  have hmoved_pos : 0 < (handle + Int64.ofNat length).toInt := by omega
  exact ⟨hmoved, ofHandle_eq_ok_iff.mpr ⟨hmoved_pos, Handle.address_eq hmoved_pos hfits hnumber⟩⟩

/-! ### Packing an address -/

/-- A handle can stand for the address: every field fits its place, and not all of the word is
zero, which would be the null handle. -/
def Encodable (a : Address) : Prop := a.Fits ∧ a ≠ .block ⟨0, 0⟩

/-- The handle of an address: that of the slot or of the block, moved on to the byte. -/
def toHandle : Address → Handle
  | chunk a => Handle.ofSlot a.sizeIndex a.chainIndex a.slot + Int64.ofNat a.slotOffset
  | block a => Handle.ofBlock a.identifier a.offset

theorem ofHandle_ofSlot {sizeIndex chainIndex slot : Nat} (hs : sizeIndex < 0x400)
    (hc : chainIndex < 0x100000) (hp : slot * (sizeIndex + 1) < 0x100000000) :
    ofHandle (Handle.ofSlot sizeIndex chainIndex slot)
      = .ok (.chunk ⟨sizeIndex, chainIndex, slot * (sizeIndex + 1)⟩) :=
  ofHandle_eq_ok_iff.mpr (Handle.address_ofSlot hs hc hp)

theorem ofHandle_ofBlock {identifier offset : Nat} (hi : identifier < 0x40000000)
    (ho : offset < 0x100000000) (hne : (identifier, offset) ≠ (0, 0)) :
    ofHandle (Handle.ofBlock identifier offset) = .ok (.block ⟨identifier, offset⟩) := by
  have hsome : 0 < identifier ∨ 0 < offset := by
    rw [ne_eq, Prod.mk.injEq] at hne
    omega
  exact ofHandle_eq_ok_iff.mpr (Handle.address_ofBlock hi ho hsome)

/-- **Packing is undone by decoding.** -/
theorem Encodable.ofHandle_toHandle (ha : a.Encodable) : ofHandle a.toHandle = .ok a := by
  obtain ⟨hfits, hne⟩ := ha
  rcases a with a | ⟨identifier, offset⟩
  · obtain ⟨hs, hc, hp⟩ := hfits
    have hsplit := a.slot_mul_add
    have hslot : a.slot * (a.sizeIndex + 1) < 0x100000000 := by
      change a.slot * a.chunkSize < 0x100000000
      omega
    have hstart := ofHandle_ofSlot hs hc hslot
    -- the handle of the slot has the position of its first byte below
    have hoffset := Handle.place_address (Handle.ofSlot a.sizeIndex a.chainIndex a.slot)
    rw [(ofHandle_eq_ok_iff.mp hstart).2] at hoffset
    have hroom : (Handle.ofSlot a.sizeIndex a.chainIndex a.slot).offset + a.slotOffset
        < 0x100000000 := by
      rw [← hoffset]
      change a.slot * a.chunkSize + a.slotOffset < 0x100000000
      omega
    have hdecoded : ofHandle (toHandle (chunk a))
        = .ok (chunk { a with position := a.slot * a.chunkSize + a.slotOffset }) :=
      (ofHandle_add hstart hroom).2
    rw [hdecoded, hsplit]
  · refine ofHandle_ofBlock hfits.1 hfits.2 fun heq => hne ?_
    cases heq
    rfl

/-- A decoded address is one that a handle can stand for. -/
theorem encodable_of_ofHandle (h : ofHandle handle = .ok a) : a.Encodable := by
  refine ⟨fits_of_ofHandle h, ?_⟩
  rintro rfl
  obtain ⟨hpos, haddress⟩ := ofHandle_eq_ok_iff.mp h
  have hnumber := Handle.number_address hpos
  rw [haddress] at hnumber
  simp only [number] at hnumber
  omega

/-- **Decoding is undone by packing**, and the number of the address is the handle. -/
theorem toHandle_eq (h : ofHandle handle = .ok a) :
    a.toHandle = handle ∧ (a.number : Int) = handle.toInt := by
  have hback := (encodable_of_ofHandle h).ofHandle_toHandle
  obtain ⟨hpos, haddress⟩ := ofHandle_eq_ok_iff.mp h
  obtain ⟨hpos', haddress'⟩ := ofHandle_eq_ok_iff.mp hback
  refine ⟨Handle.eq_of_address_eq hpos' hpos (haddress'.trans haddress.symm), ?_⟩
  rw [← haddress, Handle.number_address hpos]

/-- Decoding takes the positive handles one to one onto the addresses that handles stand for. -/
theorem bijOn_ofHandle : Set.BijOn ofHandle {handle | 1 ≤ handle.toInt}
    (Except.ok '' {a : Address | a.Encodable}) := by
  refine ⟨fun handle hpos => ?_, fun left hleft right hright heq => ?_, ?_⟩
  · have hok := ofHandle_of_pos hpos
    exact ⟨handle.address, encodable_of_ofHandle hok, hok.symm⟩
  · have hok := ofHandle_of_pos hleft
    rw [← (toHandle_eq hok).1, (toHandle_eq (heq.symm.trans hok)).1]
  · rintro _ ⟨a, ha, rfl⟩
    have hok := ha.ofHandle_toHandle
    exact ⟨a.toHandle, (ofHandle_eq_ok_iff.mp hok).1, hok⟩

/-! ### The codec -/

/-- **Decoding and packing undo each other and agree with adding to a handle.**  Decoding takes the
positive handles one to one onto the addresses of narrow fields; the fields of a handle give it
back, whether they are packed or put side by side; slots and bytes of blocks are read as they were
packed; and a handle moved on within its lower four bytes stands for its address moved on. -/
theorem ofHandle_codec :
    Set.BijOn ofHandle {handle | 1 ≤ handle.toInt} (Except.ok '' {a : Address | a.Encodable}) ∧
    (∀ handle a, ofHandle handle = .ok a →
      a.toHandle = handle ∧ (a.number : Int) = handle.toInt) ∧
    (∀ a : ChunkAddress,
      a.position = a.slot * a.chunkSize + a.slotOffset ∧ a.slotOffset < a.chunkSize) ∧
    (∀ sizeIndex chainIndex slot, sizeIndex < 0x400 → chainIndex < 0x100000 →
      slot * (sizeIndex + 1) < 0x100000000 → ∃ a : ChunkAddress,
        ofHandle (Handle.ofSlot sizeIndex chainIndex slot) = .ok (.chunk a) ∧
          a.sizeIndex = sizeIndex ∧ a.chainIndex = chainIndex ∧ a.slot = slot ∧
            a.slotOffset = 0) ∧
    (∀ identifier offset, identifier ≤ 0x3fffffff → offset < 0x100000000 →
      (identifier, offset) ≠ (0, 0) →
        ofHandle (Handle.ofBlock identifier offset) = .ok (.block ⟨identifier, offset⟩)) ∧
    (∀ handle a length, ofHandle handle = .ok a → handle.offset + length < 0x100000000 →
      (handle + Int64.ofNat length).toInt = handle.toInt + length ∧
        ofHandle (handle + Int64.ofNat length) = .ok (a.advance length)) := by
  refine ⟨bijOn_ofHandle, fun _ _ => toHandle_eq, fun a => ?_, ?_, ?_, fun _ _ _ => ofHandle_add⟩
  · exact ⟨a.slot_mul_add.symm, Nat.mod_lt _ a.chunkSize_pos⟩
  · intro sizeIndex chainIndex slot hs hc hp
    obtain ⟨hslot, hoffset⟩ := ChunkAddress.slot_eq_of_position
      (a := ⟨sizeIndex, chainIndex, slot * (sizeIndex + 1)⟩) rfl
    exact ⟨_, ofHandle_ofSlot hs hc hp, rfl, rfl, hslot, hoffset⟩
  · intro identifier offset hi ho hne
    exact ofHandle_ofBlock (by omega) ho hne

/-- The last byte of the highest slot that fits into a handle of the largest chunks. -/
theorem ofHandle_codec_at_end :
    ofHandle (Handle.ofSlot 0x3ff 0xfffff 0x3fffff + Int64.ofNat 0x3ff)
      = .ok (.chunk ⟨0x3ff, 0xfffff, 0xffffffff⟩) := by
  obtain ⟨-, -, -, -, -, hadd⟩ := ofHandle_codec
  have hbase : ofHandle (Handle.ofSlot 0x3ff 0xfffff 0x3fffff)
      = .ok (.chunk ⟨0x3ff, 0xfffff, 0xfffffc00⟩) := by decide +kernel
  exact (hadd _ _ 0x3ff hbase (by decide +kernel)).2

end Address

end HandleHeap
