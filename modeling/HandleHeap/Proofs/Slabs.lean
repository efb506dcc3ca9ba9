import Mathlib
import HandleHeap.Slab

/-!
# Slabs

What the three operations on a slab do to its flags and bytes.

* `Slab.Valid`: the flags and the buffer have the sizes that the slab was made with, and every byte
  of a slot that is not in use is zero;
* `Slab.Claimed`, `Slab.Released`: everything that taking a slot and giving it back change;
* `Slab.exists_claim`: as long as fewer slots are in use than there are, one can be taken;
* `Slab.Valid.exists_release`: a slot in use can be given back;
* `Slab.valid_fresh`, `Slab.Claimed.valid`, `Slab.Released.valid`, `Slab.Valid.put`: validity is
  kept;
* `Slab.Valid.wipe_eq`: clearing a slab without a slot in use changes nothing.
-/

namespace HandleHeap

/-! ### Bytes -/

/-- A write that stays inside the buffer, at every position. -/
theorem Buffer.get_put_within (buffer : Buffer) {start : Nat} {bytes : List UInt8}
    (h : start + bytes.length ≤ buffer.size) (j : Nat) :
    (buffer.put start bytes).get j =
      if start ≤ j ∧ j < start + bytes.length then bytes[j - start]?.getD 0 else buffer.get j := by
  by_cases hj : j < buffer.size
  · rw [buffer.get_put start bytes j hj]
    by_cases hs : start ≤ j
    · by_cases he : j < start + bytes.length
      · have hlt : j - start < bytes.length := by omega
        rw [if_pos hs, if_pos ⟨hs, he⟩, List.getElem?_eq_getElem hlt]
        rfl
      · have hge : bytes.length ≤ j - start := by omega
        rw [if_pos hs, if_neg (fun hc => he hc.2), List.getElem?_eq_none hge]
        rfl
    · rw [if_neg hs, if_neg (fun hc => hs hc.1)]
  · have hge : buffer.size ≤ j := by omega
    rw [Buffer.get_of_size_le hge, Buffer.get_of_size_le (by simpa using hge), if_neg (by omega)]

theorem div_eq_iff_of_pos {p size slot : Nat} (h : 0 < size) :
    p / size = slot ↔ slot * size ≤ p ∧ p < slot * size + size := by
  rw [Nat.div_eq_iff h]
  constructor <;> rintro ⟨h1, h2⟩ <;> constructor <;> omega

namespace Slab

/-- The number of slots in use. -/
def usedCount (slab : Slab) : Nat := slab.used.count true

/-- A slab of `slotCount` slots of `chunkSize` bytes whose free slots hold zeros. -/
structure Valid (slab : Slab) (chunkSize slotCount : Nat) : Prop where
  chunkSize_eq : slab.chunkSize = chunkSize
  size_used : slab.used.size = slotCount
  size_buffer : slab.buffer.size = chunkSize * slotCount
  clear : ∀ p, slab.isUsed (p / chunkSize) = false → slab.buffer.get p = 0

/-- What taking a slot changes: the flag of the lowest free slot. -/
structure Claimed (slab : Slab) (slot : Nat) (next : Slab) : Prop where
  chunkSize_eq : next.chunkSize = slab.chunkSize
  size_used : next.used.size = slab.used.size
  buffer_eq : next.buffer = slab.buffer
  lt : slot < slab.used.size
  free : slab.isUsed slot = false
  lowest : ∀ i < slot, slab.isUsed i = true
  isUsed_eq : ∀ i, next.isUsed i = if i = slot then true else slab.isUsed i
  usedCount_eq : next.usedCount = slab.usedCount + 1

/-- What giving a slot back changes: its flag and its bytes. -/
structure Released (slab : Slab) (slot : Nat) (next : Slab) : Prop where
  chunkSize_eq : next.chunkSize = slab.chunkSize
  size_used : next.used.size = slab.used.size
  size_buffer : next.buffer.size = slab.buffer.size
  used : slab.isUsed slot = true
  isUsed_eq : ∀ i, next.isUsed i = if i = slot then false else slab.isUsed i
  get_eq : ∀ p, next.buffer.get p =
    if p / slab.chunkSize = slot then 0 else slab.buffer.get p
  usedCount_eq : next.usedCount + 1 = slab.usedCount

/-! ### Flags -/

theorem isUsed_iff {slab : Slab} {slot : Nat} :
    slab.isUsed slot = true ↔ slab.used[slot]? = some true := by
  unfold isUsed
  rcases slab.used[slot]? with _ | value <;> simp

theorem lt_of_isUsed {slab : Slab} {slot : Nat} (h : slab.isUsed slot = true) :
    slot < slab.used.size := by
  rw [isUsed_iff] at h
  exact (Array.getElem?_eq_some_iff.mp h).1

theorem isUsed_of_lt {slab : Slab} {slot : Nat} (h : slot < slab.used.size) :
    slab.isUsed slot = slab.used[slot] := by
  unfold isUsed
  rw [Array.getElem?_eq_getElem h]
  rfl

theorem isUsed_setIfInBounds (slab : Slab) {slot : Nat} (h : slot < slab.used.size) (value : Bool)
    (buffer : Buffer) (i : Nat) :
    ({ slab with used := slab.used.setIfInBounds slot value, buffer := buffer } : Slab).isUsed i =
      if i = slot then value else slab.isUsed i := by
  simp only [isUsed, Array.getElem?_setIfInBounds]
  by_cases heq : slot = i
  · rw [if_pos heq, if_pos h, if_pos heq.symm]
    rfl
  · rw [if_neg heq, if_neg (fun hc => heq hc.symm)]

theorem usedCount_le (slab : Slab) : slab.usedCount ≤ slab.used.size :=
  Array.count_le_size

theorem usedCount_pos {slab : Slab} {slot : Nat} (h : slab.isUsed slot = true) :
    0 < slab.usedCount := by
  rw [isUsed_iff] at h
  exact Array.count_pos_iff.mpr (Array.mem_of_getElem? h)

/-- Without a slot in use no flag is set. -/
theorem isUsed_of_usedCount_eq_zero {slab : Slab} (h : slab.usedCount = 0) (slot : Nat) :
    slab.isUsed slot = false := by
  by_contra hne
  have hpos := usedCount_pos (eq_true_of_ne_false hne)
  omega

/-! ### Taking a slot -/

theorem Claimed.of_claim {slab next : Slab} {slot : Nat} (h : slab.claim = some (slot, next)) :
    Claimed slab slot next := by
  unfold claim at h
  rw [Option.map_eq_some_iff] at h
  obtain ⟨found, hfound, heq⟩ := h
  obtain ⟨rfl, rfl⟩ := Prod.mk.inj heq
  obtain ⟨hlt, hfree, hbefore⟩ := Array.findIdx?_eq_some_iff_getElem.mp hfound
  have hfalse : slab.used[found] = false := by simpa using hfree
  refine ⟨rfl, Array.size_setIfInBounds, rfl, hlt, ?_, ?_, fun i => ?_, ?_⟩
  · rw [isUsed_of_lt hlt, hfalse]
  · intro i hi
    rw [isUsed_of_lt (Nat.lt_trans hi hlt)]
    simpa using hbefore i hi
  · exact isUsed_setIfInBounds slab hlt true slab.buffer i
  · simp only [usedCount, Array.setIfInBounds, hlt, dite_true, Array.count_set hlt, hfalse]
    simp

/-- As long as a flag is clear, a slot can be taken. -/
theorem exists_claim {slab : Slab} (h : slab.usedCount < slab.used.size) :
    ∃ slot next, slab.claim = some (slot, next) ∧ Claimed slab slot next := by
  rcases hfind : slab.used.findIdx? (· == false) with _ | slot
  · rw [Array.findIdx?_eq_none_iff] at hfind
    have hall : slab.usedCount = slab.used.size := by
      refine Array.count_eq_size.mpr fun value hmem => ?_
      have := hfind value hmem
      simp only [beq_eq_false_iff_ne, ne_eq, Bool.not_eq_false] at this
      exact this.symm
    omega
  · have hclaim : slab.claim =
        some (slot, { slab with used := slab.used.setIfInBounds slot true }) := by
      unfold claim
      rw [hfind]
      rfl
    exact ⟨slot, _, hclaim, Claimed.of_claim hclaim⟩

/-! ### Validity -/

theorem valid_fresh (chunkSize slotCount : Nat) :
    (fresh chunkSize slotCount).Valid chunkSize slotCount :=
  ⟨rfl, Array.size_replicate, rfl, fun p _ => Buffer.get_zeroed _ p⟩

@[simp] theorem isUsed_fresh (chunkSize slotCount slot : Nat) :
    (fresh chunkSize slotCount).isUsed slot = false := by
  simp only [isUsed, fresh, Array.getElem?_replicate]
  split <;> rfl

@[simp] theorem usedCount_fresh (chunkSize slotCount : Nat) :
    (fresh chunkSize slotCount).usedCount = 0 := by
  simp [usedCount, fresh, Array.count_replicate]

section Valid
variable {slab next : Slab} {chunkSize slotCount slot : Nat} (hv : slab.Valid chunkSize slotCount)
include hv

theorem Valid.lt_slotCount (h : slab.isUsed slot = true) : slot < slotCount := by
  rw [← hv.size_used]; exact lt_of_isUsed h

/-- The bytes of a slot lie inside the buffer. -/
theorem Valid.slot_le_size_of_lt (hlt : slot < slotCount) :
    slot * chunkSize + chunkSize ≤ slab.buffer.size := by
  have hle : (slot + 1) * chunkSize ≤ slotCount * chunkSize := Nat.mul_le_mul_right _ hlt
  rw [hv.size_buffer, Nat.mul_comm chunkSize, ← Nat.succ_mul]
  exact hle

theorem Valid.slot_le_size (h : slab.isUsed slot = true) :
    slot * chunkSize + chunkSize ≤ slab.buffer.size :=
  hv.slot_le_size_of_lt (hv.lt_slotCount h)

theorem Claimed.valid (h : Claimed slab slot next) : next.Valid chunkSize slotCount := by
  refine ⟨h.chunkSize_eq.trans hv.chunkSize_eq, h.size_used.trans hv.size_used, ?_, fun p hp => ?_⟩
  · rw [h.buffer_eq]; exact hv.size_buffer
  · rw [h.buffer_eq]
    rw [h.isUsed_eq] at hp
    split at hp
    · cases hp
    · exact hv.clear p hp

/-- A slot in use can be given back. -/
theorem Valid.exists_release (hpos : 0 < chunkSize) (h : slab.isUsed slot = true) :
    ∃ next, slab.release slot = some next ∧ Released slab slot next := by
  have hlt := lt_of_isUsed h
  have htrue : slab.used[slot] = true := by rw [← isUsed_of_lt hlt]; exact h
  have hcs := hv.chunkSize_eq
  refine ⟨_, if_pos h, rfl, Array.size_setIfInBounds, Buffer.size_put _ _ _, h, fun i => ?_,
    fun p => ?_, ?_⟩
  · exact isUsed_setIfInBounds slab hlt false _ i
  · have hroom : slot * slab.chunkSize + (List.replicate slab.chunkSize (0 : UInt8)).length
        ≤ slab.buffer.size := by
      rw [List.length_replicate, hcs]; exact hv.slot_le_size h
    rw [Buffer.get_put_within _ hroom]
    simp only [List.length_replicate, List.getElem?_replicate,
      div_eq_iff_of_pos (by omega : 0 < slab.chunkSize)]
    split
    · split <;> rfl
    · rfl
  · have hcount := usedCount_pos h
    unfold usedCount at hcount ⊢
    simp only [Array.setIfInBounds, hlt, dite_true, Array.count_set hlt, htrue]
    simp
    omega

theorem Released.valid (h : Released slab slot next) : next.Valid chunkSize slotCount := by
  refine ⟨h.chunkSize_eq.trans hv.chunkSize_eq, h.size_used.trans hv.size_used,
    h.size_buffer.trans hv.size_buffer, fun p hp => ?_⟩
  rw [h.isUsed_eq] at hp
  rw [h.get_eq, hv.chunkSize_eq]
  by_cases hslot : p / chunkSize = slot
  · exact if_pos hslot
  · rw [if_neg hslot] at hp
    rw [if_neg hslot]
    exact hv.clear p hp

/-- Without a slot in use there is nothing left to clear. -/
theorem Valid.wipe_eq (h : slab.usedCount = 0) : slab.wipe = slab := by
  have hbuffer : Buffer.zeroed slab.buffer.size = slab.buffer :=
    Buffer.ext rfl fun p => by
      rw [Buffer.get_zeroed]
      exact (hv.clear p (isUsed_of_usedCount_eq_zero h _)).symm
  unfold wipe
  rw [hbuffer]

/-- A write that stays inside a slot in use. -/
theorem Valid.put (hpos : 0 < chunkSize) (h : slab.isUsed slot = true) {start : Nat}
    {bytes : List UInt8} (hlo : slot * chunkSize ≤ start)
    (hhi : start + bytes.length ≤ slot * chunkSize + chunkSize) :
    ({ slab with buffer := slab.buffer.put start bytes } : Slab).Valid chunkSize slotCount := by
  refine ⟨hv.chunkSize_eq, hv.size_used, (Buffer.size_put _ _ _).trans hv.size_buffer,
    fun p hp => ?_⟩
  have hroom := hv.slot_le_size h
  have hfree : slab.isUsed (p / chunkSize) = false := hp
  rw [Buffer.get_put_within _ (by omega)]
  split
  · next hin =>
    have hslot : p / chunkSize = slot := by rw [div_eq_iff_of_pos hpos]; omega
    rw [hslot, h] at hfree
    cases hfree
  · exact hv.clear p hfree

end Valid

end Slab

end HandleHeap
