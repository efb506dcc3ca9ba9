import HandleHeap.Proofs.Codec
import HandleHeap.Proofs.Contents
import HandleHeap.Proofs.Extents

/-!
# Values in byte arrays

A value that is put into a byte array goes where it would go in an allocation that holds the same
bytes: both accept it at the same indices, and hold the same bytes afterwards.

* `getElem?_patch`: some entries of a list replaced by as many others;
* `Scalar.storeInPlace`, `Scalar.StoredInPlace`: putting a value at an index that is a word, and
  what is left of the array, whether there is room for the value or not;
* `Heap.Valid.ofHandle_add`: a handle moved on within its allocation;
* `Session.Sound.holds_patch`: what an allocation holds after a write inside it;
* `Session.storeIn_after`: byte arrays and allocations agree.
-/

namespace HandleHeap

/-! ### Patches -/

section patch
variable {α : Type} {xs ys : List α} {i : Nat} (h : i + ys.length ≤ xs.length)
include h

theorem length_patch : (xs.take i ++ ys ++ xs.drop (i + ys.length)).length = xs.length := by
  simp only [List.length_append, List.length_take, List.length_drop]
  omega

/-- The entries of a patch, and around it the old ones. -/
theorem getElem?_patch (j : Nat) : (xs.take i ++ ys ++ xs.drop (i + ys.length))[j]?
    = if i ≤ j ∧ j < i + ys.length then ys[j - i]? else xs[j]? := by
  have hfront : (xs.take i).length = i := by
    rw [List.length_take]
    omega
  rw [List.append_assoc]
  by_cases hlow : i ≤ j
  · rw [List.getElem?_append_right (by omega), hfront]
    by_cases hhigh : j < i + ys.length
    · rw [if_pos ⟨hlow, hhigh⟩, List.getElem?_append_left (by omega)]
    · have hback : i + ys.length + (j - i - ys.length) = j := by omega
      rw [if_neg (fun hin => hhigh hin.2), List.getElem?_append_right (by omega),
        List.getElem?_drop, hback]
  · rw [if_neg (fun hin => hlow hin.1), List.getElem?_append_left (by omega),
      List.getElem?_take_of_lt (by omega)]

theorem take_drop_patch :
    ((xs.take i ++ ys ++ xs.drop (i + ys.length)).drop i).take ys.length = ys := by
  have hfront : (xs.take i).length = i := by
    rw [List.length_take]
    omega
  rw [List.append_assoc, List.drop_left' hfront, List.take_left' rfl]

end patch

/-! ### Putting a value into an array -/

namespace Scalar

/-- `Scalar.storeIn` at an index of 64 bits, beside the array that the call leaves.  The end of the
value must be a word, and not beyond the array. -/
def storeInPlace (scalar : Scalar) (order : ByteOrder) (bytes : List UInt8) (index : UInt64)
    (value : scalar.Value) : Except HeapError Unit × List UInt8 :=
  match checkedAdd index (.ofNat scalar.width) with
  | none => (.error (.indexOutOfBounds index.toNat bytes.length), bytes)
  | some stop =>
    if index ≤ stop ∧ stop.toNat ≤ bytes.length then
      (.ok (), bytes.take index.toNat ++ scalar.encode order value ++ bytes.drop stop.toNat)
    else
      (.error (.indexOutOfBounds index.toNat bytes.length), bytes)

theorem storeIn_of_le {scalar : Scalar} {order : ByteOrder} {bytes : List UInt8} {index : Nat}
    (h : index + scalar.width ≤ bytes.length) (value : scalar.Value) :
    scalar.storeIn order bytes index value = .ok (bytes.take index ++ scalar.encode order value
      ++ bytes.drop (index + (scalar.encode order value).length)) := by
  rw [length_encode]
  exact if_pos h

theorem storeIn_of_lt {scalar : Scalar} {order : ByteOrder} {bytes : List UInt8} {index : Nat}
    (h : bytes.length < index + scalar.width) (value : scalar.Value) :
    scalar.storeIn order bytes index value = .error (.indexOutOfBounds index bytes.length) :=
  if_neg (Nat.not_le.mpr h)

/-- An end that is no word is beyond every array. -/
theorem storeInPlace_eq (scalar : Scalar) (order : ByteOrder) {bytes : List UInt8}
    (hbytes : bytes.length < 0x10000000000000000) (index : UInt64) (value : scalar.Value) :
    scalar.storeInPlace order bytes index value
      = match scalar.storeIn order bytes index.toNat value with
        | .ok next => (.ok (), next)
        | .error e => (.error e, bytes) := by
  have hwidth : (UInt64.ofNat scalar.width).toNat = scalar.width := by cases scalar <;> rfl
  unfold storeInPlace checkedAdd storeIn
  rw [hwidth]
  by_cases hword : index.toNat + scalar.width < 0x10000000000000000
  · have hstop : (index + UInt64.ofNat scalar.width).toNat = index.toNat + scalar.width := by
      rw [toNat_add_of_lt (by omega), hwidth]
    have horder : index ≤ index + UInt64.ofNat scalar.width := by
      rw [UInt64.le_iff_toNat_le, hstop]
      exact Nat.le_add_right _ _
    simp only [if_pos hword, hstop, horder, true_and]
    split <;> rfl
  · simp only [if_neg hword, if_neg (by omega : ¬ index.toNat + scalar.width ≤ bytes.length)]

/-- What putting a value at an index leaves of an array. -/
structure StoredInPlace (scalar : Scalar) (order : ByteOrder) (bytes : List UInt8)
    (index : UInt64) (value : scalar.Value) : Prop where
  ok_iff : (scalar.storeInPlace order bytes index value).1 = .ok () ↔
    index.toNat + scalar.width ≤ bytes.length
  /-- Without room for the value the array stays as it is. -/
  refused : ¬ index.toNat + scalar.width ≤ bytes.length →
    scalar.storeInPlace order bytes index value
      = (.error (.indexOutOfBounds index.toNat bytes.length), bytes)
  length_eq : (scalar.storeInPlace order bytes index value).2.length = bytes.length
  inside : index.toNat + scalar.width ≤ bytes.length →
    ((scalar.storeInPlace order bytes index value).2.drop index.toNat).take scalar.width
      = scalar.encode order value
  outside : ∀ i, ¬ (index.toNat ≤ i ∧ i < index.toNat + scalar.width) →
    (scalar.storeInPlace order bytes index value).2[i]? = bytes[i]?
  /-- It is storing into a list of bytes. -/
  storeIn_eq : scalar.storeInPlace order bytes index value
    = match scalar.storeIn order bytes index.toNat value with
      | .ok next => (.ok (), next)
      | .error e => (.error e, bytes)

theorem storedInPlace (scalar : Scalar) (order : ByteOrder) {bytes : List UInt8}
    (hbytes : bytes.length < 0x10000000000000000) (index : UInt64) (value : scalar.Value) :
    scalar.StoredInPlace order bytes index value := by
  have hplace := storeInPlace_eq scalar order hbytes index value
  have hlength := length_encode scalar order value
  by_cases hroom : index.toNat + scalar.width ≤ bytes.length
  · have hpatch : index.toNat + (scalar.encode order value).length ≤ bytes.length := by
      rw [hlength]
      exact hroom
    have hstored := hplace
    rw [storeIn_of_le hroom] at hstored
    refine ⟨?_, fun hfull => absurd hroom hfull, ?_, fun _ => ?_, fun i hout => ?_, hplace⟩
    · rw [hstored]
      exact ⟨fun _ => hroom, fun _ => rfl⟩
    · rw [hstored]
      exact length_patch hpatch
    · rw [hstored, ← hlength]
      exact take_drop_patch hpatch
    · rw [← hlength] at hout
      rw [hstored]
      exact (getElem?_patch hpatch i).trans (if_neg hout)
  · have hrefused := hplace
    rw [storeIn_of_lt (Nat.not_le.mp hroom)] at hrefused
    refine ⟨?_, fun _ => hrefused, ?_, fun hle => absurd hle hroom, fun i _ => ?_, hplace⟩
    · rw [hrefused]
      exact ⟨nofun, fun hle => absurd hle hroom⟩
    · rw [hrefused]
    · rw [hrefused]

end Scalar

/-! ### Moving within an allocation -/

namespace Heap

section moved
variable {heap : Heap} {handle : Handle} {n i : Nat}

/-- A handle moved on within its allocation stands for its address moved on. -/
theorem Valid.ofHandle_add (hv : heap.Valid) (hpos : 0 < handle.toInt)
    (h : heap.sizeAt handle.address = some n) (hlt : handle.address.inner + i < n) :
    (handle + Int64.ofNat i).toInt = handle.toInt + i ∧
      0 < (handle + Int64.ofNat i).toInt ∧
      (handle + Int64.ofNat i).address = handle.address.advance i := by
  have hroom := hv.place_add_le (Handle.address_fits hpos) h
    (by omega : handle.address.inner + (i + 1) ≤ n)
  rw [Handle.place_address] at hroom
  obtain ⟨hmoved, haddress⟩ := Address.ofHandle_add (Address.ofHandle_of_pos hpos)
    (by omega : handle.offset + i < 0x100000000)
  obtain ⟨hmoved_pos, heq⟩ := Address.ofHandle_eq_ok_iff.mp haddress
  exact ⟨hmoved, hmoved_pos, heq⟩

/-- Access at a handle moved on within its allocation is granted up to the end. -/
theorem Valid.checkRange_add_iff (hv : heap.Valid) (hpos : 0 < handle.toInt)
    (h : heap.sizeAt handle.address = some n) (hlt : handle.address.inner + i < n) (length : Nat) :
    heap.checkRange (handle + Int64.ofNat i) length = .ok () ↔
      handle.address.inner + i + length ≤ n := by
  obtain ⟨-, hmoved, haddress⟩ := hv.ofHandle_add hpos h hlt
  obtain ⟨hstart, hinner⟩ := start_advance h hlt
  have hsize : heap.sizeAt (handle.address.advance i) = some n := by
    rw [← sizeAt_start, hstart, sizeAt_start, h]
  rw [checkRange_eq_ok_iff, haddress, hsize, hinner]
  constructor
  · rintro ⟨-, m, hm, hle⟩
    cases hm
    exact hle
  · intro hle
    exact ⟨hmoved, n, rfl, hle⟩

end moved

end Heap

/-! ### Writing inside an allocation -/

namespace Session

variable {s : Session} {b : Allocation} {bytes : List UInt8}

theorem Holds.length_eq (h : s.Holds b bytes) : bytes.length = b.size :=
  Heap.length_of_read h.read_eq

/-- The bytes that an allocation holds are those at its addresses. -/
theorem Holds.getElem?_eq (h : s.Holds b bytes) {i : Nat} (hi : i < b.size) :
    bytes[i]? = some (s.heap.byteAt (b.base.address.advance i)) := by
  have hread := h.read_eq
  rw [Heap.read_eq, Heap.checkRange_of_sizeOf h.sizeOf_eq (Nat.le_refl _)] at hread
  rw [← Except.ok.inj hread, List.getElem?_map, List.getElem?_range hi]
  rfl

/-- **A write inside an allocation** patches what it holds. -/
theorem Sound.holds_patch (hs : s.Sound) (h : s.Holds b bytes) {i : Nat} {patch : List UInt8}
    (hroom : i + patch.length ≤ bytes.length) {next : Heap}
    (hw : Heap.Written s.heap (b.base.address.advance i) patch next) :
    Holds ⟨next, s.live⟩ b (bytes.take i ++ patch ++ bytes.drop (i + patch.length)) := by
  have hsize : next.sizeOf b.base = .ok b.size := hw.sizeOf_eq_ok_iff.mpr h.sizeOf_eq
  refine (hs.written hw).holds_of_bytes hsize ((length_patch hroom).trans h.length_eq)
    fun j hj => ?_
  have hfits := hs.valid.fits_advance_base h.sizeOf_eq hj
  show next.byteAt _ = _
  rw [hw.byteAt_eq _ hfits, getElem?_patch hroom, Address.number_advance, Address.number_advance]
  by_cases hin : i ≤ j ∧ j < i + patch.length
  · have hoffset : b.base.address.number + j - (b.base.address.number + i) = j - i := by omega
    obtain ⟨hlow, hhigh⟩ := hin
    rw [if_pos ⟨by omega, by omega⟩, if_pos ⟨hlow, hhigh⟩, hoffset]
  · rw [if_neg (by omega), if_neg hin, h.getElem?_eq hj]
    rfl

section store
variable (hs : s.Sound) (h : s.Holds b bytes) {scalar : Scalar} (order : ByteOrder) {i : Nat}
  (value : scalar.Value)
include hs h

theorem Sound.checkRange_of_holds (hi : i < bytes.length) (length : Nat) :
    s.heap.checkRange (b.base + Int64.ofNat i) length = .ok () ↔ i + length ≤ bytes.length := by
  obtain ⟨hpos, hinner, hsize⟩ := Heap.sizeOf_eq_ok_iff.mp h.sizeOf_eq
  rw [h.length_eq] at hi ⊢
  rw [hs.valid.checkRange_add_iff hpos hsize (by omega), hinner, Nat.zero_add]

/-- Where there is room for a value, it patches what the allocation holds. -/
theorem Sound.store_of_le (hi : i < bytes.length) (hroom : i + scalar.width ≤ bytes.length) :
    (s.heap.call (.store scalar order (b.base + Int64.ofNat i) value)).1 = .ok none ∧
      (s.next (.store scalar order (b.base + Int64.ofNat i) value)).Holds b
        (bytes.take i ++ scalar.encode order value
          ++ bytes.drop (i + (scalar.encode order value).length)) := by
  have hlength := scalar.length_encode order value
  obtain ⟨hpos, hinner, hsize⟩ := Heap.sizeOf_eq_ok_iff.mp h.sizeOf_eq
  have hlt : b.base.address.inner + i < b.size := by
    rw [hinner, ← h.length_eq]
    omega
  have haddress := (hs.valid.ofHandle_add hpos hsize hlt).2.2
  obtain ⟨next, hwrite, hw⟩ := hs.valid.exists_write
    ((hs.checkRange_of_holds h hi (scalar.encode order value).length).mpr (by omega))
  rw [haddress] at hw
  have hcall : s.heap.call (.store scalar order (b.base + Int64.ofNat i) value)
      = (.ok none, next) := congrArg s.heap.settle hwrite
  have hnext : s.next (.store scalar order (b.base + Int64.ofNat i) value) = ⟨next, s.live⟩ := by
    unfold Session.next
    rw [hcall]
    rfl
  refine ⟨congrArg Prod.fst hcall, ?_⟩
  rw [hnext]
  exact hs.holds_patch h (by omega) hw

/-- Where there is none, it is refused. -/
theorem Sound.store_of_lt (hi : i < bytes.length) (hroom : bytes.length < i + scalar.width) :
    (s.heap.call (.store scalar order (b.base + Int64.ofNat i) value)).1 ≠ .ok none := by
  have hlength := scalar.length_encode order value
  rcases hcheck : s.heap.checkRange (b.base + Int64.ofNat i) (scalar.encode order value).length
    with e | ⟨⟩
  · have hcall : s.heap.call (.store scalar order (b.base + Int64.ofNat i) value)
        = (.error e, s.heap) := congrArg s.heap.settle (Heap.write_eq_error hcheck)
    rw [hcall]
    exact nofun
  · have hle := (hs.checkRange_of_holds h hi _).mp hcheck
    omega

end store

/-- **A value goes into a byte array as into an allocation.**  Indices and lengths of arrays are
words.  At any index the value is put into the array exactly if it ends within, and else the array
stays as it is.  After any calls, and at any index of the bytes that an allocation holds, a store of
the value in the allocation succeeds exactly if putting it into these bytes does, and what that
leaves is held afterwards. -/
theorem storeIn_after {settings : Settings} (h : settings.validate = .ok ()) (calls : List Call)
    (scalar : Scalar) (order : ByteOrder) (value : scalar.Value) :
    (∀ bytes : List UInt8, bytes.length < 0x10000000000000000 → ∀ index,
        scalar.StoredInPlace order bytes index value) ∧
      ∀ b bytes, (after settings calls).Holds b bytes → ∀ i < bytes.length,
        ((∃ next, scalar.storeIn order bytes i value = .ok next) ↔
          ((after settings calls).heap.call
            (.store scalar order (b.base + Int64.ofNat i) value)).1 = .ok none) ∧
        ∀ next, scalar.storeIn order bytes i value = .ok next →
          ((after settings calls).next
            (.store scalar order (b.base + Int64.ofNat i) value)).Holds b next := by
  have hs := sound_after h calls
  refine ⟨fun bytes hbytes index => Scalar.storedInPlace scalar order hbytes index value,
    fun b bytes hholds i hi => ?_⟩
  rcases Nat.lt_or_ge bytes.length (i + scalar.width) with hfull | hroom
  · rw [Scalar.storeIn_of_lt hfull]
    refine ⟨⟨nofun, fun hok => ?_⟩, nofun⟩
    exact absurd hok (hs.store_of_lt hholds order value hi hfull)
  · obtain ⟨hok, hnext⟩ := hs.store_of_le hholds order value hi hroom
    rw [Scalar.storeIn_of_le hroom]
    refine ⟨⟨fun _ => hok, fun _ => ⟨_, rfl⟩⟩, fun next heq => ?_⟩
    rw [← Except.ok.inj heq]
    exact hnext

/-- An integer at the last four bytes of the second chunk of a slab. -/
theorem storeIn_after_paired :
    ((after {} paired).next
        (.store .int .big (.ofSlot 15 0 1 + Int64.ofNat 12) 0x01020304)).Holds
      ⟨.ofSlot 15 0 1, 16⟩ [0, 0, 0, 0, 0, 0, 0, 0, 0, 0, 0, 0, 1, 2, 3, 4] := by
  have hholds : (after {} paired).Holds ⟨.ofSlot 15 0 1, 16⟩ (List.replicate 16 0) :=
    ⟨by decide +kernel, by decide +kernel, by decide +kernel⟩
  obtain ⟨-, hagree⟩ := @storeIn_after {} rfl paired .int .big 0x01020304
  exact (hagree _ _ hholds 12 (by decide)).2 _ rfl

end Session

end HandleHeap
