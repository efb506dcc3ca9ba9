import HandleHeap.Proofs.Memory

/-!
# Allocations by handle

A live allocation is known by the handle that it starts at, for which the heap answers its size.
Here is what the calls of a heap do to these sizes, and what the handles in between mean.

* `Heap.Written.sizeOf_eq_ok_iff`, `Heap.Allocated.sizeOf_eq_ok_iff`,
  `Heap.Freed.sizeOf_eq_ok_iff`: a write keeps every size, an allocation adds one, a release takes
  one away;
* `Heap.Valid.address_of_mem`, `Heap.exists_base`: a handle in the range of an allocation
  stands for an address in it, and every address in memory is in such a range;
* `Heap.Valid.reallocate_cases`: a reallocation is an allocation, a write of the bytes that fit, and
  a release, or it changes nothing.
-/

namespace HandleHeap

namespace Heap

/-! ### Sizes by handle -/

section sizes
variable {heap next : Heap} {handle other : Handle} {n m : Nat}

theorem Written.sizeOf_eq_ok_iff {a : Address} {bytes : List UInt8}
    (h : Written heap a bytes next) :
    next.sizeOf handle = .ok n ↔ heap.sizeOf handle = .ok n := by
  rw [Heap.sizeOf_eq_ok_iff, Heap.sizeOf_eq_ok_iff, h.sizeAt_eq]

theorem Allocated.sizeOf_eq_ok_iff (hpos : 0 < handle.toInt)
    (h : Allocated heap n handle.address next) :
    next.sizeOf other = .ok m ↔ other = handle ∧ m = n ∨ heap.sizeOf other = .ok m := by
  rw [Heap.sizeOf_eq_ok_iff, Heap.sizeOf_eq_ok_iff, h.sizeAt_eq]
  constructor
  · rintro ⟨hother, hinner, hsize⟩
    rw [Address.start_eq_self_iff.mpr hinner] at hsize
    split at hsize
    · next heq =>
      exact Or.inl ⟨Handle.eq_of_address_eq hother hpos heq, (Option.some.inj hsize).symm⟩
    · exact Or.inr ⟨hother, hinner, hsize⟩
  · rintro (⟨rfl, rfl⟩ | ⟨hother, hinner, hsize⟩)
    · exact ⟨hpos, h.inner_eq, if_pos (Address.start_eq_self_iff.mpr h.inner_eq)⟩
    · refine ⟨hother, hinner, ?_⟩
      rw [Address.start_eq_self_iff.mpr hinner, if_neg, hsize]
      intro heq
      rw [heq, h.free] at hsize
      cases hsize

theorem Allocated.sizeOf_eq_ok (hpos : 0 < handle.toInt)
    (h : Allocated heap n handle.address next) : next.sizeOf handle = .ok n :=
  (h.sizeOf_eq_ok_iff hpos).mpr (Or.inl ⟨rfl, rfl⟩)

theorem Freed.sizeOf_eq_ok_iff (hpos : 0 < handle.toInt) (h : Freed heap handle.address next) :
    next.sizeOf other = .ok m ↔ other ≠ handle ∧ heap.sizeOf other = .ok m := by
  rw [Heap.sizeOf_eq_ok_iff, Heap.sizeOf_eq_ok_iff, h.sizeAt_eq]
  constructor
  · rintro ⟨hother, hinner, hsize⟩
    rw [Address.start_eq_self_iff.mpr hinner] at hsize
    split at hsize
    · cases hsize
    · next hne => exact ⟨fun heq => hne (congrArg Handle.address heq), hother, hinner, hsize⟩
  · rintro ⟨hne, hother, hinner, hsize⟩
    refine ⟨hother, hinner, ?_⟩
    rw [Address.start_eq_self_iff.mpr hinner, if_neg, hsize]
    exact fun heq => hne (Handle.eq_of_address_eq hother hpos heq)

theorem pos_of_sizeOf (h : heap.sizeOf handle = .ok n) : 0 < handle.toInt :=
  (Heap.sizeOf_eq_ok_iff.mp h).1

theorem ne_null_of_sizeOf (h : heap.sizeOf handle = .ok n) : handle ≠ Handle.null :=
  Handle.ne_null_of_pos (pos_of_sizeOf h)

/-- What was live before an allocation has another handle. -/
theorem Allocated.ne_of_sizeOf (h : Allocated heap n handle.address next)
    (hother : heap.sizeOf other = .ok m) : other ≠ handle := by
  rintro rfl
  have hsize := (Heap.sizeOf_eq_ok_iff.mp hother).2.2
  rw [h.free] at hsize
  cases hsize

/-- Access is granted from the start of an allocation to as many bytes as it has. -/
theorem checkRange_of_sizeOf (h : heap.sizeOf handle = .ok n) (hle : m ≤ n) :
    heap.checkRange handle m = .ok () := by
  obtain ⟨hpos, hinner, hsize⟩ := Heap.sizeOf_eq_ok_iff.mp h
  rw [checkRange_eq_ok_iff]
  exact ⟨hpos, n, hsize, by omega⟩

end sizes

/-! ### Ranges -/

section ranges
variable {heap : Heap} {base handle : Handle} {n : Nat}

/-- An allocation ends before the handles do. -/
theorem Valid.base_add_le (hv : heap.Valid) (h : heap.sizeOf base = .ok n) :
    base.toInt + n ≤ 0x8000000000000000 := by
  obtain ⟨hpos, hinner, hsize⟩ := Heap.sizeOf_eq_ok_iff.mp h
  have hfits := Handle.address_fits hpos
  have hroom := hv.place_add_size_le hfits hsize
  rw [Address.start_eq_self_iff.mpr hinner] at hroom
  have hle := Address.number_add_le hfits hroom
  have hnumber := Handle.number_address hpos
  omega

/-- **The handles in the range of an allocation** stand for the addresses that start where it
starts. -/
theorem Valid.address_of_mem (hv : heap.Valid) (h : heap.sizeOf base = .ok n)
    (hle : base.toInt ≤ handle.toInt) (hlt : handle.toInt < base.toInt + n) :
    0 < handle.toInt ∧ handle.address.start = base.address ∧
      handle.address.inner = handle.toInt - base.toInt ∧
      heap.sizeAt handle.address = some n := by
  obtain ⟨hpos, hinner, hsize⟩ := Heap.sizeOf_eq_ok_iff.mp h
  have hhandle : 0 < handle.toInt := by omega
  have hbase := Handle.number_address hpos
  have hnumber := Handle.number_address hhandle
  obtain ⟨hstart, hin⟩ := hv.start_eq_of_mem (Handle.address_fits hpos)
    (Handle.address_fits hhandle) hsize hinner (by omega) (by omega)
  refine ⟨hhandle, hstart, by omega, ?_⟩
  rw [← sizeAt_start, hstart, hsize]

/-- Within an allocation an advance from its base keeps the start. -/
theorem start_advance_base (h : heap.sizeOf base = .ok n) {i : Nat} (hi : i < n) :
    (base.address.advance i).start = base.address := by
  obtain ⟨-, hinner, hsize⟩ := Heap.sizeOf_eq_ok_iff.mp h
  have hlt : base.address.inner + i < n := by omega
  rw [(start_advance hsize hlt).1, Address.start_eq_self_iff.mpr hinner]

theorem Valid.fits_advance_base (hv : heap.Valid) (h : heap.sizeOf base = .ok n) {i : Nat}
    (hi : i < n) : (base.address.advance i).Fits := by
  obtain ⟨hpos, hinner, hsize⟩ := Heap.sizeOf_eq_ok_iff.mp h
  have hfits := Handle.address_fits hpos
  have hroom := hv.place_add_le hfits hsize (by omega : base.address.inner + (i + 1) ≤ n)
  exact Address.fits_advance hfits (by omega)

/-- The byte at a handle in the range of an allocation can be read. -/
theorem Valid.read_of_mem (hv : heap.Valid) (h : heap.sizeOf base = .ok n)
    (hle : base.toInt ≤ handle.toInt) (hlt : handle.toInt < base.toInt + n) :
    heap.read handle 1 = .ok [heap.byteAt handle.address] := by
  obtain ⟨hpos, -, hinner, hsize⟩ := hv.address_of_mem h hle hlt
  have hcheck : heap.checkRange handle 1 = .ok () :=
    checkRange_eq_ok_iff.mpr ⟨hpos, n, hsize, by omega⟩
  rw [read_eq, hcheck]
  simp [Except.map]

/-- The memory that a handle points into starts at a handle. -/
theorem exists_base (hpos : 0 < handle.toInt)
    (h : heap.sizeAt handle.address = some n) : ∃ base : Handle,
    base.address = handle.address.start ∧ heap.sizeOf base = .ok n ∧
      handle.toInt = base.toInt + handle.address.inner := by
  have hfits := Address.fits_start (Handle.address_fits hpos)
  have hlive : heap.sizeAt handle.address.start = some n := by rw [sizeAt_start, h]
  have hword := Handle.toInt_ofWord (Address.number_lt hfits)
  have hbase : 0 < (Handle.ofWord handle.address.start.number).toInt := by
    rw [hword]
    exact Int.natCast_pos.mpr (number_pos hlive)
  have haddress := Handle.address_eq hbase hfits hword.symm
  have hnumber := Handle.number_address hpos
  have hsplit := handle.address.number_start
  refine ⟨_, haddress, Heap.sizeOf_eq_ok_iff.mpr ⟨hbase, ?_, by rw [haddress, hlive]⟩, by omega⟩
  rw [haddress, ← Address.start_eq_self_iff, Address.start_start]

end ranges

/-! ### Reallocation -/

/-- What a reallocation that moves an allocation does on its way: the new allocation is made first,
the bytes that both have room for are written to it, and the old one is given up. -/
def Moved (heap : Heap) (source : Handle) (size : Int) (kept : Nat) (target : Handle)
    (next : Heap) : Prop :=
  ∃ grown filled, heap.allocate size = (.ok target, grown) ∧ 0 < target.toInt ∧
    Allocated heap size.toNat target.address grown ∧
    Written grown target.address
      ((List.range kept).map fun i => grown.byteAt (source.address.advance i)) filled ∧
    Freed filled source.address next

/-- **Reallocation** of the null handle is allocation, to no bytes it is release, and otherwise it
moves the allocation, or changes nothing as there is none or no room for the new one. -/
theorem Valid.reallocate_cases {heap : Heap} (hv : heap.Valid) (handle : Handle) (size : Int) :
    handle = Handle.null ∧ heap.reallocate handle size = heap.allocate size ∨
      (∃ oldSize next, heap.sizeOf handle = .ok oldSize ∧ size = 0 ∧
        heap.reallocate handle size = (.ok Handle.null, next) ∧ Freed heap handle.address next) ∨
      (∃ oldSize target next, heap.sizeOf handle = .ok oldSize ∧ 1 ≤ size ∧
        heap.reallocate handle size = (.ok target, next) ∧
        Moved heap handle size (min oldSize size.toNat) target next) ∨
      ∃ e, heap.reallocate handle size = (.error e, heap) ∧
        (heap.sizeOf handle = .error e ∨ heap.allocate size = (.error e, heap)) := by
  by_cases hnull : handle = Handle.null
  · exact Or.inl ⟨hnull, if_pos hnull⟩
  right
  unfold reallocate
  rw [if_neg hnull]
  rcases hold : heap.sizeOf handle with e | oldSize
  · exact Or.inr (Or.inr ⟨e, rfl, Or.inl rfl⟩)
  simp only
  rcases hv.allocate_cases size with
    ⟨hzero, hcall⟩ | ⟨target, grown, hcall, hlow, hpos, ha⟩ | ⟨e, hcall⟩
  · left
    obtain ⟨next, hfree, hfreed⟩ := hv.exists_free hold
    refine ⟨oldSize, next, rfl, hzero, ?_, hfreed⟩
    rw [hcall]
    simp only [if_true, hfree]
  · right; left
    -- the new allocation lies elsewhere, so the old one can still be read, and given up in the end
    have hkept : grown.sizeOf handle = .ok oldSize :=
      (ha.sizeOf_eq_ok_iff hpos).mpr (Or.inr hold)
    have hnew : grown.sizeOf target = .ok size.toNat := ha.sizeOf_eq_ok hpos
    have hread := read_eq grown handle (min oldSize size.toNat)
    rw [checkRange_of_sizeOf hkept (Nat.min_le_left _ _)] at hread
    have hroom : ((List.range (min oldSize size.toNat)).map fun i =>
        grown.byteAt (handle.address.advance i)).length ≤ size.toNat := by
      rw [List.length_map, List.length_range]
      exact Nat.min_le_right _ _
    obtain ⟨filled, hwrite, hw⟩ := ha.valid.exists_write (checkRange_of_sizeOf hnew hroom)
    obtain ⟨next, hfree, hfreed⟩ :=
      hw.valid.exists_free (hw.sizeOf_eq_ok_iff.mpr hkept)
    refine ⟨oldSize, target, next, rfl, hlow, ?_, ⟨grown, filled, hcall, hpos, ha, hw, hfreed⟩⟩
    have htarget : target ≠ Handle.null := Handle.ne_null_of_pos hpos
    rw [hcall]
    simp only [if_neg htarget, move, hread, Except.map, bind, Except.bind, hwrite, hfree]
  · right; right
    exact ⟨e, by rw [hcall], Or.inr hcall⟩

end Heap

end HandleHeap
