import HandleHeap.SizeClass
import HandleHeap.Proofs.Slabs

/-!
# Size classes

The counters of a size class agree with the flags of its slabs, and so allocation and release do to
the chain what they do to one slot.

* `SizeClass.Valid`: slabs and counters have one length, every slab is valid, and every counter is
  the number of flags set in its slab;
* `SizeClass.isUsed`, `SizeClass.byteAt`: the flags and bytes of the whole chain;
* `SizeClass.Taken`, `SizeClass.Valid.allocate_taken`: where an allocation takes its slot;
* `SizeClass.Valid.allocate_cases`: allocation either takes one free slot or, when the chain is full
  and may not become longer, changes nothing;
* `SizeClass.Valid.written`: a write inside a slot in use changes the bytes that it covers and
  nothing that is kept about slots;
* `SizeClass.Valid.free_cases`: release gives back one slot in use and clears its bytes, or finds
  the slot free.  The clearing of a whole slab with its last slot is not seen: all of it is zero
  already.
-/

namespace HandleHeap.SizeClass

/-- Whether a slot of the chain is in use. -/
def isUsed (sizeClass : SizeClass) (position slot : Nat) : Bool :=
  (sizeClass.slab? position).any (·.isUsed slot)

/-- The byte of a slab, zero where the chain has no slab. -/
def byteAt (sizeClass : SizeClass) (position p : Nat) : UInt8 :=
  ((sizeClass.slab? position).map (·.buffer.get p)).getD 0

/-- The slab at a position, or the one that is made when the position is first used. -/
def slabOrFresh (sizeClass : SizeClass) (position : Nat) : Slab :=
  (sizeClass.slab? position).getD (Slab.fresh sizeClass.chunkSize sizeClass.slotCount)

/-- The number of flags set in a slab, zero where the chain has no slab. -/
def usedAt (sizeClass : SizeClass) (position : Nat) : Nat :=
  ((sizeClass.slab? position).map (·.usedCount)).getD 0

/-- The counters, and for each position the flags of its slab: all that is kept about slots. -/
def occupancy (sizeClass : SizeClass) : Array UInt8 × Array (Option (Array Bool)) :=
  (sizeClass.counters, sizeClass.slabs.map (Option.map Slab.used))

/-- **The invariant of a size class.** -/
structure Valid (sizeClass : SizeClass) : Prop where
  chunkSize_pos : 0 < sizeClass.chunkSize
  slotCount_pos : 0 < sizeClass.slotCount
  slotCount_le : sizeClass.slotCount ≤ 127
  size_counters : sizeClass.counters.size = sizeClass.slabs.size
  slab_valid : ∀ position slab, sizeClass.slab? position = some slab →
    slab.Valid sizeClass.chunkSize sizeClass.slotCount
  liveAt_eq : ∀ position, sizeClass.liveAt position = sizeClass.usedAt position

/-- The chain with another slab at one position, whose counter tells the slab's flags. -/
structure Replaced (sizeClass : SizeClass) (position : Nat) (slab : Slab) (next : SizeClass) :
    Prop where
  chunkSize_eq : next.chunkSize = sizeClass.chunkSize
  slotCount_eq : next.slotCount = sizeClass.slotCount
  size_slabs : next.slabs.size = sizeClass.slabs.size
  size_counters : next.counters.size = sizeClass.counters.size
  slab?_eq : ∀ i, next.slab? i = if i = position then some slab else sizeClass.slab? i
  liveAt_eq : ∀ i, next.liveAt i = if i = position then slab.usedCount else sizeClass.liveAt i

/-- What a successful allocation changes: one flag, and the length when the chain was full. -/
structure Allocated (sizeClass : SizeClass) (increment bound position slot : Nat)
    (next : SizeClass) : Prop where
  valid : next.Valid
  chunkSize_eq : next.chunkSize = sizeClass.chunkSize
  slotCount_eq : next.slotCount = sizeClass.slotCount
  length_eq : next.length = sizeClass.length ∨
    sizeClass.firstOpen? = none ∧ next.length = sizeClass.length + increment ∧ next.length ≤ bound
  position_lt : position < next.length
  slot_lt : slot < sizeClass.slotCount
  free : sizeClass.isUsed position slot = false
  isUsed_eq : ∀ i j, next.isUsed i j =
    if i = position ∧ j = slot then true else sizeClass.isUsed i j
  byteAt_eq : ∀ i p, next.byteAt i p = sizeClass.byteAt i p

/-- What a release changes: one flag and the bytes of its slot. -/
structure Freed (sizeClass : SizeClass) (position slot : Nat) (next : SizeClass) : Prop where
  valid : next.Valid
  chunkSize_eq : next.chunkSize = sizeClass.chunkSize
  slotCount_eq : next.slotCount = sizeClass.slotCount
  length_eq : next.length = sizeClass.length
  isUsed_eq : ∀ i j, next.isUsed i j =
    if i = position ∧ j = slot then false else sizeClass.isUsed i j
  byteAt_eq : ∀ i p, next.byteAt i p =
    if i = position ∧ p / sizeClass.chunkSize = slot then 0 else sizeClass.byteAt i p

/-- What a write inside one slot changes: the bytes that it covers. -/
structure Written (sizeClass : SizeClass) (position start : Nat) (bytes : List UInt8)
    (next : SizeClass) : Prop where
  valid : next.Valid
  chunkSize_eq : next.chunkSize = sizeClass.chunkSize
  slotCount_eq : next.slotCount = sizeClass.slotCount
  length_eq : next.length = sizeClass.length
  occupancy_eq : next.occupancy = sizeClass.occupancy
  isUsed_eq : ∀ i j, next.isUsed i j = sizeClass.isUsed i j
  byteAt_eq : ∀ i p, next.byteAt i p =
    if i = position ∧ start ≤ p ∧ p < start + bytes.length then bytes[p - start]?.getD 0
    else sizeClass.byteAt i p

/-! ### Slabs and counters by position -/

theorem slab?_eq_some_iff {sizeClass : SizeClass} {position : Nat} {slab : Slab} :
    sizeClass.slab? position = some slab ↔ sizeClass.slabs[position]? = some (some slab) :=
  Option.join_eq_some_iff

theorem lt_of_slab? {sizeClass : SizeClass} {position : Nat} {slab : Slab}
    (h : sizeClass.slab? position = some slab) : position < sizeClass.length :=
  (Array.getElem?_eq_some_iff.mp (slab?_eq_some_iff.mp h)).1

theorem Valid.lt_size_counters {sizeClass : SizeClass} (hv : sizeClass.Valid) {position : Nat}
    (h : position < sizeClass.length) : position < sizeClass.counters.size :=
  Nat.lt_of_lt_of_eq h hv.size_counters.symm

theorem slab?_setSlab (sizeClass : SizeClass) {position : Nat} (h : position < sizeClass.length)
    (slab : Slab) (i : Nat) :
    (sizeClass.setSlab position slab).slab? i =
      if i = position then some slab else sizeClass.slab? i := by
  unfold length at h
  simp only [slab?, setSlab, Array.getElem?_setIfInBounds]
  by_cases heq : position = i
  · rw [if_pos heq, if_pos h, if_pos heq.symm]
    rfl
  · rw [if_neg heq, if_neg (fun hc => heq hc.symm)]

theorem liveAt_setCounter (sizeClass : SizeClass) {position : Nat}
    (h : position < sizeClass.counters.size) (counter : UInt8) (i : Nat) :
    (sizeClass.setCounter position counter).liveAt i =
      if i = position then counter.toNat else sizeClass.liveAt i := by
  simp only [liveAt, setCounter, Array.getElem?_setIfInBounds]
  by_cases heq : position = i
  · rw [if_pos heq, if_pos h, if_pos heq.symm]
    rfl
  · rw [if_neg heq, if_neg (fun hc => heq hc.symm)]

theorem Replaced.of_setCounter {sizeClass : SizeClass} (hv : sizeClass.Valid) {position : Nat}
    (h : position < sizeClass.length) {slab : Slab} {counter : UInt8}
    (hcounter : counter.toNat = slab.usedCount) :
    Replaced sizeClass position slab
      ((sizeClass.setSlab position slab).setCounter position counter) := by
  refine ⟨rfl, rfl, Array.size_setIfInBounds, Array.size_setIfInBounds, fun i => ?_, fun i => ?_⟩
  · exact slab?_setSlab sizeClass h slab i
  · rw [liveAt_setCounter (sizeClass.setSlab position slab) (hv.lt_size_counters h), hcounter]
    rfl

theorem Replaced.of_setSlab {sizeClass : SizeClass} {position : Nat}
    (h : position < sizeClass.length) {slab : Slab}
    (hlive : sizeClass.liveAt position = slab.usedCount) :
    Replaced sizeClass position slab (sizeClass.setSlab position slab) := by
  refine ⟨rfl, rfl, Array.size_setIfInBounds, rfl, slab?_setSlab sizeClass h slab, fun i => ?_⟩
  change sizeClass.liveAt i = _
  by_cases heq : i = position
  · rw [if_pos heq, heq, hlive]
  · rw [if_neg heq]

section Replaced
variable {sizeClass next : SizeClass} {position : Nat} {slab : Slab}
  (h : Replaced sizeClass position slab next)
include h

theorem Replaced.isUsed_eq (i j : Nat) :
    next.isUsed i j = if i = position then slab.isUsed j else sizeClass.isUsed i j := by
  unfold isUsed
  rw [h.slab?_eq]
  split <;> rfl

theorem Replaced.byteAt_eq (i p : Nat) :
    next.byteAt i p = if i = position then slab.buffer.get p else sizeClass.byteAt i p := by
  unfold byteAt
  rw [h.slab?_eq]
  split <;> rfl

theorem Replaced.valid (hv : sizeClass.Valid)
    (hslab : slab.Valid sizeClass.chunkSize sizeClass.slotCount) : next.Valid := by
  refine ⟨?_, ?_, ?_, ?_, fun i found hfound => ?_, fun i => ?_⟩
  · rw [h.chunkSize_eq]; exact hv.chunkSize_pos
  · rw [h.slotCount_eq]; exact hv.slotCount_pos
  · rw [h.slotCount_eq]; exact hv.slotCount_le
  · rw [h.size_counters, h.size_slabs]; exact hv.size_counters
  · rw [h.chunkSize_eq, h.slotCount_eq]
    rw [h.slab?_eq] at hfound
    split at hfound
    · cases hfound; exact hslab
    · exact hv.slab_valid i found hfound
  · unfold usedAt
    rw [h.liveAt_eq, h.slab?_eq]
    split
    · rfl
    · exact hv.liveAt_eq i

end Replaced

/-! ### Longer chains -/

/-- New positions have no slab and no slot in use. -/
theorem slab?_append (sizeClass : SizeClass) (increment i : Nat) :
    ({ sizeClass with
        slabs := sizeClass.slabs ++ Array.replicate increment none
        counters := sizeClass.counters ++ Array.replicate increment 0 } : SizeClass).slab? i
      = sizeClass.slab? i := by
  simp only [slab?, Array.getElem?_append, Array.getElem?_replicate]
  split
  · rfl
  · next hge =>
    rw [Array.getElem?_eq_none (by omega : sizeClass.slabs.size ≤ i)]
    split <;> rfl

theorem liveAt_append (sizeClass : SizeClass) (increment i : Nat) :
    ({ sizeClass with
        slabs := sizeClass.slabs ++ Array.replicate increment none
        counters := sizeClass.counters ++ Array.replicate increment 0 } : SizeClass).liveAt i
      = sizeClass.liveAt i := by
  simp only [liveAt, Array.getElem?_append, Array.getElem?_replicate]
  split
  · rfl
  · next hge =>
    rw [Array.getElem?_eq_none (by omega : sizeClass.counters.size ≤ i)]
    split <;> rfl

/-- What a longer chain has in common with the one it came from. -/
structure Extended (sizeClass : SizeClass) (increment : Nat) (next : SizeClass) : Prop where
  valid : next.Valid
  chunkSize_eq : next.chunkSize = sizeClass.chunkSize
  slotCount_eq : next.slotCount = sizeClass.slotCount
  length_eq : next.length = sizeClass.length + increment
  slab?_eq : ∀ i, next.slab? i = sizeClass.slab? i

theorem Valid.extend_cases {sizeClass : SizeClass} (hv : sizeClass.Valid)
    (increment bound : Nat) :
    (sizeClass.length + increment ≤ bound ∧ ∃ next,
        sizeClass.extend increment bound = .ok next ∧ Extended sizeClass increment next) ∨
      (bound < sizeClass.length + increment ∧
        sizeClass.extend increment bound = .error (.chainFull sizeClass.chunkSize bound)) := by
  unfold extend
  by_cases hbound : bound < sizeClass.length + increment
  · right
    exact ⟨hbound, if_pos hbound⟩
  · left
    refine ⟨by omega, _, if_neg hbound, ?_, rfl, rfl, ?_, slab?_append sizeClass increment⟩
    · refine ⟨hv.chunkSize_pos, hv.slotCount_pos, hv.slotCount_le, ?_, fun i slab h => ?_,
        fun i => ?_⟩
      · simp only [Array.size_append, Array.size_replicate, hv.size_counters]
      · rw [slab?_append] at h
        exact hv.slab_valid i slab h
      · unfold usedAt
        rw [slab?_append, liveAt_append]
        exact hv.liveAt_eq i
    · simp only [length, Array.size_append, Array.size_replicate]

/-! ### Allocation -/

section Valid
variable {sizeClass : SizeClass} (hv : sizeClass.Valid)
include hv

theorem Valid.slabOrFresh_valid (position : Nat) :
    (sizeClass.slabOrFresh position).Valid sizeClass.chunkSize sizeClass.slotCount := by
  unfold slabOrFresh
  rcases hslab : sizeClass.slab? position with _ | slab
  · exact Slab.valid_fresh _ _
  · exact hv.slab_valid position slab hslab

theorem Valid.usedCount_slabOrFresh (position : Nat) :
    (sizeClass.slabOrFresh position).usedCount = sizeClass.liveAt position := by
  rw [hv.liveAt_eq]
  unfold slabOrFresh usedAt
  rcases sizeClass.slab? position with _ | slab
  · exact Slab.usedCount_fresh _ _
  · rfl

theorem Valid.liveAt_le (position : Nat) : sizeClass.liveAt position ≤ sizeClass.slotCount := by
  have hsize := (hv.slabOrFresh_valid position).size_used
  have hle := Slab.usedCount_le (sizeClass.slabOrFresh position)
  rw [hv.usedCount_slabOrFresh, hsize] at hle
  exact hle

/-- A position whose counter leaves room has a free slot. -/
theorem Valid.exists_claimAt {position : Nat} (hlt : position < sizeClass.length)
    (hroom : sizeClass.liveAt position < sizeClass.slotCount) :
    ∃ slot slab next, sizeClass.claimAt position = (.ok slot, next) ∧
      Slab.Claimed (sizeClass.slabOrFresh position) slot slab ∧
      Replaced sizeClass position slab next := by
  have hsize := (hv.slabOrFresh_valid position).size_used
  have hcount := hv.usedCount_slabOrFresh position
  obtain ⟨slot, slab, hclaim, hclaimed⟩ := Slab.exists_claim
    (by rw [hsize, hcount]; exact hroom)
  unfold slabOrFresh at hclaim
  have hcounter : (sizeClass.counters[position]?.getD 0 + 1).toNat = slab.usedCount := by
    -- a counter counts at most 127 slots, so a byte has room for one more
    have hle := hv.slotCount_le
    rw [hclaimed.usedCount_eq, hcount, UInt8.toNat_add]
    unfold liveAt at hroom ⊢
    exact Nat.mod_eq_of_lt (by change _ + 1 < 256; omega)
  refine ⟨slot, slab, (sizeClass.setSlab position slab).setCounter position
    (sizeClass.counters[position]?.getD 0 + 1), ?_, hclaimed,
    Replaced.of_setCounter hv hlt hcounter⟩
  unfold claimAt
  simp only [hclaim]

end Valid

@[simp] theorem isUsed_slabOrFresh (sizeClass : SizeClass) (position slot : Nat) :
    (sizeClass.slabOrFresh position).isUsed slot = sizeClass.isUsed position slot := by
  unfold slabOrFresh isUsed
  rcases sizeClass.slab? position with _ | slab
  · exact Slab.isUsed_fresh _ _ slot
  · rfl

@[simp] theorem get_slabOrFresh (sizeClass : SizeClass) (position p : Nat) :
    (sizeClass.slabOrFresh position).buffer.get p = sizeClass.byteAt position p := by
  unfold slabOrFresh byteAt
  rcases sizeClass.slab? position with _ | slab
  · exact Buffer.get_zeroed _ p
  · rfl

/-- Taking a slot of one slab takes one slot of the chain. -/
theorem Valid.allocated {sizeClass next : SizeClass} (hv : sizeClass.Valid)
    {increment bound position slot : Nat} {slab : Slab} (hlt : position < sizeClass.length)
    (hclaimed : Slab.Claimed (sizeClass.slabOrFresh position) slot slab)
    (hreplaced : Replaced sizeClass position slab next) :
    Allocated sizeClass increment bound position slot next := by
  have hslab := hv.slabOrFresh_valid position
  have hlength : next.length = sizeClass.length := hreplaced.size_slabs
  refine ⟨hreplaced.valid hv (hclaimed.valid hslab), hreplaced.chunkSize_eq,
    hreplaced.slotCount_eq, Or.inl hlength, ?_, ?_, ?_, fun i j => ?_, fun i p => ?_⟩
  · rw [hlength]; exact hlt
  · rw [← hslab.size_used]; exact hclaimed.lt
  · rw [← isUsed_slabOrFresh]; exact hclaimed.free
  · rw [hreplaced.isUsed_eq]
    by_cases hi : i = position
    · subst hi
      rw [if_pos rfl, hclaimed.isUsed_eq, isUsed_slabOrFresh]
      simp only [true_and]
    · rw [if_neg hi, if_neg (fun hc => hi hc.1)]
  · rw [hreplaced.byteAt_eq]
    by_cases hi : i = position
    · subst hi
      rw [if_pos rfl, hclaimed.buffer_eq, get_slabOrFresh]
    · rw [if_neg hi]

theorem Extended.isUsed_eq {sizeClass next : SizeClass} {increment : Nat}
    (h : Extended sizeClass increment next) (i j : Nat) :
    next.isUsed i j = sizeClass.isUsed i j := by
  unfold isUsed
  rw [h.slab?_eq]

theorem Extended.byteAt_eq {sizeClass next : SizeClass} {increment : Nat}
    (h : Extended sizeClass increment next) (i p : Nat) :
    next.byteAt i p = sizeClass.byteAt i p := by
  unfold byteAt
  rw [h.slab?_eq]

/-- The first position of the new ones is empty. -/
theorem Extended.liveAt_length {sizeClass next : SizeClass} {increment : Nat}
    (h : Extended sizeClass increment next) : next.liveAt sizeClass.length = 0 := by
  rw [h.valid.liveAt_eq]
  unfold usedAt
  rw [h.slab?_eq]
  unfold slab? length
  rw [Array.getElem?_eq_none (Nat.le_refl _)]
  rfl

theorem Extended.refl {sizeClass : SizeClass} (hv : sizeClass.Valid) :
    Extended sizeClass 0 sizeClass :=
  ⟨hv, rfl, rfl, rfl, fun _ => rfl⟩

/-- How an allocation takes its slot: a chain without room is made longer first, and then the slab
at the position gives its lowest free slot. -/
def Taken (sizeClass : SizeClass) (increment bound position slot : Nat) (next : SizeClass) : Prop :=
  ∃ added longer slab, Extended sizeClass added longer ∧ position < longer.length ∧
    (added = 0 ∧ sizeClass.firstOpen? = some position ∨
      added = increment ∧ sizeClass.firstOpen? = none ∧ position = sizeClass.length ∧
        longer.length ≤ bound) ∧
    Slab.Claimed (longer.slabOrFresh position) slot slab ∧ Replaced longer position slab next

/-- **Allocation takes the first slot with room**, in a chain that is made longer where it is full
and may become so. -/
theorem Valid.allocate_taken {sizeClass : SizeClass} (hv : sizeClass.Valid) {increment : Nat}
    (hpos : 0 < increment) (bound : Nat) :
    (∃ position slot next, sizeClass.allocate increment bound = (.ok (position, slot), next) ∧
        Taken sizeClass increment bound position slot next) ∨
      (sizeClass.allocate increment bound
          = (.error (.chainFull sizeClass.chunkSize bound), sizeClass) ∧
        sizeClass.firstOpen? = none ∧ bound < sizeClass.length + increment) := by
  unfold allocate
  rcases hopen : sizeClass.firstOpen? with _ | position
  · rcases hv.extend_cases increment bound with ⟨hle, longer, hext, hlonger⟩ | ⟨hbound, hext⟩
    · left
      have hlength := hlonger.length_eq
      have hlt : sizeClass.length < longer.length := by omega
      have hroom : longer.liveAt sizeClass.length < longer.slotCount := by
        rw [hlonger.liveAt_length]; exact hlonger.valid.slotCount_pos
      obtain ⟨slot, slab, next, hclaim, hclaimed, hreplaced⟩ :=
        hlonger.valid.exists_claimAt hlt hroom
      refine ⟨sizeClass.length, slot, next, ?_, increment, longer, slab, hlonger, hlt,
        Or.inr ⟨rfl, hopen, rfl, by omega⟩, hclaimed, hreplaced⟩
      simp only [hext, hclaim]
      rfl
    · right
      exact ⟨by simp only [hext], rfl, hbound⟩
  · left
    obtain ⟨hlt, hopen', -⟩ := Array.findIdx?_eq_some_iff_getElem.mp hopen
    have hroom : sizeClass.liveAt position < sizeClass.slotCount := by
      unfold liveAt
      rw [Array.getElem?_eq_getElem hlt]
      simpa using hopen'
    have hlt' : position < sizeClass.length := Nat.lt_of_lt_of_eq hlt hv.size_counters
    obtain ⟨slot, slab, next, hclaim, hclaimed, hreplaced⟩ := hv.exists_claimAt hlt' hroom
    refine ⟨position, slot, next, ?_, 0, sizeClass, slab, Extended.refl hv, hlt',
      Or.inl ⟨rfl, hopen⟩, hclaimed, hreplaced⟩
    simp only [hclaim]
    rfl

theorem Taken.allocated {sizeClass next : SizeClass} {increment bound position slot : Nat}
    (h : Taken sizeClass increment bound position slot next) :
    Allocated sizeClass increment bound position slot next := by
  obtain ⟨added, longer, slab, hlonger, hlt, hplace, hclaimed, hreplaced⟩ := h
  have ha : Allocated longer increment bound position slot next :=
    hlonger.valid.allocated hlt hclaimed hreplaced
  have hlength : next.length = sizeClass.length + added :=
    Eq.trans hreplaced.size_slabs hlonger.length_eq
  have hgrown : longer.length = sizeClass.length + added := hlonger.length_eq
  refine ⟨ha.valid, ?_, ?_, ?_, ha.position_lt, ?_, ?_, fun i j => ?_, fun i p => ?_⟩
  · rw [ha.chunkSize_eq, hlonger.chunkSize_eq]
  · rw [ha.slotCount_eq, hlonger.slotCount_eq]
  · rcases hplace with ⟨rfl, -⟩ | ⟨rfl, hopen, -, hle⟩
    · exact Or.inl hlength
    · exact Or.inr ⟨hopen, hlength, by omega⟩
  · rw [← hlonger.slotCount_eq]; exact ha.slot_lt
  · rw [← hlonger.isUsed_eq]; exact ha.free
  · rw [ha.isUsed_eq, hlonger.isUsed_eq]
  · rw [ha.byteAt_eq, hlonger.byteAt_eq]

/-- **Allocation takes a free slot, or leaves a full chain as it is.** -/
theorem Valid.allocate_cases {sizeClass : SizeClass} (hv : sizeClass.Valid) {increment : Nat}
    (hpos : 0 < increment) (bound : Nat) :
    (∃ position slot next, sizeClass.allocate increment bound = (.ok (position, slot), next) ∧
        Allocated sizeClass increment bound position slot next) ∨
      (sizeClass.allocate increment bound
          = (.error (.chainFull sizeClass.chunkSize bound), sizeClass) ∧
        sizeClass.firstOpen? = none ∧ bound < sizeClass.length + increment) := by
  rcases hv.allocate_taken hpos bound with ⟨position, slot, next, hcall, htaken⟩ | hrefused
  · exact Or.inl ⟨position, slot, next, hcall, htaken.allocated⟩
  · exact Or.inr hrefused

/-! ### Release -/

/-- A slab in use has its counter lowered by one with the slot that is given back. -/
theorem Valid.toNat_counter_sub {sizeClass : SizeClass} (hv : sizeClass.Valid)
    {position slot : Nat} {slab next : Slab} (hslab : sizeClass.slab? position = some slab)
    (h : Slab.Released slab slot next) :
    (sizeClass.counters[position]?.getD 0 - 1).toNat = next.usedCount := by
  have hlive : (sizeClass.counters[position]?.getD 0).toNat = slab.usedCount := by
    have hcounter := hv.liveAt_eq position
    unfold liveAt usedAt at hcounter
    rw [hslab] at hcounter
    exact hcounter
  have hcount := h.usedCount_eq
  -- the slot was in use, so the counter is not zero and does not wrap
  have hone : (1 : UInt8) ≤ sizeClass.counters[position]?.getD 0 := by
    rw [UInt8.le_iff_toNat_le, hlive]
    show 1 ≤ slab.usedCount
    omega
  rw [UInt8.toNat_sub_of_le _ _ hone, hlive]
  show slab.usedCount - 1 = next.usedCount
  omega

/-- Giving back a slot of one slab gives back one slot of the chain. -/
theorem Valid.freed {sizeClass next : SizeClass} (hv : sizeClass.Valid) {position slot : Nat}
    {slab released : Slab} (hslab : sizeClass.slab? position = some slab)
    (hreleased : Slab.Released slab slot released)
    (hreplaced : Replaced sizeClass position released next) :
    Freed sizeClass position slot next := by
  have hvalid := hv.slab_valid position slab hslab
  refine ⟨hreplaced.valid hv (hreleased.valid hvalid), hreplaced.chunkSize_eq,
    hreplaced.slotCount_eq, hreplaced.size_slabs, fun i j => ?_, fun i p => ?_⟩
  · rw [hreplaced.isUsed_eq]
    by_cases hi : i = position
    · subst hi
      rw [if_pos rfl, hreleased.isUsed_eq]
      simp only [isUsed, hslab, Option.any_some, true_and]
    · rw [if_neg hi, if_neg (fun hc => hi hc.1)]
  · rw [hreplaced.byteAt_eq]
    by_cases hi : i = position
    · subst hi
      rw [if_pos rfl, hreleased.get_eq, hvalid.chunkSize_eq]
      simp only [byteAt, hslab, Option.map_some, Option.getD_some, true_and]
    · rw [if_neg hi, if_neg (fun hc => hi hc.1)]

/-- A slot in use is given back by its slab, whose counter is lowered with it. -/
theorem Valid.exists_free {sizeClass : SizeClass} (hv : sizeClass.Valid) (handle : Handle)
    {position slot : Nat} (hused : sizeClass.isUsed position slot = true) :
    ∃ slab released next, sizeClass.slab? position = some slab ∧
      sizeClass.free handle position slot = .ok next ∧ Slab.Released slab slot released ∧
      Replaced sizeClass position released next := by
  unfold isUsed at hused
  rw [Option.any_eq_true] at hused
  obtain ⟨slab, hslab, hflag⟩ := hused
  have hvalid := hv.slab_valid position slab hslab
  obtain ⟨released, hrelease, hreleased⟩ := hvalid.exists_release hv.chunkSize_pos hflag
  have hcounter := hv.toNat_counter_sub hslab hreleased
  -- with the last slot the whole slab is cleared, all of which is zero by then
  have hwipe : (if sizeClass.counters[position]?.getD 0 - 1 = 0 then released.wipe else released)
      = released := by
    split
    · next hzero =>
      rw [hzero] at hcounter
      exact (hreleased.valid hvalid).wipe_eq hcounter.symm
    · rfl
  refine ⟨slab, released, _, hslab, ?_, hreleased,
    Replaced.of_setCounter hv (lt_of_slab? hslab) hcounter⟩
  unfold free
  simp only [hslab, Option.bind_some, hrelease, hwipe]

/-- **Release gives back a slot in use, or finds it free.** -/
theorem Valid.free_cases {sizeClass : SizeClass} (hv : sizeClass.Valid) (handle : Handle)
    (position slot : Nat) :
    (sizeClass.isUsed position slot = true ∧ ∃ next,
        sizeClass.free handle position slot = .ok next ∧
          Freed sizeClass position slot next) ∨
      (sizeClass.isUsed position slot = false ∧
        sizeClass.free handle position slot = .error (.invalidHandle handle)) := by
  rcases hused : sizeClass.isUsed position slot
  · right
    refine ⟨rfl, ?_⟩
    unfold isUsed at hused
    unfold free
    rcases hslab : sizeClass.slab? position with _ | slab
    · rfl
    · rw [hslab, Option.any_some] at hused
      simp only [Option.bind_some, Slab.release, hused, Bool.false_eq_true, if_false]
  · left
    obtain ⟨slab, released, next, hslab, hcall, hreleased, hreplaced⟩ :=
      hv.exists_free handle hused
    exact ⟨rfl, next, hcall, hv.freed hslab hreleased hreplaced⟩

/-! ### Writing -/

/-- A slab that comes back with the same flags leaves the occupancy as it is. -/
theorem occupancy_setSlab {sizeClass : SizeClass} {position : Nat} {slab : Slab}
    (hslab : sizeClass.slab? position = some slab) (buffer : Buffer) :
    (sizeClass.setSlab position { slab with buffer := buffer }).occupancy
      = sizeClass.occupancy := by
  unfold occupancy setSlab
  refine Prod.ext rfl (Array.ext_getElem? fun i => ?_)
  simp only [Array.getElem?_map, Array.getElem?_setIfInBounds]
  by_cases heq : position = i
  · subst heq
    have hlt : position < sizeClass.slabs.size := lt_of_slab? hslab
    rw [if_pos rfl, if_pos hlt, slab?_eq_some_iff.mp hslab]
    rfl
  · rw [if_neg heq]

/-- **A write inside a slot in use** changes the bytes that it covers. -/
theorem Valid.written {sizeClass : SizeClass} (hv : sizeClass.Valid) {position slot start : Nat}
    {slab : Slab} {bytes : List UInt8} (hslab : sizeClass.slab? position = some slab)
    (hused : slab.isUsed slot = true) (hlo : slot * sizeClass.chunkSize ≤ start)
    (hhi : start + bytes.length ≤ slot * sizeClass.chunkSize + sizeClass.chunkSize) :
    Written sizeClass position start bytes
      (sizeClass.setSlab position { slab with buffer := slab.buffer.put start bytes }) := by
  have hvalid := hv.slab_valid position slab hslab
  have hroom := hvalid.slot_le_size hused
  have hlive : sizeClass.liveAt position = slab.usedCount := by
    rw [hv.liveAt_eq]
    unfold usedAt
    rw [hslab]
    rfl
  have hreplaced : Replaced sizeClass position { slab with buffer := slab.buffer.put start bytes }
      (sizeClass.setSlab position { slab with buffer := slab.buffer.put start bytes }) :=
    Replaced.of_setSlab (lt_of_slab? hslab) hlive
  refine ⟨hreplaced.valid hv (hvalid.put hv.chunkSize_pos hused hlo hhi), rfl, rfl,
    hreplaced.size_slabs, occupancy_setSlab hslab _, fun i j => ?_, fun i p => ?_⟩
  · rw [hreplaced.isUsed_eq]
    split
    · next hi =>
      subst hi
      simp only [isUsed, hslab, Option.any_some]
      rfl
    · rfl
  · rw [hreplaced.byteAt_eq]
    by_cases hi : i = position
    · subst hi
      simp only [byteAt, hslab, Option.map_some, Option.getD_some, true_and, if_true]
      exact Buffer.get_put_within _ (by omega) p
    · rw [if_neg hi, if_neg (fun hc => hi hc.1)]

/-! ### A chain without slabs -/

section fresh
variable (chunkSize slotCount length : Nat)

@[simp] theorem slab?_fresh (position : Nat) :
    (fresh chunkSize slotCount length).slab? position = none := by
  simp only [slab?, fresh, Array.getElem?_replicate]
  split <;> rfl

@[simp] theorem isUsed_fresh (position slot : Nat) :
    (fresh chunkSize slotCount length).isUsed position slot = false := by
  simp [isUsed]

theorem length_fresh : (fresh chunkSize slotCount length).length = length :=
  Array.size_replicate

theorem valid_fresh (hsize : 0 < chunkSize) (hpos : 0 < slotCount) (hle : slotCount ≤ 127) :
    (fresh chunkSize slotCount length).Valid := by
  refine ⟨hsize, hpos, hle, ?_, fun position slab h => ?_, fun position => ?_⟩
  · simp only [fresh, Array.size_replicate]
  · rw [slab?_fresh] at h
    cases h
  · unfold usedAt
    rw [slab?_fresh]
    simp only [liveAt, fresh, Array.getElem?_replicate]
    split <;> rfl

end fresh

end HandleHeap.SizeClass
