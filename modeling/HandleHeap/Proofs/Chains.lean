import HandleHeap.Settings
import HandleHeap.Proofs.Counts
import HandleHeap.Proofs.SizeClasses

/-!
# Chains

How slots fill a chain.  An allocation takes the first position with room, so every position before
it is full and the slabs of a chain are those of its first positions.

* `SizeClass.Filled`, `SizeClass.Emptied`: what an allocation and a release do to counters and
  slabs, position by position;
* `SizeClass.liveSlots_eq_sum`, `SizeClass.Valid.length_eq_liveSlots`: the slots in use, summed over
  the positions, and as a list that names each of them;
* `SizeClass.Compact`, `SizeClass.Filled.compact`: a chain whose first positions have the slabs, and
  the next one that gets a slab;
* `SizeClass.Request`, `SizeClass.serve`, `SizeClass.orderly_serveAll`: what every run of
  allocations and releases keeps, and how a chain becomes longer.
-/

namespace HandleHeap

theorem Slab.usedCount_eq_card (slab : Slab) : slab.usedCount =
    ((Finset.range slab.used.size).filter fun slot => slab.isUsed slot = true).card := by
  have hflags := count_true_eq_card slab.used.toList
  simp only [Array.count_toList, Array.length_toList, Array.getElem?_toList] at hflags
  exact hflags

/-- A slab that counts all its slots has them all in use. -/
theorem Slab.isUsed_of_usedCount_eq {slab : Slab} (h : slab.usedCount = slab.used.size) {slot : Nat}
    (hlt : slot < slab.used.size) : slab.isUsed slot = true := by
  rw [isUsed_of_lt hlt]
  exact (Array.count_eq_size.mp h _ (Array.getElem_mem hlt)).symm

namespace SizeClass

/-- The chain after an allocation: the first position with room has one slot more in use, and a slab
if it had none. -/
structure Filled (sizeClass : SizeClass) (increment bound position : Nat) (next : SizeClass) :
    Prop where
  valid : next.Valid
  chunkSize_eq : next.chunkSize = sizeClass.chunkSize
  slotCount_eq : next.slotCount = sizeClass.slotCount
  full_before : ∀ i < position, sizeClass.liveAt i = sizeClass.slotCount
  room : sizeClass.liveAt position < sizeClass.slotCount
  length_eq : position < sizeClass.length ∧ next.length = sizeClass.length ∨
    position = sizeClass.length ∧ next.length = sizeClass.length + increment ∧ next.length ≤ bound
  isSome_slab?_iff : ∀ i, (next.slab? i).isSome = true ↔
    i = position ∨ (sizeClass.slab? i).isSome = true
  liveAt_eq : ∀ i, next.liveAt i = sizeClass.liveAt i + if i = position then 1 else 0

/-- The chain after a release: one position has a slot less in use. -/
structure Emptied (sizeClass : SizeClass) (position : Nat) (next : SizeClass) : Prop where
  valid : next.Valid
  chunkSize_eq : next.chunkSize = sizeClass.chunkSize
  slotCount_eq : next.slotCount = sizeClass.slotCount
  position_lt : position < sizeClass.length
  length_eq : next.length = sizeClass.length
  isSome_slab?_iff : ∀ i, (next.slab? i).isSome = true ↔ (sizeClass.slab? i).isSome = true
  liveAt_eq : ∀ i, sizeClass.liveAt i = next.liveAt i + if i = position then 1 else 0

/-! ### Positions with room -/

section room
variable {sizeClass next : SizeClass} (hv : sizeClass.Valid)
include hv

omit hv in
theorem liveAt_of_lt {i : Nat} (hlt : i < sizeClass.counters.size) :
    sizeClass.liveAt i = sizeClass.counters[i].toNat := by
  unfold liveAt
  rw [Array.getElem?_eq_getElem hlt]
  rfl

theorem Valid.liveAt_of_full (hfull : sizeClass.firstOpen? = none) {i : Nat}
    (hi : i < sizeClass.length) : sizeClass.liveAt i = sizeClass.slotCount := by
  have hlt := hv.lt_size_counters hi
  have hclosed := Array.findIdx?_eq_none_iff.mp hfull _ (Array.getElem_mem hlt)
  have hge := of_decide_eq_false hclosed
  have hle := hv.liveAt_le i
  rw [liveAt_of_lt hlt] at hle ⊢
  omega

theorem Valid.room_of_firstOpen? {position : Nat} (hopen : sizeClass.firstOpen? = some position) :
    position < sizeClass.length ∧ sizeClass.liveAt position < sizeClass.slotCount ∧
      ∀ i < position, sizeClass.liveAt i = sizeClass.slotCount := by
  obtain ⟨hlt, hroom, hbefore⟩ := Array.findIdx?_eq_some_iff_getElem.mp hopen
  refine ⟨Nat.lt_of_lt_of_eq hlt hv.size_counters, ?_, fun i hi => ?_⟩
  · rw [liveAt_of_lt hlt]
    exact of_decide_eq_true hroom
  · have hilt : i < sizeClass.counters.size := Nat.lt_trans hi hlt
    have hge : ¬ sizeClass.counters[i].toNat < sizeClass.slotCount := by simpa using hbefore i hi
    have hle := hv.liveAt_le i
    rw [liveAt_of_lt hilt] at hle ⊢
    omega

theorem Valid.isUsed_of_liveAt_eq {i slot : Nat} (hfull : sizeClass.liveAt i = sizeClass.slotCount)
    (hslot : slot < sizeClass.slotCount) : sizeClass.isUsed i slot = true := by
  have hsize := (hv.slabOrFresh_valid i).size_used
  have hcount := hv.usedCount_slabOrFresh i
  rw [← isUsed_slabOrFresh]
  exact Slab.isUsed_of_usedCount_eq (by omega) (by omega)

theorem Valid.liveAt_of_slab?_eq_none {i : Nat} (hnone : sizeClass.slab? i = none) :
    sizeClass.liveAt i = 0 := by
  rw [hv.liveAt_eq]
  unfold usedAt
  rw [hnone]
  rfl

theorem Valid.liveAt_of_length_le {i : Nat} (hi : sizeClass.length ≤ i) :
    sizeClass.liveAt i = 0 := by
  refine hv.liveAt_of_slab?_eq_none ?_
  unfold slab?
  rw [Array.getElem?_eq_none hi]
  rfl

theorem Extended.liveAt_eq {increment : Nat} (h : Extended sizeClass increment next) (i : Nat) :
    next.liveAt i = sizeClass.liveAt i := by
  rw [h.valid.liveAt_eq, hv.liveAt_eq]
  unfold usedAt
  rw [h.slab?_eq]

theorem Taken.filled {increment bound position slot : Nat}
    (h : Taken sizeClass increment bound position slot next) :
    Filled sizeClass increment bound position next := by
  have ha := h.allocated
  obtain ⟨added, longer, slab, hlonger, hlt, hplace, hclaimed, hreplaced⟩ := h
  have hlength : next.length = sizeClass.length + added :=
    Eq.trans hreplaced.size_slabs hlonger.length_eq
  have hgrown : longer.length = sizeClass.length + added := hlonger.length_eq
  have hplaced : (∀ i < position, sizeClass.liveAt i = sizeClass.slotCount) ∧
      sizeClass.liveAt position < sizeClass.slotCount ∧
      (position < sizeClass.length ∧ next.length = sizeClass.length ∨
        position = sizeClass.length ∧ next.length = sizeClass.length + increment ∧
          next.length ≤ bound) := by
    rcases hplace with ⟨rfl, hopen⟩ | ⟨rfl, hfull, rfl, hle⟩
    · obtain ⟨hposition, hroom, hbefore⟩ := hv.room_of_firstOpen? hopen
      exact ⟨hbefore, hroom, Or.inl ⟨hposition, hlength⟩⟩
    · have hempty := hv.liveAt_of_length_le (Nat.le_refl sizeClass.length)
      have hpos := hv.slotCount_pos
      exact ⟨fun i hi => hv.liveAt_of_full hfull hi, by omega, Or.inr ⟨rfl, hlength, by omega⟩⟩
  refine ⟨ha.valid, ha.chunkSize_eq, ha.slotCount_eq, hplaced.1, hplaced.2.1, hplaced.2.2,
    fun i => ?_, fun i => ?_⟩
  · rw [hreplaced.slab?_eq, hlonger.slab?_eq]
    by_cases hi : i = position
    · simp [hi]
    · simp [hi]
  · rw [hreplaced.liveAt_eq]
    by_cases hi : i = position
    · subst hi
      rw [if_pos rfl, if_pos rfl, hclaimed.usedCount_eq, hlonger.valid.usedCount_slabOrFresh,
        hlonger.liveAt_eq hv]
    · rw [if_neg hi, if_neg hi, hlonger.liveAt_eq hv, Nat.add_zero]

/-- **An allocation fills the first position with room**, or finds the chain full and as long as it
may be. -/
theorem Valid.allocate_filled {increment : Nat} (hpos : 0 < increment) (bound : Nat) :
    (∃ position slot next, sizeClass.allocate increment bound = (.ok (position, slot), next) ∧
        Filled sizeClass increment bound position next) ∨
      (sizeClass.allocate increment bound
          = (.error (.chainFull sizeClass.chunkSize bound), sizeClass) ∧
        (∀ i < sizeClass.length, sizeClass.liveAt i = sizeClass.slotCount) ∧
        bound < sizeClass.length + increment) := by
  rcases hv.allocate_taken hpos bound with ⟨position, slot, next, hcall, h⟩ | ⟨hcall, hfull, hbound⟩
  · exact Or.inl ⟨position, slot, next, hcall, h.filled hv⟩
  · exact Or.inr ⟨hcall, fun i hi => hv.liveAt_of_full hfull hi, hbound⟩

/-- **A release empties a slot in use**, or finds it free. -/
theorem Valid.free_emptied (handle : Handle) (position slot : Nat) :
    (∃ next, sizeClass.free handle position slot = .ok next ∧ Emptied sizeClass position next) ∨
      sizeClass.free handle position slot = .error (.invalidHandle handle) := by
  rcases hused : sizeClass.isUsed position slot
  · rcases hv.free_cases handle position slot with ⟨hsome, -⟩ | ⟨-, hcall⟩
    · rw [hused] at hsome
      cases hsome
    · exact Or.inr hcall
  obtain ⟨slab, released, next, hslab, hcall, hreleased, hreplaced⟩ := hv.exists_free handle hused
  have hvalid := hv.slab_valid position slab hslab
  refine Or.inl ⟨next, hcall, hreplaced.valid hv (hreleased.valid hvalid), hreplaced.chunkSize_eq,
    hreplaced.slotCount_eq, lt_of_slab? hslab, hreplaced.size_slabs, fun i => ?_, fun i => ?_⟩
  · rw [hreplaced.slab?_eq]
    by_cases hi : i = position
    · rw [if_pos hi, hi, hslab]
      simp
    · rw [if_neg hi]
  · rw [hreplaced.liveAt_eq]
    by_cases hi : i = position
    · have hcount := hreleased.usedCount_eq
      have hlive : sizeClass.liveAt position = slab.usedCount := by
        rw [hv.liveAt_eq]
        unfold usedAt
        rw [hslab]
        rfl
      rw [if_pos hi, if_pos hi, hi, hlive]
      exact hcount.symm
    · rw [if_neg hi, if_neg hi, Nat.add_zero]

end room

/-! ### Slots in use -/

theorem slabCount_eq_card (sizeClass : SizeClass) : sizeClass.slabCount =
    ((Finset.range sizeClass.length).filter fun i => (sizeClass.slab? i).isSome = true).card := by
  have hflags := count_true_eq_card (sizeClass.slabs.toList.map (·.isSome))
  have hslab : ∀ i, ((sizeClass.slabs.toList.map (·.isSome))[i]?.getD false)
      = (sizeClass.slab? i).isSome := by
    intro i
    rw [List.getElem?_map, Array.getElem?_toList]
    unfold slab?
    rcases sizeClass.slabs[i]? with _ | _ | slab <;> rfl
  simp only [hslab, List.length_map, Array.length_toList] at hflags
  refine Eq.trans ?_ hflags
  unfold slabCount
  rw [← Array.countP_toList, List.count, List.countP_map]
  exact List.countP_congr fun entry _ => by simp

theorem liveSlots_eq_sum (sizeClass : SizeClass) : sizeClass.liveSlots =
    ∑ i ∈ Finset.range sizeClass.counters.size, sizeClass.liveAt i := by
  unfold liveSlots
  rw [← List.sum_eq_foldr, sum_map_eq_sum_range, Array.length_toList]
  refine Finset.sum_congr rfl fun i _ => ?_
  rw [Array.getElem?_toList]
  unfold liveAt
  rcases sizeClass.counters[i]? with _ | counter <;> rfl

section sums
variable {sizeClass next : SizeClass} (hv : sizeClass.Valid)
include hv

/-- The sum may stop where nothing more is in use. -/
theorem Valid.liveSlots_eq_sum_of_zero {k : Nat} (hzero : ∀ i, k ≤ i → sizeClass.liveAt i = 0) :
    sizeClass.liveSlots = ∑ i ∈ Finset.range k, sizeClass.liveAt i := by
  have hsize : sizeClass.counters.size = sizeClass.length := hv.size_counters
  have hbeyond : ∀ j ≤ sizeClass.length + k, (∀ i, j ≤ i → sizeClass.liveAt i = 0) →
      ∑ i ∈ Finset.range j, sizeClass.liveAt i =
        ∑ i ∈ Finset.range (sizeClass.length + k), sizeClass.liveAt i := by
    intro j hj hjzero
    refine Finset.sum_subset (Finset.range_subset_range.mpr hj) fun i _ hi => ?_
    rw [Finset.mem_range, Nat.not_lt] at hi
    exact hjzero i hi
  rw [liveSlots_eq_sum, hsize, hbeyond k (by omega) hzero]
  exact hbeyond _ (by omega) fun i hi => hv.liveAt_of_length_le hi

/-- Beyond the chain nothing is in use, so the sum may go on there. -/
theorem Valid.liveSlots_eq_sum_of_le {k : Nat} (hk : sizeClass.length ≤ k) :
    sizeClass.liveSlots = ∑ i ∈ Finset.range k, sizeClass.liveAt i :=
  hv.liveSlots_eq_sum_of_zero fun _ hi => hv.liveAt_of_length_le (Nat.le_trans hk hi)

theorem Valid.liveSlots_le_of_zero {k : Nat} (hzero : ∀ i, k ≤ i → sizeClass.liveAt i = 0) :
    sizeClass.liveSlots ≤ k * sizeClass.slotCount := by
  rw [hv.liveSlots_eq_sum_of_zero hzero]
  have hle := Finset.sum_le_card_nsmul (Finset.range k) sizeClass.liveAt
    sizeClass.slotCount fun i _ => hv.liveAt_le i
  rw [Finset.card_range, smul_eq_mul] at hle
  exact hle

theorem Valid.liveSlots_le : sizeClass.liveSlots ≤ sizeClass.length * sizeClass.slotCount :=
  hv.liveSlots_le_of_zero fun _ hi => hv.liveAt_of_length_le hi

theorem Valid.liveSlots_eq_mul {k : Nat} (hzero : ∀ i, k ≤ i → sizeClass.liveAt i = 0)
    (hfull : ∀ i < k, sizeClass.liveAt i = sizeClass.slotCount) :
    sizeClass.liveSlots = k * sizeClass.slotCount := by
  rw [hv.liveSlots_eq_sum_of_zero hzero,
    Finset.sum_congr rfl fun i hi => hfull i (Finset.mem_range.mp hi), Finset.sum_const,
    Finset.card_range, smul_eq_mul]

theorem Valid.liveSlots_of_full
    (hfull : ∀ i < sizeClass.length, sizeClass.liveAt i = sizeClass.slotCount) :
    sizeClass.liveSlots = sizeClass.length * sizeClass.slotCount :=
  hv.liveSlots_eq_mul (fun _ hi => hv.liveAt_of_length_le hi) hfull

theorem Filled.liveSlots_eq {increment bound position : Nat}
    (h : Filled sizeClass increment bound position next) :
    next.liveSlots = sizeClass.liveSlots + 1 := by
  have hlength := h.length_eq
  -- both chains are summed as far as the longer one goes, and to the position at least
  have hle : sizeClass.length ≤ next.length + position + 1 := by omega
  rw [hv.liveSlots_eq_sum_of_le hle,
    h.valid.liveSlots_eq_sum_of_le (by omega : next.length ≤ next.length + position + 1)]
  exact sum_range_add_point h.liveAt_eq (by omega)

theorem Emptied.liveSlots_eq {position : Nat} (h : Emptied sizeClass position next) :
    sizeClass.liveSlots = next.liveSlots + 1 := by
  rw [hv.liveSlots_eq_sum_of_le (Nat.le_refl _),
    h.valid.liveSlots_eq_sum_of_le (Nat.le_of_eq h.length_eq)]
  exact sum_range_add_point h.liveAt_eq h.position_lt

theorem Valid.liveAt_eq_card (i : Nat) : sizeClass.liveAt i = ((Finset.range
    sizeClass.slotCount).filter fun slot => sizeClass.isUsed i slot = true).card := by
  have hsize := (hv.slabOrFresh_valid i).size_used
  have hcard := (sizeClass.slabOrFresh i).usedCount_eq_card
  rw [hv.usedCount_slabOrFresh, hsize] at hcard
  simp only [isUsed_slabOrFresh] at hcard
  exact hcard

theorem Valid.lt_of_isUsed {i slot : Nat} (h : sizeClass.isUsed i slot = true) :
    i < sizeClass.length ∧ slot < sizeClass.slotCount := by
  unfold isUsed at h
  rw [Option.any_eq_true] at h
  obtain ⟨slab, hslab, hflag⟩ := h
  exact ⟨lt_of_slab? hslab, (hv.slab_valid i slab hslab).lt_slotCount hflag⟩

section slots
variable {slots : List (Nat × Nat)} (hnodup : slots.Nodup)
  (hmem : ∀ i slot, (i, slot) ∈ slots ↔ sizeClass.isUsed i slot = true)
include hnodup hmem

/-- In a list that names each slot in use once, a position comes as often as its counter tells. -/
theorem Valid.countP_eq_liveAt (i : Nat) :
    slots.countP (fun place => place.1 = i) = sizeClass.liveAt i := by
  have hfiber : (slots.toFinset.filter fun place => place.1 = i) =
      ((Finset.range sizeClass.slotCount).filter fun slot => sizeClass.isUsed i slot = true).image
        (Prod.mk i) := by
    ext ⟨i', slot⟩
    simp only [Finset.mem_filter, List.mem_toFinset, Finset.mem_image, Finset.mem_range, hmem,
      Prod.mk.injEq]
    constructor
    · rintro ⟨hused, rfl⟩
      exact ⟨slot, ⟨(hv.lt_of_isUsed hused).2, hused⟩, rfl, rfl⟩
    · rintro ⟨slot', ⟨-, hused⟩, rfl, rfl⟩
      exact ⟨hused, rfl⟩
  rw [hv.liveAt_eq_card, ← Finset.card_image_of_injective _ (Prod.mk_right_injective i), ← hfiber,
    ← hnodup.card_eq_countP]

/-- **The counters count what is in use**: a list that names each slot in use once is as long as
they tell. -/
theorem Valid.length_eq_liveSlots : slots.length = sizeClass.liveSlots := by
  have hmaps : Set.MapsTo Prod.fst (slots.toFinset : Set (Nat × Nat))
      (Finset.range sizeClass.length : Set Nat) := by
    rintro ⟨i, slot⟩ hin
    have hused := (hmem i slot).mp (by simpa using hin)
    simpa using (hv.lt_of_isUsed hused).1
  rw [← List.toFinset_card_of_nodup hnodup, Finset.card_eq_sum_card_fiberwise hmaps,
    hv.liveSlots_eq_sum_of_le (Nat.le_refl _)]
  refine Finset.sum_congr rfl fun i _ => ?_
  rw [← hv.countP_eq_liveAt hnodup hmem i, ← hnodup.card_eq_countP]

end slots

/-- A slot that is counted lies in a slab. -/
theorem Valid.liveSlots_le_totalSlots : sizeClass.liveSlots ≤ sizeClass.totalSlots := by
  have hle : ∀ i, sizeClass.liveAt i
      ≤ if (sizeClass.slab? i).isSome = true then sizeClass.slotCount else 0 := by
    intro i
    rcases hslab : sizeClass.slab? i with _ | slab
    · rw [hv.liveAt_of_slab?_eq_none hslab]
      exact Nat.zero_le _
    · exact hv.liveAt_le i
  rw [hv.liveSlots_eq_sum_of_le (Nat.le_refl _)]
  refine (Finset.sum_le_sum fun i _ => hle i).trans (Nat.le_of_eq ?_)
  rw [← Finset.sum_filter, Finset.sum_const, ← slabCount_eq_card, smul_eq_mul]
  rfl

end sums

/-! ### Slabs of the first positions -/

/-- The positions that have a slab are the first ones of the chain. -/
def Compact (sizeClass : SizeClass) (slabs : Nat) : Prop :=
  ∀ i, (sizeClass.slab? i).isSome = true ↔ i < slabs

theorem compact_fresh (chunkSize slotCount length : Nat) :
    (fresh chunkSize slotCount length).Compact 0 := by
  intro i
  rw [slab?_fresh]
  simp

section compact
variable {sizeClass next : SizeClass} {slabs : Nat} (hc : sizeClass.Compact slabs)
include hc

theorem Compact.le_length : slabs ≤ sizeClass.length := by
  by_contra hlt
  have hsome := (hc sizeClass.length).mpr (by omega)
  obtain ⟨slab, hslab⟩ := Option.isSome_iff_exists.mp hsome
  exact absurd (lt_of_slab? hslab) (Nat.lt_irrefl _)

theorem Compact.slab?_eq_none {i : Nat} (hi : slabs ≤ i) : sizeClass.slab? i = none := by
  have hnone : ¬ (sizeClass.slab? i).isSome = true := by rw [hc i]; omega
  simpa using hnone

theorem Compact.liveAt_eq_zero (hv : sizeClass.Valid) {i : Nat} (hi : slabs ≤ i) :
    sizeClass.liveAt i = 0 :=
  hv.liveAt_of_slab?_eq_none (hc.slab?_eq_none hi)

theorem Compact.slabCount_eq : sizeClass.slabCount = slabs := by
  have hfirst : ((Finset.range sizeClass.length).filter fun i => (sizeClass.slab? i).isSome = true)
      = Finset.range slabs := by
    have hle := hc.le_length
    ext i
    rw [Finset.mem_filter, Finset.mem_range, Finset.mem_range, hc i]
    omega
  rw [slabCount_eq_card, hfirst, Finset.card_range]

/-- The first position with room is among those with a slab, or the next one. -/
theorem Filled.position_le (hv : sizeClass.Valid) {increment bound position : Nat}
    (h : Filled sizeClass increment bound position next) : position ≤ slabs := by
  by_contra hlt
  have hfull := h.full_before slabs (by omega)
  have hempty := hc.liveAt_eq_zero hv (Nat.le_refl slabs)
  have hpos := hv.slotCount_pos
  omega

theorem Filled.compact (hv : sizeClass.Valid) {increment bound position : Nat}
    (h : Filled sizeClass increment bound position next) :
    next.Compact (max slabs (position + 1)) := by
  have hle := h.position_le hc hv
  intro i
  rw [h.isSome_slab?_iff, hc i]
  omega

theorem Emptied.compact {position : Nat} (h : Emptied sizeClass position next) :
    next.Compact slabs := by
  intro i
  rw [h.isSome_slab?_iff, hc i]

end compact

/-! ### Runs -/

/-- A request to a size class.  Every allocation brings its own increment and bound. -/
inductive Request where
  | allocate (increment bound : Nat)
  | free (handle : Handle) (position slot : Nat)
deriving DecidableEq, Repr

/-- Whether the increment of a request is one that settings can have. -/
def Request.Admissible : Request → Prop
  | .allocate increment _ => 1 ≤ increment ∧ increment ≤ Settings.greatestChainIncrement
  | .free .. => True

/-- The size class after a request, granted or refused. -/
def serve (sizeClass : SizeClass) : Request → SizeClass
  | .allocate increment bound => (sizeClass.allocate increment bound).2
  | .free handle position slot =>
    match sizeClass.free handle position slot with
    | .ok next => next
    | .error _ => sizeClass

/-- The size class after a run of requests. -/
def serveAll (sizeClass : SizeClass) (requests : List Request) : SizeClass :=
  requests.foldl serve sizeClass

theorem Valid.serve_allocate {sizeClass : SizeClass} (hv : sizeClass.Valid) {increment : Nat}
    (hpos : 0 < increment) (bound : Nat) :
    (∃ position, Filled sizeClass increment bound position
        (sizeClass.serve (.allocate increment bound))) ∨
      sizeClass.serve (.allocate increment bound) = sizeClass ∧
        ∀ i < sizeClass.length, sizeClass.liveAt i = sizeClass.slotCount := by
  rcases hv.allocate_filled hpos bound with ⟨position, slot, next, hcall, h⟩ | ⟨hcall, hfull, -⟩
  · have hserve : sizeClass.serve (.allocate increment bound) = next := congrArg Prod.snd hcall
    rw [hserve]
    exact Or.inl ⟨position, h⟩
  · exact Or.inr ⟨congrArg Prod.snd hcall, hfull⟩

theorem Valid.serve_free {sizeClass : SizeClass} (hv : sizeClass.Valid) (handle : Handle)
    (position slot : Nat) :
    Emptied sizeClass position (sizeClass.serve (.free handle position slot)) ∨
      sizeClass.serve (.free handle position slot) = sizeClass := by
  rcases hv.free_emptied handle position slot with ⟨next, hcall, h⟩ | hcall
  · left
    simp only [serve, hcall]
    exact h
  · right
    simp only [serve, hcall]

/-- What is true of a size class at every time: there are as many counters as positions, a counter
tells the flags set in its slab and never more than there are slots, every slab has the same number
of flags and bytes, and the slabs are at the first positions. -/
structure Orderly (chunkSize slotCount : Nat) (sizeClass : SizeClass) : Prop where
  size_eq : sizeClass.slabs.size = sizeClass.counters.size
  liveAt_eq : ∀ i < sizeClass.length, sizeClass.liveAt i = sizeClass.usedAt i
  liveAt_le : ∀ i < sizeClass.length, sizeClass.liveAt i ≤ slotCount
  slab_sizes : ∀ i slab, sizeClass.slab? i = some slab →
    slab.used.size = slotCount ∧ slab.buffer.size = slotCount * chunkSize
  slabs_first : ∃ slabs ≤ sizeClass.length, sizeClass.Compact slabs

/-- What a request does to the chain: no position and no slab is lost, and new positions are as many
as the increment of an allocation that finds every slot in use, within its bound. -/
structure Advances (slotCount : Nat) (sizeClass : SizeClass) (request : Request) : Prop where
  length_le : sizeClass.length ≤ (sizeClass.serve request).length
  slab_kept : ∀ i, (sizeClass.slab? i).isSome = true →
    ((sizeClass.serve request).slab? i).isSome = true
  lengthened : (sizeClass.serve request).length ≠ sizeClass.length →
    ∃ increment bound, request = .allocate increment bound ∧
      (sizeClass.serve request).length = sizeClass.length + increment ∧
      (sizeClass.serve request).length ≤ bound ∧
      ∀ i < sizeClass.length, ∀ slot < slotCount, sizeClass.isUsed i slot = true

/-- A valid size class of the given sizes whose slabs are at the first positions. -/
structure Formed (chunkSize slotCount : Nat) (sizeClass : SizeClass) : Prop where
  valid : sizeClass.Valid
  chunkSize_eq : sizeClass.chunkSize = chunkSize
  slotCount_eq : sizeClass.slotCount = slotCount
  compact : ∃ slabs, sizeClass.Compact slabs

section runs
variable {chunkSize slotCount : Nat} {sizeClass : SizeClass}

theorem Formed.orderly (hf : Formed chunkSize slotCount sizeClass) :
    Orderly chunkSize slotCount sizeClass := by
  obtain ⟨hv, hchunk, hslot, slabs, hc⟩ := hf
  refine ⟨hv.size_counters.symm, fun i _ => hv.liveAt_eq i, fun i _ => ?_, fun i slab hslab => ?_,
    slabs, hc.le_length, hc⟩
  · have hle := hv.liveAt_le i
    omega
  · have hvalid := hv.slab_valid i slab hslab
    have hbuffer := hvalid.size_buffer
    rw [hchunk, hslot, Nat.mul_comm] at hbuffer
    exact ⟨hvalid.size_used.trans hslot, hbuffer⟩

/-- A request that changes nothing. -/
theorem Formed.unchanged (hf : Formed chunkSize slotCount sizeClass) {request : Request}
    (h : sizeClass.serve request = sizeClass) :
    Formed chunkSize slotCount (sizeClass.serve request) ∧
      Advances slotCount sizeClass request := by
  refine ⟨?_, ?_, fun i hi => ?_, fun hne => absurd ?_ hne⟩
  · rw [h]; exact hf
  · rw [h]
  · rw [h]; exact hi
  · rw [h]

theorem Formed.serve_allocate (hf : Formed chunkSize slotCount sizeClass) {increment : Nat}
    (hpos : 0 < increment) (bound : Nat) :
    Formed chunkSize slotCount (sizeClass.serve (.allocate increment bound)) ∧
      Advances slotCount sizeClass (.allocate increment bound) := by
  rcases hf.valid.serve_allocate hpos bound with ⟨position, h⟩ | ⟨hsame, -⟩
  · obtain ⟨hv, hchunk, hslot, slabs, hc⟩ := hf
    have hlength := h.length_eq
    refine ⟨⟨h.valid, h.chunkSize_eq.trans hchunk, h.slotCount_eq.trans hslot, _, h.compact hc hv⟩,
      by omega, fun i hi => ?_, fun hne => ⟨increment, bound, rfl, ?_⟩⟩
    · rw [h.isSome_slab?_iff]
      exact Or.inr hi
    · have hposition : position = sizeClass.length := by omega
      refine ⟨by omega, by omega, fun i hi j hj => ?_⟩
      rw [← hslot] at hj
      exact hv.isUsed_of_liveAt_eq (h.full_before i (by omega)) hj
  · exact hf.unchanged hsame

theorem Formed.serve_free (hf : Formed chunkSize slotCount sizeClass) (handle : Handle)
    (position slot : Nat) :
    Formed chunkSize slotCount (sizeClass.serve (.free handle position slot)) ∧
      Advances slotCount sizeClass (.free handle position slot) := by
  rcases hf.valid.serve_free handle position slot with h | hsame
  · obtain ⟨hv, hchunk, hslot, slabs, hc⟩ := hf
    refine ⟨⟨h.valid, h.chunkSize_eq.trans hchunk, h.slotCount_eq.trans hslot, _, h.compact hc⟩,
      Nat.le_of_eq h.length_eq.symm, fun i hi => ?_, fun hne => absurd h.length_eq hne⟩
    rw [h.isSome_slab?_iff]
    exact hi
  · exact hf.unchanged hsame

/-- One request. -/
theorem Formed.serve (hf : Formed chunkSize slotCount sizeClass) {request : Request}
    (h : request.Admissible) : Formed chunkSize slotCount (sizeClass.serve request) ∧
      Advances slotCount sizeClass request := by
  cases request with
  | allocate increment bound => exact hf.serve_allocate h.1 bound
  | free handle position slot => exact hf.serve_free handle position slot

theorem Formed.serveAll (hf : Formed chunkSize slotCount sizeClass) {requests : List Request}
    (h : ∀ request ∈ requests, request.Admissible) :
    Formed chunkSize slotCount (sizeClass.serveAll requests) := by
  induction requests generalizing sizeClass with
  | nil => exact hf
  | cons request requests ih =>
    have hfirst := h request List.mem_cons_self
    exact ih (hf.serve hfirst).1 fun other hother => h other (List.mem_cons_of_mem _ hother)

theorem formed_fresh (hchunk : ChunkSize.IsChunk chunkSize) (hlow : 1 ≤ slotCount)
    (hhigh : slotCount ≤ 127) (length : Nat) :
    Formed chunkSize slotCount (fresh chunkSize slotCount length) :=
  ⟨valid_fresh chunkSize slotCount length hchunk.1 hlow hhigh, rfl, rfl, 0,
    compact_fresh chunkSize slotCount length⟩

end runs

/-- **Size classes stay orderly.**  After any allocations, each with an increment and a bound of its
own, and any releases, the counters, the slabs and their sizes agree, and the next request loses no
position and no slab and lengthens the chain only when all of it is in use. -/
theorem orderly_serveAll {chunkSize slotCount : Nat} (hchunk : ChunkSize.IsChunk chunkSize)
    (hlow : 1 ≤ slotCount) (hhigh : slotCount ≤ 127) (length : Nat) {requests : List Request}
    (h : ∀ request ∈ requests, request.Admissible) :
    Orderly chunkSize slotCount ((fresh chunkSize slotCount length).serveAll requests) ∧
      ∀ request : Request, request.Admissible →
        Advances slotCount ((fresh chunkSize slotCount length).serveAll requests) request := by
  have hf := (formed_fresh hchunk hlow hhigh length).serveAll h
  exact ⟨hf.orderly, fun request hrequest => (hf.serve hrequest).2⟩

/-- A run that fills a chain of one slab, lengthens it, and gives back a slot twice. -/
def lengthening : List Request :=
  List.replicate 5 (.allocate 1 2) ++ [.free Handle.null 0 2, .free Handle.null 0 2, .allocate 3 9]

/-- Four slots of the largest chunks, a fifth for which the chain is lengthened. -/
theorem orderly_serveAll_of_lengthening :
    ((fresh 1024 4 1).serveAll lengthening).length = 2 ∧
      Orderly 1024 4 ((fresh 1024 4 1).serveAll lengthening) ∧
      ∀ request : Request, request.Admissible →
        Advances 4 ((fresh 1024 4 1).serveAll lengthening) request :=
  ⟨by decide +kernel, orderly_serveAll (by decide) (by decide) (by decide) 1
    (by simp [lengthening, Request.Admissible, Settings.greatestChainIncrement])⟩

end SizeClass

end HandleHeap
