import Mathlib
import HandleHeap.Proofs.Outcomes
import HandleHeap.Slab.Capacity

/-!
# Slots per slab

The search over thresholds that gives the number of slots of a slab is one clamped division.

* `Slab.leastChunkFor_le_iff`: a threshold compares the number of chunks that fit;
* `Slab.capacity_eq`: as many slots as fit, but at least `fewest` and at most `most`;
* `Slab.capacity_antitone`, `Slab.capacity_mono`, `Slab.capacity_mul_le`: the number falls with the
  chunk size and grows with the buffer size, and no slab is larger than aimed for unless it has the
  fewest slots;
* `Slip`, `Slab.capacityChecked`: the search on words, where a sum can be too large and a divisor
  zero, and `Slab.capacityChecked_eq`, by which neither happens;
* `Slab.Clamped`, `Slab.clamped_capacity`: all of this, for every buffer size.
-/

namespace HandleHeap

namespace Slab

variable {chunkSize : Nat}

theorem leastChunkFor_le_iff (hpos : 0 < chunkSize) (slots bufferSize : Nat) :
    leastChunkFor slots bufferSize ≤ chunkSize ↔ bufferSize / chunkSize ≤ slots := by
  unfold leastChunkFor
  rw [Nat.add_comm, Nat.succ_le_iff, Nat.div_lt_iff_lt_mul (Nat.succ_pos slots), ← Nat.lt_succ_iff,
    Nat.div_lt_iff_lt_mul hpos, Nat.mul_comm chunkSize]

/-- **As many slots as fit**, within the two limits. -/
theorem capacity_eq (hpos : 0 < chunkSize) (bufferSize : Nat) :
    capacity chunkSize bufferSize = max fewest (min most (bufferSize / chunkSize)) := by
  unfold capacity
  simp only [← Nat.not_le, leastChunkFor_le_iff hpos]
  generalize bufferSize / chunkSize = fitting
  unfold fewest most
  split
  · next hfew =>
    interval_cases fitting <;> decide
  · split <;> omega

theorem capacity_pos (hpos : 0 < chunkSize) (bufferSize : Nat) :
    0 < capacity chunkSize bufferSize := by
  rw [capacity_eq hpos]
  unfold fewest
  omega

theorem capacity_le (hpos : 0 < chunkSize) (bufferSize : Nat) :
    capacity chunkSize bufferSize ≤ 127 := by
  rw [capacity_eq hpos]
  unfold fewest most
  omega

/-! ### Dependence on the two sizes -/

theorem leastChunkFor_pos (slots bufferSize : Nat) : 0 < leastChunkFor slots bufferSize :=
  Nat.add_pos_left Nat.one_pos _

/-- Every threshold is positive, so chunks of no bytes get the most slots. -/
theorem capacity_zero (bufferSize : Nat) : capacity 0 bufferSize = most := by
  have hfirst : ¬ leastChunkFor 8 bufferSize ≤ 0 := Nat.not_le.mpr (leastChunkFor_pos 8 bufferSize)
  rw [capacity, if_neg hfirst, if_pos (leastChunkFor_pos (most - 1) bufferSize)]

theorem capacity_mem_Icc (chunkSize bufferSize : Nat) :
    capacity chunkSize bufferSize ∈ Set.Icc fewest most := by
  rcases Nat.eq_zero_or_pos chunkSize with rfl | hpos
  · rw [capacity_zero]
    exact ⟨by decide, Nat.le_refl _⟩
  · rw [capacity_eq hpos]
    unfold fewest most
    exact ⟨by omega, by omega⟩

/-- Larger chunks get no more slots. -/
theorem capacity_antitone (bufferSize : Nat) :
    Antitone fun chunkSize => capacity chunkSize bufferSize := by
  intro small large hle
  show capacity large bufferSize ≤ capacity small bufferSize
  rcases Nat.eq_zero_or_pos small with rfl | hsmall
  · rw [capacity_zero]
    exact (capacity_mem_Icc large bufferSize).2
  · have hlarge : 0 < large := by omega
    have hfit : bufferSize / large ≤ bufferSize / small := Nat.div_le_div_left hle hsmall
    rw [capacity_eq hsmall, capacity_eq hlarge]
    omega

/-- Larger buffers get no fewer slots. -/
theorem capacity_mono (chunkSize : Nat) : Monotone (capacity chunkSize) := by
  intro small large hle
  rcases Nat.eq_zero_or_pos chunkSize with rfl | hpos
  · rw [capacity_zero, capacity_zero]
  · have hfit : small / chunkSize ≤ large / chunkSize := Nat.div_le_div_right hle
    rw [capacity_eq hpos, capacity_eq hpos]
    omega

/-- A slab is no larger than aimed for, unless it has the fewest slots. -/
theorem capacity_mul_le (chunkSize bufferSize : Nat) :
    capacity chunkSize bufferSize * chunkSize ≤ max bufferSize (fewest * chunkSize) := by
  rcases Nat.eq_zero_or_pos chunkSize with rfl | hpos
  · rw [Nat.mul_zero]
    exact Nat.zero_le _
  rw [capacity_eq hpos]
  rcases Nat.le_total (min most (bufferSize / chunkSize)) fewest with hfew | hmany
  · rw [Nat.max_eq_left hfew]
    exact Nat.le_max_right _ _
  · have hfit : min most (bufferSize / chunkSize) ≤ bufferSize / chunkSize := Nat.min_le_right _ _
    rw [Nat.max_eq_right hmany]
    calc min most (bufferSize / chunkSize) * chunkSize
        ≤ bufferSize / chunkSize * chunkSize := Nat.mul_le_mul_right _ hfit
      _ ≤ bufferSize := Nat.div_mul_le_self _ _
      _ ≤ _ := Nat.le_max_left _ _

end Slab

/-! ### The search on words -/

/-- What a sum or a quotient of words can fail at. -/
inductive Slip where
  /-- A sum of more than 64 bits. -/
  | overflow (sum : Nat)
  /-- A division by zero. -/
  | division (dividend : Nat)
deriving DecidableEq, Repr

namespace Slip

/-- A sum that has to fit a word. -/
def sum (left right : Nat) : Except Slip Nat :=
  if left + right < 0x10000000000000000 then .ok (left + right)
  else .error (.overflow (left + right))

/-- A quotient that has to have a divisor. -/
def quotient (dividend divisor : Nat) : Except Slip Nat :=
  if divisor = 0 then .error (.division dividend) else .ok (dividend / divisor)

theorem sum_of_lt {left right : Nat} (h : left + right < 0x10000000000000000) :
    sum left right = .ok (left + right) := if_pos h

theorem quotient_of_pos {divisor : Nat} (h : 0 < divisor) (dividend : Nat) :
    quotient dividend divisor = .ok (dividend / divisor) := if_neg (Nat.ne_of_gt h)

end Slip

namespace Slab

open Slip

/-- `Slab.leastChunkFor`. -/
def leastChunkForChecked (slots bufferSize : Nat) : Except Slip Nat := do
  let divisor ← sum slots 1
  let fitting ← quotient bufferSize divisor
  sum 1 fitting

/-- The first of some numbers of slots whose threshold the chunk size reaches, none after it being
computed. -/
def firstReachedChecked (chunkSize bufferSize : Nat) : List Nat → Except Slip (Option Nat)
  | [] => return none
  | slots :: rest => do
    let threshold ← leastChunkForChecked slots bufferSize
    if threshold ≤ chunkSize then return some slots
    else firstReachedChecked chunkSize bufferSize rest

/-- `Slab.capacity`. -/
def capacityChecked (chunkSize bufferSize : Nat) : Except Slip Nat := do
  let threshold ← leastChunkForChecked 8 bufferSize
  if threshold ≤ chunkSize then
    let reached ← firstReachedChecked chunkSize bufferSize (List.range' fewest 4)
    return reached.getD 8
  else
    let threshold ← leastChunkForChecked (most - 1) bufferSize
    if chunkSize < threshold then return most
    else quotient bufferSize chunkSize

section words
variable {bufferSize : Nat} (hword : bufferSize < 0x10000000000000000)
include hword

theorem leastChunkForChecked_eq {slots : Nat} (hpos : 0 < slots) (hslots : slots ≤ most) :
    leastChunkForChecked slots bufferSize = .ok (leastChunkFor slots bufferSize) := by
  unfold most at hslots
  -- at least two chunks are asked for, so what is left of the buffer size leaves room for one more
  have hhalf : bufferSize / (slots + 1) ≤ bufferSize / 2 :=
    Nat.div_le_div_left (by omega) (by decide)
  have hfit : 1 + bufferSize / (slots + 1) < 0x10000000000000000 := by omega
  unfold leastChunkForChecked leastChunkFor
  rw [sum_of_lt (by omega : slots + 1 < 0x10000000000000000), ok_bind,
    quotient_of_pos (Nat.succ_pos slots), ok_bind, sum_of_lt hfit]

theorem firstReachedChecked_eq (chunkSize : Nat) {candidates : List Nat}
    (h : ∀ slots ∈ candidates, 0 < slots ∧ slots ≤ most) :
    firstReachedChecked chunkSize bufferSize candidates
      = .ok (candidates.find? fun slots => leastChunkFor slots bufferSize ≤ chunkSize) := by
  induction candidates with
  | nil => rfl
  | cons slots rest ih =>
    obtain ⟨hpos, hle⟩ := h slots List.mem_cons_self
    have hrest := ih fun other hother => h other (List.mem_cons_of_mem slots hother)
    unfold firstReachedChecked
    rw [leastChunkForChecked_eq hword hpos hle, ok_bind]
    by_cases hreached : leastChunkFor slots bufferSize ≤ chunkSize
    · rw [if_pos hreached, List.find?_cons_of_pos (by simpa using hreached)]
      rfl
    · rw [if_neg hreached, List.find?_cons_of_neg (by simpa using hreached), hrest]

/-- **The search has no slips.**  No threshold is too large for a word, and it is divided by the
chunk size only above a threshold, which no chunk of no bytes is. -/
theorem capacityChecked_eq (chunkSize : Nat) :
    capacityChecked chunkSize bufferSize = .ok (capacity chunkSize bufferSize) := by
  have hcandidates : ∀ slots ∈ List.range' fewest 4, 0 < slots ∧ slots ≤ most := by decide
  unfold capacityChecked capacity
  rw [leastChunkForChecked_eq hword (by decide) (by decide : 8 ≤ most), ok_bind]
  by_cases hfew : leastChunkFor 8 bufferSize ≤ chunkSize
  · rw [if_pos hfew, if_pos hfew, firstReachedChecked_eq hword chunkSize hcandidates, ok_bind]
    rfl
  · rw [if_neg hfew, if_neg hfew,
      leastChunkForChecked_eq hword (by decide) (by decide : most - 1 ≤ most), ok_bind]
    by_cases hmany : chunkSize < leastChunkFor (most - 1) bufferSize
    · rw [if_pos hmany, if_pos hmany]
      rfl
    · have hpos : 0 < chunkSize :=
        Nat.lt_of_lt_of_le (leastChunkFor_pos (most - 1) bufferSize) (Nat.not_lt.mp hmany)
      rw [if_neg hmany, if_neg hmany, quotient_of_pos hpos]

end words

/-- The number of slots, for a buffer size. -/
structure Clamped (bufferSize : Nat) : Prop where
  /-- It is a division, clamped. -/
  capacity_eq : ∀ chunkSize, 1 ≤ chunkSize →
    capacity chunkSize bufferSize = max 4 (min 127 (bufferSize / chunkSize))
  antitone : ∀ small large, small ≤ large →
    capacity large bufferSize ≤ capacity small bufferSize
  mono : ∀ larger, bufferSize ≤ larger →
    ∀ chunkSize, capacity chunkSize bufferSize ≤ capacity chunkSize larger
  mem_Icc : ∀ chunkSize, capacity chunkSize bufferSize ∈ Set.Icc 4 127
  slab_le : ∀ chunkSize,
    capacity chunkSize bufferSize * chunkSize ≤ max bufferSize (4 * chunkSize)
  /-- On words no sum is too large, and no divisor is zero, -/
  checked : bufferSize < 0x10000000000000000 → ∀ chunkSize,
    capacityChecked chunkSize bufferSize = .ok (capacity chunkSize bufferSize)
  /-- not even that of chunks without bytes. -/
  checked_zero : bufferSize < 0x10000000000000000 → capacityChecked 0 bufferSize = .ok 127

/-- **The number of slots is a clamped division**, whatever the buffer size. -/
theorem clamped_capacity (bufferSize : Nat) : Clamped bufferSize where
  capacity_eq chunkSize hpos := Slab.capacity_eq hpos bufferSize
  antitone small large hle := capacity_antitone bufferSize hle
  mono larger hle chunkSize := capacity_mono chunkSize hle
  mem_Icc chunkSize := capacity_mem_Icc chunkSize bufferSize
  slab_le chunkSize := capacity_mul_le chunkSize bufferSize
  checked hword chunkSize := capacityChecked_eq hword chunkSize
  checked_zero hword := by
    have hchecked := capacityChecked_eq hword 0
    rw [capacity_zero] at hchecked
    exact hchecked

example : (List.range' 1 9).map (fun chunkSize => capacity chunkSize 40)
    = [40, 20, 13, 10, 8, 6, 5, 5, 4] := by decide

end Slab

end HandleHeap
