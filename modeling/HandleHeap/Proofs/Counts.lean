import Mathlib

/-!
# Counts

Totals and counts over a list are sums over its indices, and a count that goes up and down in a run
has a peak.

* `sum_map_eq_sum_range`, `count_true_eq_card`: totals and counts as sums and cardinalities;
* `sum_range_add_point`: a sum in which one term has grown;
* `sum_countP_mul`: the weight of a list, counted under each of some keys;
* `perm_cons_filter`: a list with an entry for each key, as the entry of one key and the others;
* `levels`, `isGreatest_levels_concat`: the values that a count takes in the course of a run; the
  greatest of them is the peak, which a further call raises or leaves as it is;
* `ceilDiv_max_of_lt`, `ceilDiv_max_of_full`: how many units of one size hold a peak, and when one
  more is needed.
-/

namespace HandleHeap

/-! ### Sums over indices -/

theorem sum_map_eq_sum_range {α : Type} (f : α → Nat) (xs : List α) :
    (xs.map f).sum = ∑ i ∈ Finset.range xs.length, (xs[i]?.map f).getD 0 := by
  induction xs with
  | nil => rfl
  | cons x xs ih =>
    rw [List.map_cons, List.sum_cons, ih, List.length_cons, Finset.sum_range_succ', Nat.add_comm]
    rfl

theorem count_true_eq_card (flags : List Bool) :
    flags.count true =
      ((Finset.range flags.length).filter fun i => flags[i]?.getD false = true).card := by
  rw [Finset.card_filter]
  induction flags with
  | nil => rfl
  | cons flag flags ih =>
    rw [List.count_cons, ih, List.length_cons, Finset.sum_range_succ']
    cases flag <;> simp

theorem sum_range_add_point {f g : Nat → Nat} {position n k : Nat}
    (h : ∀ i, g i = f i + if i = position then n else 0) (hlt : position < k) :
    ∑ i ∈ Finset.range k, g i = (∑ i ∈ Finset.range k, f i) + n := by
  have hpoint : (∑ i ∈ Finset.range k, if i = position then n else 0) = n := by
    rw [Finset.sum_ite_eq', if_pos (Finset.mem_range.mpr hlt)]
  rw [Finset.sum_congr rfl fun i _ => h i, Finset.sum_add_distrib, hpoint]

/-- **Totals by key.**  Counted under each key and weighed there, the entries of a list add up to
what those with a key weigh. -/
theorem sum_countP_mul {α : Type} (key : α → Nat) (weight : Nat → Nat) (xs : List α)
    {keys : List Nat} (h : keys.Nodup) :
    (keys.map fun k => xs.countP (fun x => key x = k) * weight k).sum
      = ((xs.filter fun x => key x ∈ keys).map fun x => weight (key x)).sum := by
  rw [show (keys.map fun k => xs.countP (fun x => key x = k) * weight k).sum
    = ∑ k ∈ keys.toFinset, xs.countP (fun x => key x = k) * weight k from
      (List.sum_toFinset _ h).symm]
  induction xs with
  | nil => simp
  | cons x xs ih =>
    have hpoint : ∀ k, (x :: xs).countP (fun x => key x = k) * weight k
        = xs.countP (fun x => key x = k) * weight k + if key x = k then weight k else 0 := by
      intro k
      rw [List.countP_cons, Nat.add_mul]
      by_cases hk : key x = k <;> simp [hk]
    rw [Finset.sum_congr rfl fun k _ => hpoint k, Finset.sum_add_distrib, ih, Finset.sum_ite_eq]
    by_cases hx : key x ∈ keys
    · rw [if_pos (List.mem_toFinset.mpr hx), List.filter_cons_of_pos (by simpa using hx),
        List.map_cons, List.sum_cons, Nat.add_comm]
    · rw [if_neg (fun hmem => hx (List.mem_toFinset.mp hmem)),
        List.filter_cons_of_neg (by simpa using hx), Nat.add_zero]

theorem sum_le_mul {counts : List Nat} {k n : Nat} (hlength : counts.length ≤ k)
    (h : ∀ count ∈ counts, count ≤ n) : counts.sum ≤ k * n :=
  (List.sum_le_card_nsmul counts n h).trans (Nat.mul_le_mul_right n hlength)

/-! ### Entries under keys -/

/-- Where no key has two entries, a list is one of its entries beside those of the other keys. -/
theorem perm_cons_filter {α β : Type} [DecidableEq α] {entries : List (α × β)}
    (hnodup : (entries.map Prod.fst).Nodup) {key : α} {value : β} (hmem : (key, value) ∈ entries) :
    entries.Perm ((key, value) :: entries.filter fun entry => entry.1 ≠ key) := by
  have hothers : (key, value) ∉ entries.filter fun entry => entry.1 ≠ key := by simp
  refine (List.perm_ext_iff_of_nodup hnodup.of_map
    (List.nodup_cons.mpr ⟨hothers, hnodup.of_map.filter _⟩)).mpr fun entry => ?_
  rw [List.mem_cons, List.mem_filter, decide_eq_true_iff]
  constructor
  · intro hentry
    by_cases hkey : entry.1 = key
    · exact Or.inl (List.inj_on_of_nodup_map hnodup hentry hmem hkey)
    · exact Or.inr ⟨hentry, hkey⟩
  · rintro (rfl | ⟨hentry, -⟩)
    · exact hmem
    · exact hentry

/-! ### Peaks -/

section levels
variable {α : Type} {count : List α → Nat} {calls : List α} {peak : Nat}

/-- The values that a count takes in the course of a run, from before its first call to after its
last one. -/
def levels (count : List α → Nat) (calls : List α) : Set Nat :=
  {level | ∃ past, past <+: calls ∧ count past = level}

theorem isGreatest_levels_nil : IsGreatest (levels count []) (count []) := by
  refine ⟨⟨[], List.prefix_rfl, rfl⟩, ?_⟩
  rintro level ⟨past, hpast, rfl⟩
  rw [List.prefix_nil.mp hpast]

/-- **A further call** raises the peak to the count after it, or leaves the peak as it is. -/
theorem isGreatest_levels_concat (h : IsGreatest (levels count calls) peak) (call : α) :
    IsGreatest (levels count (calls ++ [call])) (max peak (count (calls ++ [call]))) := by
  constructor
  · rcases Nat.le_total (count (calls ++ [call])) peak with hle | hle
    · rw [Nat.max_eq_left hle]
      obtain ⟨past, hpast, hcount⟩ := h.1
      exact ⟨past, hpast.trans (List.prefix_append _ _), hcount⟩
    · rw [Nat.max_eq_right hle]
      exact ⟨_, List.prefix_rfl, rfl⟩
  · rintro level ⟨past, hpast, rfl⟩
    rcases List.prefix_concat_iff.mp hpast with rfl | hbefore
    · exact Nat.le_max_right _ _
    · exact Nat.le_trans (h.2 ⟨past, hbefore, rfl⟩) (Nat.le_max_left _ _)

end levels

/-! ### Units that hold a peak -/

theorem ceilDiv_pos {per peak : Nat} (hper : 0 < per) (hpeak : 0 < peak) : 0 < peak ⌈/⌉ per := by
  by_contra hzero
  have hle := (ceilDiv_le_iff_le_mul hper).mp (Nat.le_of_not_lt hzero)
  omega

section units
variable {peak count per units : Nat} (hper : 0 < per) (hunits : peak ⌈/⌉ per = units)
  (hcount : count ≤ peak)
include hper hunits

/-- One more that fits into the units there are needs no other unit. -/
theorem ceilDiv_max_of_lt (hfit : count + 1 ≤ units * per) :
    max peak (count + 1) ⌈/⌉ per = units := by
  have hpeak : peak ≤ per * units := (ceilDiv_le_iff_le_mul hper).mp (Nat.le_of_eq hunits)
  rw [Nat.mul_comm] at hfit
  refine Nat.le_antisymm ((ceilDiv_le_iff_le_mul hper).mpr (Nat.max_le.mpr ⟨hpeak, hfit⟩)) ?_
  rw [← hunits, ceilDiv_le_iff_le_mul hper]
  exact Nat.le_trans (Nat.le_max_left _ _)
    ((ceilDiv_le_iff_le_mul hper).mp (Nat.le_refl (max peak (count + 1) ⌈/⌉ per)))

include hcount

/-- When all units are full, one more needs exactly one other unit. -/
theorem ceilDiv_max_of_full (hfull : count = units * per) :
    max peak (count + 1) ⌈/⌉ per = units + 1 := by
  have hpeak : peak ≤ per * units := (ceilDiv_le_iff_le_mul hper).mp (Nat.le_of_eq hunits)
  rw [Nat.mul_comm] at hfull
  have heq : max peak (count + 1) = per * units + 1 := by omega
  rw [heq, Nat.ceilDiv_eq_add_pred_div, Nat.add_right_comm, Nat.add_sub_cancel,
    Nat.add_div_right _ hper, Nat.mul_div_cancel_left _ hper]

end units

end HandleHeap
