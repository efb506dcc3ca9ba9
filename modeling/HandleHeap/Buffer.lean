import Std.Data.ExtTreeMap

/-!
# Buffers

A run of bytes of a fixed size that starts out as zeros.  Only the bytes that differ from zero are
stored, so a fresh buffer costs the same whatever its size, and two buffers with the same bytes are
the same value (`Buffer.ext`).

Main statements:

* `get_zeroed`: every byte of a fresh buffer is zero;
* `get_set`, `get_put`: a write changes the bytes it covers and no others;
* `length_read`, `getElem_read`: reading gives the bytes in order.
-/

namespace HandleHeap

/-- A run of `size` bytes, given by those that are not zero. -/
structure Buffer where
  /-- The number of bytes. -/
  size : Nat
  /-- The bytes that are not zero, by position. -/
  marked : Std.ExtTreeMap Nat UInt8
  /-- Every stored byte lies inside the buffer. -/
  lt_size : ∀ i : Nat, marked[i]? ≠ none → i < size
  /-- No zero is stored. -/
  ne_zero : ∀ i : Nat, marked[i]? ≠ some 0

namespace Buffer

/-- A buffer of zeros. -/
def zeroed (size : Nat) : Buffer where
  size := size
  marked := ∅
  lt_size := by simp
  ne_zero := by simp

/-- The byte at a position, zero outside the buffer. -/
def get (buffer : Buffer) (i : Nat) : UInt8 := buffer.marked[i]?.getD 0

/-- Replaces one byte; outside the buffer nothing happens. -/
def set (buffer : Buffer) (i : Nat) (value : UInt8) : Buffer :=
  if inside : i < buffer.size then
    if zero : value = 0 then
      { size := buffer.size
        marked := buffer.marked.erase i
        lt_size := by
          intro j
          rw [Std.ExtTreeMap.getElem?_erase]
          split
          · simp
          · exact buffer.lt_size j
        ne_zero := by
          intro j
          rw [Std.ExtTreeMap.getElem?_erase]
          split
          · simp
          · exact buffer.ne_zero j }
    else
      { size := buffer.size
        marked := buffer.marked.insert i value
        lt_size := by
          intro j
          rw [Std.ExtTreeMap.getElem?_insert]
          split
          · rename_i same
            simpa [← Std.LawfulEqOrd.eq_of_compare same] using inside
          · exact buffer.lt_size j
        ne_zero := by
          intro j
          rw [Std.ExtTreeMap.getElem?_insert]
          split
          · simpa using zero
          · exact buffer.ne_zero j }
  else
    buffer

/-- Replaces the bytes from a position on. -/
def put (buffer : Buffer) (start : Nat) : List UInt8 → Buffer
  | [] => buffer
  | value :: rest => (buffer.set start value).put (start + 1) rest

/-- The bytes from a position on. -/
def read (buffer : Buffer) (start length : Nat) : List UInt8 :=
  (List.range' start length).map buffer.get

/-- All bytes. -/
def toList (buffer : Buffer) : List UInt8 := buffer.read 0 buffer.size

@[simp] theorem size_zeroed (size : Nat) : (zeroed size).size = size := rfl

@[simp] theorem get_zeroed (size i : Nat) : (zeroed size).get i = 0 := by
  simp [zeroed, get]

theorem get_of_size_le {buffer : Buffer} {i : Nat} (h : buffer.size ≤ i) : buffer.get i = 0 := by
  have hnone : buffer.marked[i]? = none :=
    Decidable.byContradiction fun hsome => absurd (buffer.lt_size i hsome) (Nat.not_lt.mpr h)
  simp [get, hnone]

@[simp] theorem size_set (buffer : Buffer) (i : Nat) (value : UInt8) :
    (buffer.set i value).size = buffer.size := by
  unfold set
  split
  · split <;> rfl
  · rfl

theorem get_set (buffer : Buffer) (i : Nat) (value : UInt8) (j : Nat) :
    (buffer.set i value).get j = if i = j ∧ i < buffer.size then value else buffer.get j := by
  unfold set
  split
  · rename_i inside
    split
    · rename_i zero
      simp only [get, Std.ExtTreeMap.getElem?_erase, Nat.compare_eq_eq, inside, and_true]
      split <;> simp [zero]
    · simp only [get, Std.ExtTreeMap.getElem?_insert, Nat.compare_eq_eq, inside, and_true]
      split <;> simp
  · rename_i outside
    simp [outside]

@[simp] theorem size_put (buffer : Buffer) (start : Nat) (bytes : List UInt8) :
    (buffer.put start bytes).size = buffer.size := by
  induction bytes generalizing buffer start with
  | nil => rfl
  | cons value rest ih => simp [put, ih]

/-- A write changes exactly the bytes it covers. -/
theorem get_put (buffer : Buffer) (start : Nat) (bytes : List UInt8) (j : Nat)
    (hj : j < buffer.size) :
    (buffer.put start bytes).get j =
      if start ≤ j then bytes[j - start]?.getD (buffer.get j) else buffer.get j := by
  induction bytes generalizing buffer start with
  | nil => simp [put]
  | cons value rest ih =>
    rw [put, ih (buffer.set start value) (start + 1) (by simpa using hj)]
    rcases Nat.lt_trichotomy start j with hlt | heq | hgt
    · have hsub : j - start = (j - (start + 1)) + 1 := by omega
      have hne : ¬ start = j := by omega
      rw [if_pos (by omega), if_pos (by omega), hsub, List.getElem?_cons_succ, get_set,
        if_neg (fun h => hne h.1)]
    · subst heq
      rw [if_neg (by omega), if_pos (by omega), Nat.sub_self, get_set, if_pos ⟨rfl, hj⟩]
      rfl
    · have hne : ¬ start = j := by omega
      rw [if_neg (by omega), if_neg (by omega), get_set, if_neg (fun h => hne h.1)]

@[simp] theorem length_read (buffer : Buffer) (start length : Nat) :
    (buffer.read start length).length = length := by
  simp [read]

theorem getElem_read (buffer : Buffer) (start length i : Nat)
    (h : i < (buffer.read start length).length) :
    (buffer.read start length)[i] = buffer.get (start + i) := by
  simp [read]

/-- Buffers of one size with the same bytes are equal. -/
theorem ext {left right : Buffer} (hsize : left.size = right.size)
    (hget : ∀ i, left.get i = right.get i) : left = right := by
  have hmarked : left.marked = right.marked := by
    apply Std.ExtTreeMap.ext_getElem?
    intro i
    have hi := hget i
    unfold get at hi
    rcases hl : left.marked[i]? with _ | x <;> rcases hr : right.marked[i]? with _ | y
    · rfl
    · rw [hl, hr] at hi
      exact absurd (hr.trans (congrArg some hi.symm)) (right.ne_zero i)
    · rw [hl, hr] at hi
      exact absurd (hl.trans (congrArg some hi)) (left.ne_zero i)
    · rw [hl, hr] at hi
      exact congrArg some hi
  cases left
  cases right
  cases hsize
  cases hmarked
  rfl

end Buffer

end HandleHeap
