import HandleHeap.Proofs.Ranges
import HandleHeap.Proofs.Transfers
import HandleHeap.Proofs.Windows

/-!
# Elements of arrays

Values that lie back to back in an allocation, transferred as one array or one by one.

* `Scalar.putEach`, `Scalar.putEach_perm`: values that are written to a buffer one by one, in any
  order, are written as one run of bytes;
* `Handle.element`, `Heap.storeEach`: the handles of the values, and a store for each of them;
* `Session.Sound.toInt_element`: within an allocation none of these handles wraps;
* `Session.ElementWise`, `Session.elementWise_after`: arrays agree with their elements.
-/

namespace HandleHeap

/-! ### Buffers -/

namespace Buffer

theorem take_drop_read (buffer : Buffer) (start : Nat) {length i n : Nat} (h : i + n ≤ length) :
    ((buffer.read start length).drop i).take n = buffer.read (start + i) n := by
  refine List.ext_getElem ?_ fun k hk hk' => ?_
  · rw [List.length_take, List.length_drop, length_read, length_read]
    omega
  · rw [List.getElem_take, List.getElem_drop, getElem_read, getElem_read, Nat.add_assoc]

/-- What was written is read. -/
theorem read_put (buffer : Buffer) {start length : Nat} {bytes : List UInt8}
    (hlength : bytes.length = length) (h : start + length ≤ buffer.size) :
    (buffer.put start bytes).read start length = bytes := by
  refine List.ext_getElem ((length_read _ _ _).trans hlength.symm) fun k hk hk' => ?_
  rw [getElem_read, get_put_within buffer (by omega), if_pos (by omega), Nat.add_sub_cancel_left,
    List.getElem?_eq_getElem hk']
  rfl

end Buffer

namespace Scalar

variable (scalar : Scalar) (order : ByteOrder) (start : Nat)

/-- A value of an array lies within it, and does not start at its end. -/
theorem element_lt {i count : Nat} (h : i < count) : i * scalar.width < count * scalar.width ∧
    i * scalar.width + scalar.width ≤ count * scalar.width := by
  have hle := Nat.mul_le_mul_right scalar.width (Nat.succ_le_of_lt h)
  have hpos := scalar.width_pos
  rw [Nat.succ_mul] at hle
  omega

/-- Writes some of the values, each to its place behind `start`, one after the other. -/
def putEach (values : List scalar.Value) (turn : List (Fin values.length)) (buffer : Buffer) :
    Buffer :=
  turn.foldl (fun buffer (i : Fin values.length) =>
    buffer.put (start + i * scalar.width) (scalar.encode order values[i])) buffer

theorem size_putEach (values : List scalar.Value) (turn : List (Fin values.length))
    (buffer : Buffer) : (scalar.putEach order start values turn buffer).size = buffer.size := by
  induction turn generalizing buffer with
  | nil => rfl
  | cons i turn ih => exact (ih _).trans (Buffer.size_put _ _ _)

/-- The bytes of a value in those of all values. -/
theorem getElem?_flatMap_encode (values : List scalar.Value) {i k : Nat} (hi : i < values.length)
    (hk : k < scalar.width) :
    (values.flatMap (scalar.encode order))[i * scalar.width + k]?
      = (scalar.encode order values[i])[k]? := by
  induction values generalizing i with
  | nil => exact absurd hi (Nat.not_lt_zero i)
  | cons value values ih =>
    have hlength := scalar.length_encode order value
    rw [List.flatMap_cons]
    cases i with
    | zero =>
      rw [Nat.zero_mul, Nat.zero_add, List.getElem?_append_left (by omega)]
      rfl
    | succ i =>
      have hback : (i + 1) * scalar.width + k - (scalar.encode order value).length
          = i * scalar.width + k := by
        rw [hlength, Nat.succ_mul]
        omega
      rw [Nat.succ_mul] at hback ⊢
      rw [List.getElem?_append_right (by omega), hback]
      exact ih (Nat.lt_of_succ_lt_succ hi)

/-- Whether a byte belongs to a value behind `start`. -/
def Covers (i j : Nat) : Prop :=
  start + i * scalar.width ≤ j ∧ j < start + i * scalar.width + scalar.width

instance (i j : Nat) : Decidable (scalar.Covers start i j) :=
  inferInstanceAs (Decidable (_ ∧ _))

/-- The bytes of all values follow each other. -/
theorem exists_covers_iff (count j : Nat) : (∃ i : Fin count, scalar.Covers start i j) ↔
    start ≤ j ∧ j < start + count * scalar.width := by
  constructor
  · rintro ⟨i, hlow, hhigh⟩
    have hle := (scalar.element_lt i.isLt).2
    exact ⟨by omega, by omega⟩
  · rintro ⟨hlow, hhigh⟩
    have hlt : (j - start) / scalar.width < count :=
      (Nat.div_lt_iff_lt_mul scalar.width_pos).mpr (by omega)
    have hsplit := Nat.div_add_mod' (j - start) scalar.width
    have hmod := Nat.mod_lt (j - start) scalar.width_pos
    have hcovers : scalar.Covers start ((j - start) / scalar.width) j := ⟨by omega, by omega⟩
    exact ⟨⟨(j - start) / scalar.width, hlt⟩, hcovers⟩

section turns
variable {values : List scalar.Value} {turn : List (Fin values.length)}

/-- A byte belongs to one of the values that were written, or is as before. -/
theorem get_putEach {buffer : Buffer}
    (hroom : start + values.length * scalar.width ≤ buffer.size) (j : Nat) :
    (scalar.putEach order start values turn buffer).get j
      = if ∃ i ∈ turn, scalar.Covers start i j
        then (values.flatMap (scalar.encode order))[j - start]?.getD 0
        else buffer.get j := by
  induction turn generalizing buffer with
  | nil => simp [putEach]
  | cons i turn ih =>
    have hlength := scalar.length_encode order values[i]
    have hle := (scalar.element_lt i.isLt).2
    have hrest : start + values.length * scalar.width ≤ (buffer.put (start + i * scalar.width)
        (scalar.encode order values[i])).size := by
      rw [Buffer.size_put]
      exact hroom
    show (scalar.putEach order start values turn (buffer.put (start + i * scalar.width)
      (scalar.encode order values[i]))).get j = _
    rw [ih hrest, Buffer.get_put_within buffer (by omega), hlength]
    simp only [List.exists_mem_cons_iff]
    by_cases hlater : ∃ i ∈ turn, scalar.Covers start i j
    · rw [if_pos hlater, if_pos (Or.inr hlater)]
    rw [if_neg hlater]
    by_cases hfirst : scalar.Covers start i j
    · obtain ⟨hlow, hhigh⟩ := hfirst
      have hlt : j - (start + i * scalar.width) < scalar.width := by omega
      have hplace : j - start = i * scalar.width + (j - (start + i * scalar.width)) := by omega
      rw [if_pos ⟨hlow, hhigh⟩, if_pos (Or.inl ⟨hlow, hhigh⟩), hplace,
        scalar.getElem?_flatMap_encode order values i.isLt hlt]
      rfl
    · have hnone : ¬ (scalar.Covers start i j ∨ ∃ i ∈ turn, scalar.Covers start i j) :=
        not_or.mpr ⟨hfirst, hlater⟩
      rw [if_neg hnone]
      exact if_neg hfirst

/-- **Values can be written in any order**, as one run of bytes. -/
theorem putEach_perm (h : turn.Perm (List.finRange values.length)) {buffer : Buffer}
    (hroom : start + values.length * scalar.width ≤ buffer.size) :
    scalar.putEach order start values turn buffer
      = buffer.put start (values.flatMap (scalar.encode order)) := by
  have hlength := length_flatMap_encode scalar order values
  -- all values have their turn, so the byte of any of them belongs to one that was written
  have hall : ∀ j, (∃ i ∈ turn, scalar.Covers start i j) ↔
      start ≤ j ∧ j < start + (values.flatMap (scalar.encode order)).length := fun j => by
    rw [hlength, ← scalar.exists_covers_iff start values.length j]
    simp only [h.mem_iff, List.mem_finRange, true_and]
  refine Buffer.ext ((scalar.size_putEach order start values turn buffer).trans
    (Buffer.size_put _ _ _).symm) fun j => ?_
  rw [scalar.get_putEach order start hroom, Buffer.get_put_within buffer (by omega)]
  simp only [hall]

end turns

/-- From a run of bytes that is filled by values every value is read. -/
theorem decodeInto_of_length {bytes : List UInt8} {into : List scalar.Value}
    (h : bytes.length = into.length * scalar.width) :
    scalar.decodeInto order bytes into = (List.range into.length).map fun i =>
      scalar.decode order ((bytes.drop (i * scalar.width)).take scalar.width) := by
  have hcount : scalar.fitting into.length bytes = into.length := by
    rw [fitting, h, Nat.mul_div_cancel _ scalar.width_pos, Nat.min_self]
  rw [decodeInto_eq, hcount, List.drop_length, List.append_nil]

/-- What was written is read into a list of the same length. -/
theorem decodeInto_flatMap_encode {values into : List scalar.Value}
    (h : into.length = values.length) :
    scalar.decodeInto order (values.flatMap (scalar.encode order)) into = values := by
  induction values generalizing into with
  | nil => rw [List.eq_nil_of_length_eq_zero h]; rfl
  | cons value rest ih =>
    obtain ⟨old, others, rfl⟩ := List.exists_cons_of_length_eq_add_one h
    have hwidth : scalar.width ≤ ((value :: rest).flatMap (scalar.encode order)).length := by
      rw [length_flatMap_encode, List.length_cons, Nat.succ_mul]
      exact Nat.le_add_left _ _
    rw [decodeInto_cons hwidth, List.flatMap_cons, decode_append,
      List.drop_left' (length_encode scalar order value), ih (Nat.succ.inj h)]

end Scalar

/-! ### Elements of an array -/

/-- The handle of one of the values that lie back to back from a handle on. -/
def Handle.element (handle : Handle) (scalar : Scalar) (i : Nat) : Handle :=
  handle + Int64.ofNat (i * scalar.width)

/-- A positive handle that is positive after it was moved on was moved by as much as was added. -/
theorem Handle.toInt_add_of_pos {handle : Handle} {length : Nat} (h : 0 < handle.toInt)
    (hend : handle.toInt + length ≤ 0x8000000000000000)
    (hpos : 0 < (handle + Int64.ofNat length).toInt) :
    (handle + Int64.ofNat length).toInt = handle.toInt + length := by
  have hlength : (Int64.ofNat length).toInt = length := Int64.toInt_ofNat_of_lt (by omega)
  rw [Int64.toInt_add, hlength, Int.bmod_def] at hpos ⊢
  omega

namespace Heap

/-- Stores some of the values, each at its own handle, one after the other. -/
def storeEach (heap : Heap) (scalar : Scalar) (order : ByteOrder) (handle : Handle)
    (values : List scalar.Value) (turn : List (Fin values.length)) : Except HeapError Heap :=
  turn.foldlM (fun heap (i : Fin values.length) =>
    heap.store scalar order (handle.element scalar i) values[i]) heap

section elements
variable {heap next : Heap} {handle : Handle} {scalar : Scalar} (order : ByteOrder) {i : Nat}

/-- Stores inside a window are writes to its buffer. -/
theorem Window.storeEach_eq {values : List scalar.Value}
    (w : heap.Window handle (values.length * scalar.width)) {content : Buffer}
    (hsize : content.size = w.buffer.size) (turn : List (Fin values.length)) :
    (w.around content).storeEach scalar order handle values turn
      = .ok (w.around (scalar.putEach order w.start values turn content)) := by
  induction turn generalizing content with
  | nil => rfl
  | cons i turn ih =>
    obtain ⟨hlt, hle⟩ := scalar.element_lt i.isLt
    have hlength := scalar.length_encode order values[i]
    have hstore : (w.around content).store scalar order (handle.element scalar i) values[i]
        = .ok (w.around (content.put (w.start + i * scalar.width)
            (scalar.encode order values[i]))) :=
      w.write_eq content hsize _ hlt _ (by omega)
    unfold storeEach
    rw [List.foldlM_cons, hstore]
    exact ih ((Buffer.size_put _ _ _).trans hsize)

variable {values into out : List scalar.Value}

theorem length_loadArray (h : heap.loadArray scalar order handle into = .ok out) :
    out.length = into.length := by
  unfold loadArray at h
  rcases hread : heap.read handle (into.length * scalar.width) with e | bytes <;>
    rw [hread] at h <;> cases h
  exact scalar.length_decodeInto order bytes into

variable (hv : heap.Valid)
include hv

/-- What storing an array does, seen through a window. -/
theorem Valid.exists_stored (hne : values ≠ [])
    (h : heap.storeArray scalar order handle values = .ok next) :
    ∃ w : heap.Window handle (values.length * scalar.width),
      next = w.around (w.buffer.put w.start (values.flatMap (scalar.encode order))) := by
  have hlength := scalar.length_flatMap_encode order values
  have hpos := Nat.mul_pos (List.length_pos_iff.mpr hne) scalar.width_pos
  have hcheck := checkRange_of_write h
  rw [hlength] at hcheck
  obtain ⟨w⟩ := hv.nonempty_window hcheck
  have hwrite := w.write_all hpos rfl hlength
  rw [w.around_buffer] at hwrite
  exact ⟨w, Except.ok.inj (h.symm.trans hwrite)⟩

/-- **An array is stored** as its values are, one by one and in any order. -/
theorem Valid.storeEach_eq (hne : values ≠ [])
    (h : heap.storeArray scalar order handle values = .ok next) {turn : List (Fin values.length)}
    (hturn : turn.Perm (List.finRange values.length)) :
    heap.storeEach scalar order handle values turn = .ok next := by
  obtain ⟨w, rfl⟩ := hv.exists_stored order hne h
  have heach := w.storeEach_eq order rfl turn
  rw [w.around_buffer, scalar.putEach_perm order w.start hturn w.room] at heach
  exact heach

/-- **What was stored is loaded.** -/
theorem Valid.loadArray_eq (hne : values ≠ [])
    (h : heap.storeArray scalar order handle values = .ok next)
    (hinto : into.length = values.length) :
    next.loadArray scalar order handle into = .ok values := by
  obtain ⟨w, rfl⟩ := hv.exists_stored order hne h
  have hlength := scalar.length_flatMap_encode order values
  have hpos := Nat.mul_pos (List.length_pos_iff.mpr hne) scalar.width_pos
  unfold loadArray
  rw [hinto, w.read_all hpos (Buffer.size_put _ _ _), Buffer.read_put _ hlength w.room]
  exact congrArg Except.ok (scalar.decodeInto_flatMap_encode order hinto)

/-- **An array is loaded** as its values are. -/
theorem Valid.load_eq (hne : into ≠ [])
    (h : heap.loadArray scalar order handle into = .ok out) (hi : i < out.length) :
    heap.load scalar order (handle.element scalar i) = .ok out[i] := by
  have hpos := Nat.mul_pos (List.length_pos_iff.mpr hne) scalar.width_pos
  unfold loadArray at h
  rcases hread : heap.read handle (into.length * scalar.width) with e | bytes
  · rw [hread] at h
    cases h
  obtain ⟨w⟩ := hv.nonempty_window (checkRange_of_read hread)
  have hbytes := w.read_all hpos rfl
  rw [w.around_buffer, hread] at hbytes
  obtain rfl := Except.ok.inj hbytes
  rw [hread] at h
  obtain rfl : _ = out := Except.ok.inj h
  rw [Scalar.length_decodeInto] at hi
  obtain ⟨hlt, hle⟩ := scalar.element_lt hi
  have hload := w.read_eq w.buffer rfl _ hlt scalar.width hle
  rw [w.around_buffer] at hload
  unfold load
  show (heap.read (handle + Int64.ofNat (i * scalar.width)) scalar.width).map _ = _
  rw [hload]
  simp only [scalar.decodeInto_of_length order (Buffer.length_read _ _ _), List.getElem_map,
    List.getElem_range, Buffer.take_drop_read _ _ hle]
  rfl

end elements

end Heap

/-! ### Arrays in a session -/

namespace Session

/-- The handles that a value of an array takes up. -/
def elementRange (handle : Handle) (scalar : Scalar) (i : Nat) : Set Int :=
  Set.Ico (handle.element scalar i).toInt ((handle.element scalar i).toInt + scalar.width)

/-- Transfers of arrays at a handle agree with those of their values one by one. -/
structure ElementWise (s : Session) (scalar : Scalar) (order : ByteOrder) (handle : Handle) :
    Prop where
  /-- An array is stored as its values are, in any order. -/
  storeEach_eq : ∀ values next, values ≠ [] →
    s.heap.storeArray scalar order handle values = .ok next →
    ∀ turn : List (Fin values.length), turn.Perm (List.finRange values.length) →
      s.heap.storeEach scalar order handle values turn = .ok next
  /-- An array is loaded as its values are. -/
  load_eq : ∀ into out, into ≠ [] → s.heap.loadArray scalar order handle into = .ok out →
    out.length = into.length ∧ ∀ i (h : i < out.length),
      s.heap.load scalar order (handle.element scalar i) = .ok out[i]
  /-- What was stored is loaded. -/
  loadArray_eq : ∀ values into next, values ≠ [] → into.length = values.length →
    s.heap.storeArray scalar order handle values = .ok next →
    next.loadArray scalar order handle into = .ok values
  /-- Values that lie in one live allocation can be stored as an array. -/
  exists_storeArray : ∀ values, values ≠ [] →
    (∃ b ∈ s.live, ∀ i < values.length, elementRange handle scalar i ⊆ b.range) →
    ∃ next, s.heap.storeArray scalar order handle values = .ok next
  /-- They can be loaded as one. -/
  exists_loadArray : ∀ into, into ≠ [] →
    (∃ b ∈ s.live, ∀ i < into.length, elementRange handle scalar i ⊆ b.range) →
    ∃ out, s.heap.loadArray scalar order handle into = .ok out

section sound
variable {s : Session} (hs : s.Sound) {b : Allocation} (hb : b ∈ s.live) {handle : Handle}
  {scalar : Scalar} {count : Nat} (h : ∀ i < count, elementRange handle scalar i ⊆ b.range)
include hs hb h

theorem Sound.element_mem {i : Nat} (hi : i < count) :
    b.base.toInt ≤ (handle.element scalar i).toInt ∧
      (handle.element scalar i).toInt + scalar.width ≤ b.base.toInt + b.size ∧
      0 < (handle.element scalar i).toInt ∧
      (handle.element scalar i).toInt + scalar.width ≤ 0x8000000000000000 := by
  have hwidth := scalar.width_pos
  have hne : (handle.element scalar i).toInt < (handle.element scalar i).toInt + scalar.width := by
    omega
  obtain ⟨hlow, hhigh⟩ := (Set.Ico_subset_Ico_iff hne).mp (h i hi)
  obtain ⟨hpos, hend⟩ := (Set.Ico_subset_Ico_iff hne).mp ((h i hi).trans (hs.range_subset hb))
  exact ⟨hlow, hhigh, hpos, hend⟩

/-- Values that lie in one live allocation lie back to back: none of their handles wraps. -/
theorem Sound.toInt_element {i : Nat} (hi : i < count) :
    (handle.element scalar i).toInt = handle.toInt + ↑(i * scalar.width) := by
  induction i with
  | zero =>
    unfold Handle.element
    rw [Nat.zero_mul, show handle + Int64.ofNat 0 = handle from Int64.add_zero handle]
    exact (Int.add_zero _).symm
  | succ i ih =>
    have hnext : handle.element scalar (i + 1)
        = handle.element scalar i + Int64.ofNat scalar.width := by
      unfold Handle.element
      rw [Nat.succ_mul, Int64.ofNat_add, Int64.add_assoc]
    obtain ⟨-, -, hpos, hend⟩ := hs.element_mem hb h (Nat.lt_of_succ_lt hi)
    obtain ⟨-, -, hpos', -⟩ := hs.element_mem hb h hi
    rw [hnext] at hpos' ⊢
    rw [Handle.toInt_add_of_pos hpos hend hpos', ih (Nat.lt_of_succ_lt hi), Nat.succ_mul]
    omega

/-- They make up one range. -/
theorem Sound.checkRange_of_elements (hcount : 0 < count) :
    s.heap.checkRange handle (count * scalar.width) = .ok () := by
  have hpos := Nat.mul_pos hcount scalar.width_pos
  have hlast : count - 1 < count := by omega
  obtain ⟨hlow, -, -, -⟩ := hs.element_mem hb h hcount
  obtain ⟨-, hhigh, -, -⟩ := hs.element_mem hb h hlast
  rw [hs.toInt_element hb h hcount, Nat.zero_mul] at hlow
  rw [hs.toInt_element hb h hlast] at hhigh
  have hwhole : (count - 1) * scalar.width + scalar.width = count * scalar.width := by
    rw [← Nat.succ_mul, Nat.succ_eq_add_one, Nat.sub_add_cancel hcount]
  exact (hs.exists_range_iff hpos).mp ⟨b, hb, Set.Ico_subset_Ico (by omega) (by omega)⟩

end sound

theorem Sound.elementWise {s : Session} (hs : s.Sound) (scalar : Scalar) (order : ByteOrder)
    (handle : Handle) : s.ElementWise scalar order handle := by
  refine ⟨fun values next hne h turn hturn => ?_, fun into out hne h => ?_,
    fun values into next hne hlength h => ?_, fun values hne ⟨b, hb, h⟩ => ?_,
    fun into hne ⟨b, hb, h⟩ => ?_⟩
  · exact hs.valid.storeEach_eq order hne h hturn
  · exact ⟨Heap.length_loadArray order h, fun i hi => hs.valid.load_eq order hne h hi⟩
  · exact hs.valid.loadArray_eq order hne h hlength
  · have hcheck := hs.checkRange_of_elements hb h (List.length_pos_iff.mpr hne)
    rw [← scalar.length_flatMap_encode order values] at hcheck
    obtain ⟨next, hwrite, -⟩ := hs.valid.exists_write hcheck
    exact ⟨next, hwrite⟩
  · have hcheck := hs.checkRange_of_elements hb h (List.length_pos_iff.mpr hne)
    unfold Heap.loadArray
    rw [Heap.read_eq, hcheck]
    exact ⟨_, rfl⟩

/-- **Arrays are transferred as their values are.**  After any calls, for values of any type in
either byte order at any handle: an array that can be stored is stored as its values are one by one,
in whatever order they have their turns; one that can be loaded holds what is loaded one by one;
what was stored is loaded; and values that lie in one live allocation can be stored and loaded. -/
theorem elementWise_after {settings : Settings} (h : settings.validate = .ok ()) (calls : List Call)
    (scalar : Scalar) (order : ByteOrder) (handle : Handle) :
    (after settings calls).ElementWise scalar order handle :=
  (sound_after h calls).elementWise scalar order handle

/-- Two integers that end with a chunk, of which the second one is stored first. -/
theorem elementWise_after_paired : ∃ next,
    (after {} paired).heap.storeArray .int .big (.ofSlot 15 0 1 + 8) [7, -7] = .ok next ∧
      (after {} paired).heap.storeEach .int .big (.ofSlot 15 0 1 + 8) [7, -7] [1, 0] = .ok next ∧
      next.loadArray .int .big (.ofSlot 15 0 1 + 8) [0, 0] = .ok [7, -7] := by
  have hwise := @elementWise_after {} rfl paired .int .big (.ofSlot 15 0 1 + 8)
  have hinside : ∀ i < 2, elementRange (.ofSlot 15 0 1 + 8) .int i
      ⊆ Allocation.range ⟨.ofSlot 15 0 1, 16⟩ := by
    intro i hi
    obtain rfl | rfl : i = 0 ∨ i = 1 := by omega
    · exact Set.Ico_subset_Ico (by decide +kernel) (by decide +kernel)
    · exact Set.Ico_subset_Ico (by decide +kernel) (by decide +kernel)
  have hne : ([7, -7] : List Scalar.int.Value) ≠ [] := List.cons_ne_nil _ _
  obtain ⟨next, hnext⟩ := hwise.exists_storeArray [7, -7] hne
    ⟨⟨.ofSlot 15 0 1, 16⟩, by decide +kernel, hinside⟩
  exact ⟨next, hnext, hwise.storeEach_eq [7, -7] next hne hnext [1, 0] (List.Perm.swap _ _ _),
    hwise.loadArray_eq [7, -7] [0, 0] next hne rfl hnext⟩

end Session

end HandleHeap
