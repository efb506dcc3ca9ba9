import HandleHeap.Heap.Typed
import HandleHeap.Proofs.Allocations

/-!
# Sessions

A session is a heap after some calls, beside the list of what these calls have handed out and not
taken back.  The list is kept from the calls and their answers alone; that the heap agrees with it
is what `Session.Sound` says, and every session is sound.

* `Call`, `Heap.call`: the calls that can change a heap, and their answers;
* `Call.record`: what a call and its answer do to the list of live allocations;
* `Session.next`, `Session.after`: one call, and a run of calls on a fresh heap;
* `Session.Sound.allocate_cases`, `Session.Sound.free_cases`, `Session.Sound.reallocate_cases`,
  `Session.Sound.write_cases`: all that a call can do to a sound session;
* `Session.Sound.next`, `Session.sound_after`: every call keeps a session sound, so every run is.
-/

namespace HandleHeap

/-- A call that can change a heap. -/
inductive Call where
  | allocate (size : Int)
  | reallocate (handle : Handle) (size : Int)
  | free (handle : Handle)
  | fill (handle : Handle) (length : Int) (value : UInt8)
  | store (scalar : Scalar) (order : ByteOrder) (handle : Handle) (value : scalar.Value)
  | copy (source target : Handle) (length : Int)
  | storeArray (scalar : Scalar) (order : ByteOrder) (handle : Handle)
      (values : List scalar.Value)

/-- The answer of a call that answers nothing, beside the heap that it leaves. -/
def Heap.settle (heap : Heap) : Except HeapError Heap → Except HeapError (Option Handle) × Heap
  | .ok next => (.ok none, next)
  | .error e => (.error e, heap)

/-- The answer of a call, beside the heap that it leaves. -/
def Heap.call (heap : Heap) : Call → Except HeapError (Option Handle) × Heap
  | .allocate size => Prod.map (Except.map some) id (heap.allocate size)
  | .reallocate handle size => Prod.map (Except.map some) id (heap.reallocate handle size)
  | .free handle => heap.settle (heap.free handle)
  | .fill handle length value => heap.settle (heap.fill handle length value)
  | .store scalar order handle value => heap.settle (heap.store scalar order handle value)
  | .copy source target length => heap.settle (heap.copy source target length)
  | .storeArray scalar order handle values =>
    heap.settle (heap.storeArray scalar order handle values)

/-- Whether a call changes bytes only. -/
def Call.isWrite : Call → Bool
  | .fill .. | .store .. | .copy .. | .storeArray .. => true
  | .allocate .. | .reallocate .. | .free .. => false

/-- Where a call writes, and the bytes that it writes there.  A copy writes what its source holds
before the call. -/
def Heap.payload (heap : Heap) : Call → Option (Handle × List UInt8)
  | .fill handle length value => some (handle, List.replicate length.toNat value)
  | .store scalar order handle value => some (handle, scalar.encode order value)
  | .copy source target length =>
    match heap.read source length.toNat with
    | .ok bytes => some (target, bytes)
    | .error _ => none
  | .storeArray scalar order handle values =>
    some (handle, values.flatMap (scalar.encode order))
  | .allocate .. | .reallocate .. | .free .. => none

/-- A call that changes bytes only writes its payload, or changes nothing. -/
theorem Heap.call_cases_of_isWrite (heap : Heap) {call : Call} (h : call.isWrite = true) :
    (∃ target bytes, heap.payload call = some (target, bytes) ∧
        heap.call call = heap.settle (heap.write target bytes)) ∨
      ∃ e, heap.call call = (.error e, heap) := by
  cases call with
  | allocate | reallocate | free => cases h
  | store scalar order handle value => exact Or.inl ⟨_, _, rfl, rfl⟩
  | storeArray scalar order handle values => exact Or.inl ⟨_, _, rfl, rfl⟩
  | fill handle length value =>
    by_cases hneg : length < 0
    · right
      refine ⟨.sizeOutOfRange length, ?_⟩
      simp only [call, fill, lengthOf, if_pos hneg, bind, Except.bind, settle]
    rcases hcheck : heap.checkRange handle length.toNat with e | ⟨⟩
    · right
      refine ⟨e, ?_⟩
      simp only [call, fill, lengthOf, if_neg hneg, bind, Except.bind, hcheck, settle]
    · left
      refine ⟨_, _, rfl, ?_⟩
      simp only [call, fill, lengthOf, if_neg hneg, bind, Except.bind, hcheck]
  | copy source target length =>
    by_cases hneg : length < 0
    · right
      refine ⟨.sizeOutOfRange length, ?_⟩
      simp only [call, copy, lengthOf, if_pos hneg, bind, Except.bind, settle]
    rcases hread : heap.read source length.toNat with e | bytes
    · right
      refine ⟨e, ?_⟩
      simp only [call, copy, lengthOf, if_neg hneg, bind, Except.bind, hread, settle]
    · left
      refine ⟨target, bytes, by simp only [payload, hread], ?_⟩
      simp only [call, copy, lengthOf, if_neg hneg, bind, Except.bind, hread]

/-- What was handed out: a handle, and the bytes that were asked for. -/
structure Allocation where
  base : Handle
  size : Nat
deriving DecidableEq, Repr

namespace Allocation

/-- The handles that point into the allocation, as integers. -/
def range (b : Allocation) : Set Int := Set.Ico b.base.toInt (b.base.toInt + b.size)

/-- The list with what was handed out, which the null handle is not. -/
def enter (live : List Allocation) (handle : Handle) (size : Int) : List Allocation :=
  if handle = Handle.null then live else ⟨handle, size.toNat⟩ :: live

/-- The list without what was taken back. -/
def strike (live : List Allocation) (handle : Handle) : List Allocation :=
  live.filter fun b => b.base ≠ handle

theorem mem_enter_iff {live : List Allocation} {handle : Handle} {size : Int} {b : Allocation} :
    b ∈ enter live handle size ↔ handle ≠ Handle.null ∧ b = ⟨handle, size.toNat⟩ ∨ b ∈ live := by
  unfold enter
  split
  · next hnull => simp [hnull]
  · next hne => simp [hne]

theorem mem_strike_iff {live : List Allocation} {handle : Handle} {b : Allocation} :
    b ∈ strike live handle ↔ b ∈ live ∧ b.base ≠ handle := by
  unfold strike
  rw [List.mem_filter, decide_eq_true_iff]

end Allocation

/-- What a call and its answer do to the list of live allocations. -/
def Call.record (live : List Allocation) :
    Call → Except HeapError (Option Handle) → List Allocation
  | .allocate size, .ok (some handle) => Allocation.enter live handle size
  | .reallocate old size, .ok (some handle) =>
    Allocation.enter (Allocation.strike live old) handle size
  | .free handle, .ok _ => Allocation.strike live handle
  | _, _ => live

/-- A heap, and the live allocations that its calls and answers tell of. -/
structure Session where
  heap : Heap
  live : List Allocation

namespace Session

/-- A session that has yet to begin. -/
def start (settings : Settings) : Session := ⟨Heap.fresh settings, []⟩

/-- The session after one more call. -/
def next (s : Session) (call : Call) : Session :=
  ⟨(s.heap.call call).2, call.record s.live (s.heap.call call).1⟩

/-- The session after a run of calls. -/
def after (settings : Settings) (calls : List Call) : Session :=
  calls.foldl next (start settings)

/-- **The invariant of a session**: the heap is valid, and it answers a size for a handle exactly
when the allocation that starts there is live. -/
structure Sound (s : Session) : Prop where
  valid : s.heap.Valid
  mem_live_iff : ∀ b, b ∈ s.live ↔ s.heap.sizeOf b.base = .ok b.size
  nodup : (s.live.map (·.base)).Nodup

theorem sound_start {settings : Settings} (h : settings.validate = .ok ()) :
    (start settings).Sound := by
  refine ⟨Heap.valid_fresh h, fun b => ⟨nofun, fun hsize => ?_⟩, List.nodup_nil⟩
  have hlive := (Heap.sizeOf_eq_ok_iff.mp hsize).2.2
  rw [show (start settings).heap = Heap.fresh settings from rfl, Heap.sizeAt_fresh] at hlive
  cases hlive

/-! ### Changes of a sound session -/

section changes
variable {heap next : Heap} {live : List Allocation} {handle : Handle} {n : Nat}

theorem Sound.enter (hs : Sound ⟨heap, live⟩) {size : Int} (hpos : 0 < handle.toInt)
    (h : Heap.Allocated heap size.toNat handle.address next) :
    Sound ⟨next, Allocation.enter live handle size⟩ := by
  unfold Allocation.enter
  rw [if_neg (Handle.ne_null_of_pos hpos)]
  refine ⟨h.valid, fun b => ?_, ?_⟩
  · have hlive : b ∈ live ↔ heap.sizeOf b.base = .ok b.size := hs.mem_live_iff b
    show b ∈ ⟨handle, size.toNat⟩ :: live ↔ next.sizeOf b.base = .ok b.size
    rw [h.sizeOf_eq_ok_iff hpos, ← hlive, List.mem_cons]
    obtain ⟨base, size'⟩ := b
    simp only [Allocation.mk.injEq]
  · show (handle :: live.map (·.base)).Nodup
    rw [List.nodup_cons]
    refine ⟨fun hmem => ?_, hs.nodup⟩
    obtain ⟨b, hb, heq⟩ := List.mem_map.mp hmem
    exact h.ne_of_sizeOf ((hs.mem_live_iff b).mp hb) heq

theorem Sound.strike (hs : Sound ⟨heap, live⟩) (hpos : 0 < handle.toInt)
    (h : Heap.Freed heap handle.address next) :
    Sound ⟨next, Allocation.strike live handle⟩ := by
  refine ⟨h.valid, fun b => ?_, ?_⟩
  · have hlive : b ∈ live ↔ heap.sizeOf b.base = .ok b.size := hs.mem_live_iff b
    show b ∈ Allocation.strike live handle ↔ next.sizeOf b.base = .ok b.size
    rw [h.sizeOf_eq_ok_iff hpos, ← hlive, Allocation.mem_strike_iff, and_comm]
  · exact hs.nodup.sublist (List.filter_sublist.map _)

theorem Sound.written (hs : Sound ⟨heap, live⟩) {a : Address} {bytes : List UInt8}
    (h : Heap.Written heap a bytes next) : Sound ⟨next, live⟩ := by
  refine ⟨h.valid, fun b => ?_, hs.nodup⟩
  have hlive : b ∈ live ↔ heap.sizeOf b.base = .ok b.size := hs.mem_live_iff b
  show b ∈ live ↔ next.sizeOf b.base = .ok b.size
  rw [h.sizeOf_eq_ok_iff, hlive]

end changes

/-! ### What a call can do -/

section calls
variable {s : Session}

theorem record_of_isWrite {call : Call} (h : call.isWrite = true) (live : List Allocation)
    (answer : Except HeapError (Option Handle)) : call.record live answer = live := by
  cases call with
  | allocate | reallocate | free => cases h
  | fill | store | copy | storeArray => rfl

/-- **An allocation** of no bytes and a refused one leave the session as it is. -/
theorem Sound.allocate_cases (hs : s.Sound) (size : Int) :
    ((s.heap.call (.allocate size)).1 = .ok (some Handle.null) ∧ size = 0 ∧
        s.next (.allocate size) = s) ∨
      (∃ handle next, (s.heap.call (.allocate size)).1 = .ok (some handle) ∧ 1 ≤ size ∧
        0 < handle.toInt ∧ Heap.Allocated s.heap size.toNat handle.address next ∧
        s.next (.allocate size) = ⟨next, Allocation.enter s.live handle size⟩) ∨
      ∃ e, (s.heap.call (.allocate size)).1 = .error e ∧ s.next (.allocate size) = s := by
  unfold Session.next Heap.call
  rcases hs.valid.allocate_cases size with
    ⟨hzero, hcall⟩ | ⟨handle, next, hcall, hlow, hpos, ha⟩ | ⟨e, hcall⟩
  · left
    simp only [hcall]
    exact ⟨rfl, hzero, rfl⟩
  · right; left
    simp only [hcall]
    exact ⟨handle, next, rfl, hlow, hpos, ha, rfl⟩
  · right; right
    simp only [hcall]
    exact ⟨e, rfl, rfl⟩

/-- The null handle is no live allocation's. -/
theorem Sound.strike_null (hs : s.Sound) : Allocation.strike s.live Handle.null = s.live := by
  unfold Allocation.strike
  rw [List.filter_eq_self]
  intro b hb
  rw [decide_eq_true_iff]
  exact Heap.ne_null_of_sizeOf ((hs.mem_live_iff b).mp hb)

/-- **A release** of the null handle and a refused one leave the session as it is. -/
theorem Sound.free_cases (hs : s.Sound) (handle : Handle) :
    ((s.heap.call (.free handle)).1 = .ok none ∧ handle = Handle.null ∧
        s.next (.free handle) = s) ∨
      (∃ n next, (s.heap.call (.free handle)).1 = .ok none ∧ s.heap.sizeOf handle = .ok n ∧
        Heap.Freed s.heap handle.address next ∧
        s.next (.free handle) = ⟨next, Allocation.strike s.live handle⟩) ∨
      ∃ e, (s.heap.call (.free handle)).1 = .error e ∧ s.next (.free handle) = s := by
  unfold Session.next Heap.call
  by_cases hnull : handle = Handle.null
  · left
    have hcall : s.heap.free handle = .ok s.heap := if_pos hnull
    simp only [hcall]
    refine ⟨rfl, hnull, ?_⟩
    show Session.mk s.heap (Allocation.strike s.live handle) = s
    rw [hnull, hs.strike_null]
  right
  rcases hsize : s.heap.sizeOf handle with e | n
  · right
    obtain ⟨e', hcall⟩ := hs.valid.free_eq_error hnull (fun n hn => by rw [hsize] at hn; cases hn)
    simp only [hcall]
    exact ⟨e', rfl, rfl⟩
  · left
    obtain ⟨next, hcall, hfreed⟩ := hs.valid.exists_free hsize
    simp only [hcall]
    exact ⟨n, next, rfl, rfl, hfreed, rfl⟩

/-- Reallocation of the null handle is allocation. -/
theorem Sound.reallocate_null (hs : s.Sound) (size : Int) :
    s.heap.call (.reallocate Handle.null size) = s.heap.call (.allocate size) ∧
      s.next (.reallocate Handle.null size) = s.next (.allocate size) := by
  have hcall : s.heap.call (.reallocate Handle.null size) = s.heap.call (.allocate size) := rfl
  refine ⟨hcall, ?_⟩
  unfold Session.next
  rw [hcall]
  rcases s.heap.call (.allocate size) with ⟨e | _ | target, next⟩
  · rfl
  · rfl
  · show Session.mk next (Allocation.enter (Allocation.strike s.live Handle.null) target size) = _
    rw [hs.strike_null]
    rfl

/-- **A reallocation** is an allocation, a release or a move, and a refused one leaves the session
as it is. -/
theorem Sound.reallocate_cases (hs : s.Sound) (handle : Handle) (size : Int) :
    (handle = Handle.null ∧
        (s.heap.call (.reallocate handle size)).1 = (s.heap.call (.allocate size)).1 ∧
        s.next (.reallocate handle size) = s.next (.allocate size)) ∨
      (∃ n next, (s.heap.call (.reallocate handle size)).1 = .ok (some Handle.null) ∧
        size = 0 ∧ s.heap.sizeOf handle = .ok n ∧ Heap.Freed s.heap handle.address next ∧
        s.next (.reallocate handle size) = ⟨next, Allocation.strike s.live handle⟩) ∨
      (∃ n target next, (s.heap.call (.reallocate handle size)).1 = .ok (some target) ∧
        1 ≤ size ∧ s.heap.sizeOf handle = .ok n ∧
        Heap.Moved s.heap handle size (min n size.toNat) target next ∧
        s.next (.reallocate handle size)
          = ⟨next, Allocation.enter (Allocation.strike s.live handle) target size⟩) ∨
      ∃ e, (s.heap.call (.reallocate handle size)).1 = .error e ∧
        s.next (.reallocate handle size) = s ∧
        (s.heap.sizeOf handle = .error e ∨ (s.heap.call (.allocate size)).1 = .error e) := by
  rcases hs.valid.reallocate_cases handle size with
    ⟨hnull, -⟩ | ⟨n, next, hsize, hzero, hcall, hfreed⟩ |
    ⟨n, target, next, hsize, hlow, hcall, hmoved⟩ | ⟨e, hcall, hcause⟩
  · left
    subst hnull
    obtain ⟨hcall, hnext⟩ := hs.reallocate_null size
    exact ⟨rfl, congrArg Prod.fst hcall, hnext⟩
  · right; left
    unfold Session.next Heap.call
    simp only [hcall]
    exact ⟨n, next, rfl, hzero, hsize, hfreed, rfl⟩
  · right; right; left
    unfold Session.next Heap.call
    simp only [hcall]
    exact ⟨n, target, next, rfl, hlow, hsize, hmoved, rfl⟩
  · right; right; right
    have hcause' : s.heap.sizeOf handle = .error e ∨
        (s.heap.call (.allocate size)).1 = .error e := by
      refine hcause.imp_right fun hallocate => ?_
      show (Prod.map (Except.map some) id (s.heap.allocate size)).1 = .error e
      rw [hallocate]
      rfl
    refine ⟨e, ?_, ?_, hcause'⟩
    · unfold Heap.call
      simp only [hcall]
      rfl
    · unfold Session.next Heap.call
      simp only [hcall]
      rfl

/-- **A write** stores its payload where access to it is granted, and a refused one leaves the
session as it is. -/
theorem Sound.write_cases (hs : s.Sound) {call : Call} (h : call.isWrite = true) :
    (∃ target bytes next, (s.heap.call call).1 = .ok none ∧
        s.heap.payload call = some (target, bytes) ∧
        s.heap.checkRange target bytes.length = .ok () ∧
        Heap.Written s.heap target.address bytes next ∧ s.next call = ⟨next, s.live⟩) ∨
      ∃ e, (s.heap.call call).1 = .error e ∧ s.next call = s := by
  unfold Session.next
  rw [record_of_isWrite h]
  rcases s.heap.call_cases_of_isWrite h with ⟨target, bytes, hpayload, hcall⟩ | ⟨e, hcall⟩
  · rw [hcall]
    rcases hcheck : s.heap.checkRange target bytes.length with e | ⟨⟩
    · right
      rw [Heap.write_eq_error hcheck]
      exact ⟨e, rfl, rfl⟩
    · left
      obtain ⟨next, hwrite, hw⟩ := hs.valid.exists_write hcheck
      rw [hwrite]
      exact ⟨target, bytes, next, rfl, hpayload, hcheck, hw, rfl⟩
  · right
    rw [hcall]
    exact ⟨e, rfl, rfl⟩

end calls

/-! ### Runs -/

theorem Sound.next_allocate {s : Session} (hs : s.Sound) (size : Int) :
    (s.next (.allocate size)).Sound := by
  rcases hs.allocate_cases size with
    ⟨-, -, hnext⟩ | ⟨handle, next, -, -, hpos, ha, hnext⟩ | ⟨e, -, hnext⟩
  · rw [hnext]; exact hs
  · rw [hnext]; exact hs.enter hpos ha
  · rw [hnext]; exact hs

theorem Sound.next_free {s : Session} (hs : s.Sound) (handle : Handle) :
    (s.next (.free handle)).Sound := by
  rcases hs.free_cases handle with
    ⟨-, -, hnext⟩ | ⟨n, next, -, hsize, hfreed, hnext⟩ | ⟨e, -, hnext⟩
  · rw [hnext]; exact hs
  · rw [hnext]; exact hs.strike (Heap.pos_of_sizeOf hsize) hfreed
  · rw [hnext]; exact hs

theorem Sound.next_reallocate {s : Session} (hs : s.Sound) (handle : Handle) (size : Int) :
    (s.next (.reallocate handle size)).Sound := by
  rcases hs.reallocate_cases handle size with
    ⟨-, -, hnext⟩ | ⟨n, next, -, -, hsize, hfreed, hnext⟩ |
    ⟨n, target, next, -, -, hsize, ⟨grown, filled, -, hpos, ha, hw, hfreed⟩, hnext⟩ |
    ⟨e, -, hnext, -⟩
  · rw [hnext]; exact hs.next_allocate size
  · rw [hnext]; exact hs.strike (Heap.pos_of_sizeOf hsize) hfreed
  · rw [hnext]
    -- the new allocation is entered before the old one is struck out, which comes to the same list
    have hsound := ((hs.enter hpos ha).written hw).strike (Heap.pos_of_sizeOf hsize) hfreed
    have hne : target ≠ handle := (ha.ne_of_sizeOf hsize).symm
    have hlist : Allocation.strike (Allocation.enter s.live target size) handle
        = Allocation.enter (Allocation.strike s.live handle) target size := by
      have hnull : target ≠ Handle.null := Handle.ne_null_of_pos hpos
      unfold Allocation.enter Allocation.strike
      rw [if_neg hnull, if_neg hnull, List.filter_cons_of_pos (by simpa using hne)]
    rw [hlist] at hsound
    exact hsound
  · rw [hnext]; exact hs

theorem Sound.next_write {s : Session} (hs : s.Sound) {call : Call} (h : call.isWrite = true) :
    (s.next call).Sound := by
  rcases hs.write_cases h with ⟨target, bytes, next, -, -, -, hw, hnext⟩ | ⟨e, -, hnext⟩
  · rw [hnext]; exact hs.written hw
  · rw [hnext]; exact hs

/-- **Every call keeps a session sound.** -/
theorem Sound.next {s : Session} (hs : s.Sound) (call : Call) : (s.next call).Sound := by
  cases call with
  | allocate size => exact hs.next_allocate size
  | reallocate handle size => exact hs.next_reallocate handle size
  | free handle => exact hs.next_free handle
  | fill | store | copy | storeArray => exact hs.next_write rfl

theorem Sound.foldl {s : Session} (hs : s.Sound) (calls : List Call) :
    (calls.foldl Session.next s).Sound := by
  induction calls generalizing s with
  | nil => exact hs
  | cons call calls ih => exact ih (hs.next call)

/-- **Every session is sound**, whatever was called. -/
theorem sound_after {settings : Settings} (h : settings.validate = .ok ()) (calls : List Call) :
    (after settings calls).Sound :=
  (sound_start h).foldl calls

end Session

end HandleHeap
