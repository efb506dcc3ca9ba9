import HandleHeap.Proofs.Refusals

/-!
# Reliability

A counter that leaves room promises a free slot, and an allocation relies on it.  A slab that is
full in spite of its counter has a refusal of its own, which no call on a heap ever answers.

* `HeapError.isSlabFull`, `Reliable`: that refusal, and outcomes that are not;
* `Heap.reliable_read`, `Heap.reliable_sizeOf`: questions, whatever the heap;
* `Session.Sound.reliable_call`: calls, after any others.
-/

namespace HandleHeap

/-- Whether a call was refused for a slab without the free slot that its counter promised. -/
def HeapError.isSlabFull : HeapError → Bool
  | .slabFull .. => true
  | _ => false

/-- An outcome that is no such refusal. -/
def Reliable {α : Type} (outcome : Except HeapError α) : Prop :=
  ∀ e, outcome = .error e → e.isSlabFull = false

section reliable
variable {α β : Type} {outcome : Except HeapError α}

theorem reliable_ok (value : α) : Reliable (.ok value : Except HeapError α) := nofun

theorem reliable_error {e : HeapError} (h : e.isSlabFull = false) :
    Reliable (.error e : Except HeapError α) := by
  intro e' he
  cases he
  exact h

theorem Reliable.bind (h : Reliable outcome) {next : α → Except HeapError β}
    (hnext : ∀ value, Reliable (next value)) : Reliable (outcome >>= next) := by
  rcases outcome with e | value
  · exact reliable_error (h e rfl)
  · exact hnext value

theorem Reliable.map (h : Reliable outcome) (f : α → β) : Reliable (outcome.map f) := by
  rcases outcome with e | value
  · exact reliable_error (h e rfl)
  · exact reliable_ok (f value)

theorem Reliable.settle {heap : Heap} {outcome : Except HeapError Heap} (h : Reliable outcome) :
    Reliable (heap.settle outcome).1 := by
  rcases outcome with e | next
  · exact reliable_error (h e rfl)
  · exact reliable_ok none

end reliable

theorem Handle.isSlabFull_misuse (handle : Handle) : handle.misuse.isSlabFull = false := by
  unfold misuse
  split_ifs <;> rfl

theorem ChunkPool.reliable_slabFor (pool : ChunkPool) (handle : Handle) (address : ChunkAddress)
    (length : Nat) : Reliable (pool.slabFor handle address length) := by
  unfold slabFor
  split_ifs
  · exact reliable_error rfl
  · exact reliable_error rfl
  rcases liveSlab_cases pool handle address with ⟨-, _, slab, -, -, -, hlive⟩ | ⟨-, hlive⟩ <;>
    rw [hlive]
  · exact reliable_ok slab
  · exact reliable_error rfl

namespace Heap

variable {heap : Heap}

theorem reliable_checkRange (heap : Heap) (handle : Handle) (length : Nat) :
    Reliable (heap.checkRange handle length) := by
  unfold checkRange
  rcases hgate : Address.ofHandle handle with e | a | a <;> dsimp only
  · refine reliable_error ?_
    unfold Address.ofHandle Handle.validate at hgate
    split_ifs at hgate <;> cases hgate <;> rfl
  · exact (heap.chunks.reliable_slabFor handle a length).map _
  · rcases hcall : heap.blocks.bufferFor handle a length with e | buffer
    · refine reliable_error ?_
      rw [BlockTable.eq_of_bufferFor_eq_error hcall]
      split_ifs <;> rfl
    · exact reliable_ok ()

theorem reliable_read (heap : Heap) (handle : Handle) (length : Nat) :
    Reliable (heap.read handle length) := by
  rw [read_eq]
  exact (heap.reliable_checkRange handle length).map _

theorem reliable_sizeOf (heap : Heap) (handle : Handle) : Reliable (heap.sizeOf handle) := by
  intro e he
  rw [eq_of_sizeOf_eq_error he]
  exact handle.isSlabFull_misuse

theorem reliable_free (heap : Heap) (handle : Handle) : Reliable (heap.free handle) := by
  intro e he
  rw [eq_of_free_eq_error he]
  exact handle.isSlabFull_misuse

theorem reliable_lengthOf (length : Int) : Reliable (lengthOf length) := by
  unfold lengthOf
  split
  · exact reliable_error rfl
  · exact reliable_ok _

section valid
variable (hv : heap.Valid)
include hv

theorem Valid.reliable_write (handle : Handle) (bytes : List UInt8) :
    Reliable (heap.write handle bytes) := by
  rcases hcheck : heap.checkRange handle bytes.length with e | ⟨⟩
  · rw [write_eq_error hcheck]
    exact reliable_error (heap.reliable_checkRange handle bytes.length e hcheck)
  · obtain ⟨next, hcall, -⟩ := hv.exists_write hcheck
    rw [hcall]
    exact reliable_ok next

/-- An allocation is refused for its size or for want of room, and the counters tell of the room. -/
theorem Valid.reliable_allocate (size : Int) : Reliable (heap.allocate size).1 := by
  unfold allocate
  split
  · exact reliable_ok Handle.null
  split
  · exact reliable_error rfl
  next hrange =>
  split
  · next hsmall =>
    have hsize : ChunkSize.IsChunk size.toNat := ⟨by unfold ChunkSize.least; omega, hsmall⟩
    rcases hv.chunks.allocate_cases hsize with ⟨position, i, next, hcall, -⟩ | hcall <;> rw [hcall]
    · exact reliable_ok _
    · exact reliable_error rfl
  · rcases hv.blocks.allocate_cases size.toNat with ⟨identifier, next, hcall, -⟩ | hcall <;>
      rw [hcall]
    · exact reliable_ok _
    · exact reliable_error rfl

end valid

end Heap

/-- **Counters are kept**: no call finds a slab full that its counter does not. -/
theorem Session.Sound.reliable_call {s : Session} (hs : s.Sound) (call : Call) :
    Reliable (s.heap.call call).1 := by
  have hwrite := hs.valid.reliable_write
  cases call with
  | allocate size => exact (hs.valid.reliable_allocate size).map some
  | free handle => exact (s.heap.reliable_free handle).settle
  | store scalar order handle value => exact (hwrite _ _).settle
  | storeArray scalar order handle values => exact (hwrite _ _).settle
  | fill handle length value =>
    refine ((Heap.reliable_lengthOf length).bind fun n => ?_).settle
    exact (s.heap.reliable_checkRange handle n).bind fun _ => hwrite _ _
  | copy source target length =>
    refine ((Heap.reliable_lengthOf length).bind fun n => ?_).settle
    exact (s.heap.reliable_read source n).bind fun _ => hwrite _ _
  | reallocate handle size =>
    have hallocate : Reliable (s.heap.call (.allocate size)).1 :=
      (hs.valid.reliable_allocate size).map some
    rcases hs.reallocate_cases handle size with
      ⟨-, hanswer, -⟩ | ⟨n, next, hanswer, -⟩ | ⟨n, target, next, hanswer, -⟩ |
      ⟨e, hanswer, -, hcause⟩
    · rw [hanswer]
      exact hallocate
    · rw [hanswer]
      exact reliable_ok _
    · rw [hanswer]
      exact reliable_ok _
    · rw [hanswer]
      exact reliable_error (hcause.elim (s.heap.reliable_sizeOf handle e) (hallocate e))

end HandleHeap
