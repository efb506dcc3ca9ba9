import HandleHeap.Proofs.Peaks
import HandleHeap.Proofs.Sessions

/-!
# Stability

Every call on a heap is at most some operations of its chunk pool, so a property that each of these
operations keeps is one that no call can break.  That chains are whole numbers of increments long is
such a property.

* `ChunkPool.Lasting`, `ChunkPool.Lasting.call`: what the operations of a pool keep, with
  allocations of some sizes only, is kept by every call on a heap that asks for no other size;
* `ChunkPool.Stable`, `ChunkPool.Stable.call`, `ChunkPool.Stable.foldl`: what all operations of a
  pool keep, every call on a heap and every run of calls keeps;
* `ChunkPool.Graduated`, `ChunkPool.stable_graduated`: a pool under fixed settings with chains of
  whole increments.
-/

namespace HandleHeap

/-! ### What operations keep -/

/-- The size of the allocation that a call asks for. -/
def Call.requested : Call → Option Int
  | .allocate size | .reallocate _ size => some size
  | .free _ | .fill .. | .store .. | .copy .. | .storeArray .. => none

namespace ChunkPool

/-- What each operation of a pool keeps, allocations of sizes that are asked for among them. -/
structure Lasting (asked : Nat → Prop) (P : ChunkPool → Prop) : Prop where
  allocate : ∀ pool size, asked size → P pool → P (pool.allocate size).2
  free : ∀ pool handle address next, P pool → pool.free handle address = .ok next → P next
  write : ∀ pool handle address bytes next, P pool →
    pool.write handle address bytes = .ok next → P next

/-- What each operation of a pool keeps. -/
structure Stable (P : ChunkPool → Prop) : Prop where
  allocate : ∀ pool size, P pool → P (pool.allocate size).2
  free : ∀ pool handle address next, P pool → pool.free handle address = .ok next → P next
  write : ∀ pool handle address bytes next, P pool →
    pool.write handle address bytes = .ok next → P next

theorem Stable.lasting {P : ChunkPool → Prop} (hP : Stable P) : Lasting (fun _ => True) P :=
  ⟨fun pool size _ => hP.allocate pool size, hP.free, hP.write⟩

section lasting
variable {asked : Nat → Prop} {P : ChunkPool → Prop} (hP : Lasting asked P) {heap : Heap}
  (h : P heap.chunks)
include hP h

theorem Lasting.heap_allocate {size : Int} (hasked : 1 ≤ size → asked size.toNat) :
    P (heap.allocate size).2.chunks := by
  unfold Heap.allocate
  split
  · exact h
  split
  · exact h
  next hrange =>
  split
  · exact hP.allocate _ _ (hasked (by omega)) h
  · exact h

theorem Lasting.heap_free {handle : Handle} {next : Heap} (hcall : heap.free handle = .ok next) :
    P next.chunks := by
  unfold Heap.free at hcall
  split at hcall
  · cases hcall
    exact h
  rcases hgate : Address.ofHandle handle with e | a | a <;> simp only [hgate] at hcall
  · cases hcall
  · rcases hfree : heap.chunks.free handle a with e | chunks <;> rw [hfree] at hcall <;>
      cases hcall
    exact hP.free _ _ _ _ h hfree
  · rcases hfree : heap.blocks.free handle a with e | blocks <;> rw [hfree] at hcall <;>
      cases hcall
    exact h

theorem Lasting.heap_write {handle : Handle} {bytes : List UInt8} {next : Heap}
    (hcall : heap.write handle bytes = .ok next) : P next.chunks := by
  unfold Heap.write at hcall
  rcases hgate : Address.ofHandle handle with e | a | a <;> simp only [hgate] at hcall
  · cases hcall
  · rcases hwrite : heap.chunks.write handle a bytes with e | chunks <;> rw [hwrite] at hcall <;>
      cases hcall
    exact hP.write _ _ _ _ _ h hwrite
  · rcases hwrite : heap.blocks.write handle a bytes with e | blocks <;> rw [hwrite] at hcall <;>
      cases hcall
    exact h

theorem Lasting.heap_move {source target : Handle} {length : Nat} {next : Heap}
    (hcall : heap.move source target length = .ok next) : P next.chunks := by
  unfold Heap.move at hcall
  rcases hread : heap.read source length with e | bytes <;> rw [hread] at hcall
  · cases hcall
  rcases hwrite : heap.write target bytes with e | written <;>
    simp only [bind, Except.bind, hwrite] at hcall
  · cases hcall
  · exact hP.heap_free (hP.heap_write h hwrite) hcall

omit hP in
theorem Lasting.settle {outcome : Except HeapError Heap}
    (hnext : ∀ next, outcome = .ok next → P next.chunks) : P (heap.settle outcome).2.chunks := by
  rcases outcome with e | next
  · exact h
  · exact hnext next rfl

theorem Lasting.heap_reallocate (handle : Handle) {size : Int}
    (hasked : 1 ≤ size → asked size.toNat) : P (heap.reallocate handle size).2.chunks := by
  have hallocate := hP.heap_allocate h hasked
  unfold Heap.reallocate
  split
  · exact hallocate
  rcases heap.sizeOf handle with e | oldSize
  · exact h
  rcases hcall : heap.allocate size with ⟨e | target, grown⟩ <;> rw [hcall] at hallocate
  · exact hallocate
  dsimp only at hallocate ⊢
  split
  · exact hallocate
  · next moved hmoved =>
    split at hmoved
    · exact hP.heap_free hallocate hmoved
    · exact hP.heap_move hallocate hmoved

/-- **What pools keep, heaps keep**: a call on a heap is at most some operations of its pool. -/
theorem Lasting.call {call : Call}
    (hasked : ∀ size, call.requested = some size → 1 ≤ size → asked size.toNat) :
    P (heap.call call).2.chunks := by
  rcases hwrite : call.isWrite
  · cases call with
    | fill | store | copy | storeArray => cases hwrite
    | allocate size => exact hP.heap_allocate h (hasked size rfl)
    | reallocate handle size => exact hP.heap_reallocate h handle (hasked size rfl)
    | free handle => exact Lasting.settle h fun next hcall => hP.heap_free h hcall
  · rcases heap.call_cases_of_isWrite hwrite with ⟨target, bytes, -, hcall⟩ | ⟨e, hcall⟩
    · rw [hcall]
      exact Lasting.settle h fun next hnext => hP.heap_write h hnext
    · rw [hcall]
      exact h

end lasting

theorem Stable.call {P : ChunkPool → Prop} (hP : Stable P) {heap : Heap} (h : P heap.chunks)
    (call : Call) : P (heap.call call).2.chunks :=
  hP.lasting.call h fun _ _ _ => trivial

theorem Stable.foldl {P : ChunkPool → Prop} (hP : Stable P) {s : Session} (h : P s.heap.chunks)
    (calls : List Call) : P (calls.foldl Session.next s).heap.chunks := by
  induction calls generalizing s with
  | nil => exact h
  | cons call calls ih => exact ih (hP.call h call)

end ChunkPool

/-! ### Lengths of chains -/

namespace SizeClass

/-- A slab that is put at a position leaves the chain as long as it is; counters are beside it. -/
theorem length_setSlab (sizeClass : SizeClass) (position : Nat) (slab : Slab) :
    (sizeClass.setSlab position slab).length = sizeClass.length := Array.size_setIfInBounds

theorem length_claimAt (sizeClass : SizeClass) (position : Nat) :
    (sizeClass.claimAt position).2.length = sizeClass.length := by
  unfold claimAt
  dsimp only
  split
  · exact length_setSlab _ _ _
  · exact length_setSlab _ _ _

theorem length_serve_allocate (sizeClass : SizeClass) (increment bound : Nat) :
    (sizeClass.serve (.allocate increment bound)).length = sizeClass.length ∨
      (sizeClass.serve (.allocate increment bound)).length = sizeClass.length + increment := by
  unfold serve allocate extend
  dsimp only
  split
  · exact Or.inl (length_claimAt sizeClass _)
  split
  · exact Or.inl rfl
  · next longer hextend =>
    split at hextend
    · cases hextend
    · cases hextend
      refine Or.inr ((length_claimAt _ _).trans ?_)
      simp [length]

theorem length_serve_free (sizeClass : SizeClass) (handle : Handle) (position slot : Nat) :
    (sizeClass.serve (.free handle position slot)).length = sizeClass.length := by
  unfold serve free
  dsimp only
  split
  · next next hfree =>
    split at hfree
    · cases hfree
    · cases hfree
      exact length_setSlab _ _ _
  · rfl

end SizeClass

/-! ### Chains of whole increments -/

namespace ChunkPool

/-- A pool under the given settings whose chains are whole numbers of increments long. -/
structure Graduated (pool : ChunkPool) (settings : Settings) : Prop where
  under : pool.Under settings
  dvd_length : ∀ size, settings.chainIncrement ∣ (pool.sizeClass size).length

theorem graduated_fresh (settings : Settings) : (fresh settings).Graduated settings := by
  refine ⟨under_fresh settings, fun size => ?_⟩
  have hfresh : (fresh settings).sizeClass size = SizeClass.fresh size
      (Slab.capacity size settings.slabBufferSize) settings.chainIncrement := by
    simp [sizeClass, sizeClass?, fresh]
  rw [hfresh, SizeClass.length_fresh]

theorem Graduated.setSizeClass {pool : ChunkPool} {settings : Settings}
    (hg : pool.Graduated settings) (size : Nat) {next : SizeClass}
    (hdvd : settings.chainIncrement ∣ next.length) :
    (pool.setSizeClass size next).Graduated settings := by
  refine ⟨hg.under.setSizeClass size next, fun other => ?_⟩
  rw [sizeClass_setSizeClass]
  split
  · exact hdvd
  · exact hg.dvd_length other

theorem stable_graduated (settings : Settings) : Stable (·.Graduated settings) := by
  refine ⟨fun pool size hg => ?_, fun pool handle address next hg hcall => ?_,
    fun pool handle address bytes next hg hcall => ?_⟩
  · rw [allocate_snd]
    split
    · refine hg.setSizeClass size ?_
      have hdvd := hg.dvd_length size
      rcases (pool.sizeClass size).length_serve_allocate pool.chainIncrement pool.maxChainLength
        with hsame | hgrown
      · rw [hsame]
        exact hdvd
      · rw [hgrown, hg.under.chainIncrement_eq]
        exact hdvd.add (Nat.dvd_refl _)
    · exact hg
  · rw [eq_of_free_eq_ok hcall]
    refine hg.setSizeClass _ ?_
    rw [SizeClass.length_serve_free]
    exact hg.dvd_length _
  · unfold ChunkPool.write at hcall
    rcases hslab : pool.slabFor handle address bytes.length with e | slab <;>
      rw [hslab] at hcall <;> cases hcall
    refine hg.setSizeClass _ ?_
    rw [SizeClass.length_setSlab]
    exact hg.dvd_length _

end ChunkPool

end HandleHeap
