import HandleHeap.Proofs.Sessions

/-!
# Refused calls

In every session the null handle and the bases of live allocations are all that can be released,
sizes are told at these bases only, and a call that is refused leaves no trace.

* `Handle.misuse`: what is wrong with a handle at which no allocation starts;
* `Session.answers`: what a run of calls answers, call by call;
* `Session.Accounts`, `Session.accounts_after`: which handles are released and have a size, and that
  between two releases of one handle some call has answered it;
* `Session.Unchanged`, `Session.granted`, `Session.refused_leaves_no_trace`: a refused call changes
  nothing, so a run without its refused calls comes to the same session.
-/

namespace HandleHeap

/-! ### Handles at which no allocation starts -/

namespace Handle

/-- The distance of a handle from the start of the slot or block that it points into. -/
def inset (handle : Handle) : Nat :=
  if handle.word.testBit 62 then handle.offset % (handle.sizeIndex + 1) else handle.offset

/-- What is wrong with a handle at which no allocation starts.  A handle past the start of its slot
or block is told apart from others, whether or not anything is live there. -/
def misuse (handle : Handle) : HeapError :=
  if handle.toInt = 0 then .nullHandle
  else if handle.toInt < 0 then .invalidHandle handle
  else if handle.inset = 0 then .invalidHandle handle
  else .notBaseAddress handle handle.inset

theorem inner_address (handle : Handle) : handle.address.inner = handle.inset := by
  unfold address inset isChunk
  split <;> rfl

theorem misuse_of_pos {handle : Handle} (h : 0 < handle.toInt) :
    handle.misuse = if handle.address.inner = 0 then .invalidHandle handle
      else .notBaseAddress handle handle.address.inner := by
  unfold misuse
  rw [if_neg (by omega), if_neg (by omega), inner_address]

theorem misuse_of_neg {handle : Handle} (h : handle.toInt < 0) :
    handle.misuse = .invalidHandle handle := by
  unfold misuse
  rw [if_neg (by omega), if_pos h]

theorem misuse_null : Handle.null.misuse = .nullHandle := rfl

end Handle

/-- The four calls that want the start of a slot or block have this gate in front. -/
theorem eq_of_base_gate {α : Type} {handle : Handle} {offset : Nat} {outcome : Except HeapError α}
    {e : HeapError} (houtcome : ∀ e', outcome = .error e' → e' = .invalidHandle handle)
    (h : (if offset ≠ 0 then .error (.notBaseAddress handle offset) else outcome) = .error e) :
    e = if offset = 0 then .invalidHandle handle else .notBaseAddress handle offset := by
  by_cases hoffset : offset = 0
  · rw [if_neg (fun hne => hne hoffset)] at h
    rw [if_pos hoffset]
    exact houtcome e h
  · rw [if_pos hoffset] at h
    rw [if_neg hoffset]
    cases h
    rfl

theorem SizeClass.eq_of_free_eq_error {sizeClass : SizeClass} {handle : Handle}
    {position slot : Nat} {e : HeapError} (h : sizeClass.free handle position slot = .error e) :
    e = .invalidHandle handle := by
  unfold free at h
  split at h
  · cases h; rfl
  · cases h

theorem ChunkPool.eq_of_free_eq_error {pool : ChunkPool} {handle : Handle}
    {address : ChunkAddress} {e : HeapError} (h : pool.free handle address = .error e) :
    e = if address.slotOffset = 0 then .invalidHandle handle
      else .notBaseAddress handle address.slotOffset := by
  refine eq_of_base_gate (fun e' hcall => ?_) h
  split at hcall
  · cases hcall; rfl
  next found _ =>
  split at hcall
  · rcases hfree : found.free handle address.chainIndex address.slot with e'' | next <;>
      rw [hfree] at hcall <;> cases hcall
    exact SizeClass.eq_of_free_eq_error hfree
  · cases hcall; rfl

theorem ChunkPool.eq_of_sizeOf_eq_error {pool : ChunkPool} {handle : Handle}
    {address : ChunkAddress} {e : HeapError} (h : pool.sizeOf handle address = .error e) :
    e = if address.slotOffset = 0 then .invalidHandle handle
      else .notBaseAddress handle address.slotOffset := by
  refine eq_of_base_gate (fun e' hcall => ?_) h
  rcases liveSlab_cases pool handle address with ⟨-, _, slab, -, -, -, hlive⟩ | ⟨-, hlive⟩ <;>
    rw [hlive] at hcall <;> cases hcall
  rfl

theorem BlockTable.eq_of_free_eq_error {table : BlockTable} {handle : Handle}
    {address : BlockAddress} {e : HeapError} (h : table.free handle address = .error e) :
    e = if address.offset = 0 then .invalidHandle handle
      else .notBaseAddress handle address.offset := by
  refine eq_of_base_gate (fun e' hcall => ?_) h
  split at hcall
  · cases hcall; rfl
  · split at hcall <;> cases hcall
    rfl

theorem BlockTable.eq_of_sizeOf_eq_error {table : BlockTable} {handle : Handle}
    {address : BlockAddress} {e : HeapError} (h : table.sizeOf handle address = .error e) :
    e = .invalidHandle handle := by
  unfold sizeOf liveBuffer at h
  rcases hbuffer : table.buffer? address.identifier with _ | buffer
  · rw [hbuffer] at h
    cases h
    rfl
  · rw [hbuffer] at h
    cases h

namespace Heap

variable {heap : Heap} {handle : Handle} {e : HeapError}

/-- **A refused release** is answered by what is wrong with the handle. -/
theorem eq_of_free_eq_error (h : heap.free handle = .error e) : e = handle.misuse := by
  unfold free at h
  split at h
  · cases h
  next hnull =>
  rw [Handle.eq_null_iff] at hnull
  rcases Int.lt_or_gt_of_ne hnull with hneg | hpos
  · rw [Address.ofHandle_of_neg hneg] at h
    rw [Handle.misuse_of_neg hneg]
    cases h
    rfl
  · rw [Address.ofHandle_of_pos hpos] at h
    rw [Handle.misuse_of_pos hpos]
    generalize handle.address = a at h ⊢
    rcases a with a | a
    · rcases hcall : heap.chunks.free handle a with e' | next <;> simp only [hcall] at h <;> cases h
      exact ChunkPool.eq_of_free_eq_error hcall
    · rcases hcall : heap.blocks.free handle a with e' | next <;> simp only [hcall] at h <;> cases h
      exact BlockTable.eq_of_free_eq_error hcall

/-- **A size that is not told** is refused for what is wrong with the handle. -/
theorem eq_of_sizeOf_eq_error (h : heap.sizeOf handle = .error e) : e = handle.misuse := by
  unfold sizeOf at h
  rcases Int.lt_trichotomy handle.toInt 0 with hneg | hzero | hpos
  · rw [Address.ofHandle_of_neg hneg] at h
    rw [Handle.misuse_of_neg hneg]
    cases h
    rfl
  · rw [Handle.eq_null_iff.mpr hzero, Address.ofHandle_null] at h
    rw [Handle.eq_null_iff.mpr hzero, Handle.misuse_null]
    cases h
    rfl
  · rw [Address.ofHandle_of_pos hpos] at h
    rw [Handle.misuse_of_pos hpos]
    generalize handle.address = a at h ⊢
    rcases a with a | a
    · exact ChunkPool.eq_of_sizeOf_eq_error h
    · exact eq_of_base_gate (fun _ => BlockTable.eq_of_sizeOf_eq_error) h

end Heap

namespace Session

/-! ### The answers of a run -/

/-- What a run of calls answers, call by call. -/
def answers : Session → List Call → List (Except HeapError (Option Handle))
  | _, [] => []
  | s, call :: calls => (s.heap.call call).1 :: answers (s.next call) calls

/-- What is live after a call was live before, or the call has answered it. -/
theorem mem_record {call : Call} {live : List Allocation}
    {answer : Except HeapError (Option Handle)} {b : Allocation}
    (h : b ∈ call.record live answer) : b ∈ live ∨ answer = .ok (some b.base) := by
  cases call with
  | fill | store | copy | storeArray => exact Or.inl h
  | allocate size =>
    rcases answer with e | _ | handle
    · exact Or.inl h
    · exact Or.inl h
    · rcases Allocation.mem_enter_iff.mp h with ⟨-, rfl⟩ | hold
      · exact Or.inr rfl
      · exact Or.inl hold
  | reallocate old size =>
    rcases answer with e | _ | handle
    · exact Or.inl h
    · exact Or.inl h
    · rcases Allocation.mem_enter_iff.mp h with ⟨-, rfl⟩ | hold
      · exact Or.inr rfl
      · exact Or.inl (Allocation.mem_strike_iff.mp hold).1
  | free handle =>
    rcases answer with e | value
    · exact Or.inl h
    · exact Or.inl (Allocation.mem_strike_iff.mp h).1

theorem mem_live_foldl {s : Session} {calls : List Call} {b : Allocation}
    (h : b ∈ (calls.foldl next s).live) : b ∈ s.live ∨ .ok (some b.base) ∈ s.answers calls := by
  induction calls generalizing s with
  | nil => exact Or.inl h
  | cons call calls ih =>
    rcases ih h with hlive | hanswer
    · rcases mem_record hlive with hold | hnew
      · exact Or.inl hold
      · exact Or.inr (List.mem_cons.mpr (Or.inl hnew.symm))
    · exact Or.inr (List.mem_cons_of_mem _ hanswer)

/-! ### Release and size -/

/-- What a session answers when a handle is released or its size is asked for: both are for the
bases of live allocations, and a release is for the null handle too.  A release takes the
allocation off the live ones, and a second one waits for a call that answers the handle again. -/
structure Accounts (s : Session) (handle : Handle) : Prop where
  freed_iff : (s.heap.call (.free handle)).1 = .ok none ↔
    handle.toInt = 0 ∨ ∃ b ∈ s.live, b.base = handle
  free_eq_error : ¬ (handle.toInt = 0 ∨ ∃ b ∈ s.live, b.base = handle) →
    (s.heap.call (.free handle)).1 = .error handle.misuse
  live_of_freed : handle.toInt ≠ 0 → (s.heap.call (.free handle)).1 = .ok none → ∀ b,
    (b ∈ (s.next (.free handle)).live ↔ b ∈ s.live ∧ b.base ≠ handle) ∧
      ((s.next (.free handle)).heap.sizeOf b.base = .ok b.size ↔ b ∈ s.live ∧ b.base ≠ handle)
  sizeOf_iff : ∀ n, s.heap.sizeOf handle = .ok n ↔ ⟨handle, n⟩ ∈ s.live
  sizeOf_eq_error : (¬ ∃ b ∈ s.live, b.base = handle) →
    s.heap.sizeOf handle = .error handle.misuse
  freed_again : handle.toInt ≠ 0 → (s.heap.call (.free handle)).1 = .ok none → ∀ between,
    ((between.foldl next (s.next (.free handle))).heap.call (.free handle)).1 = .ok none →
      .ok (some handle) ∈ (s.next (.free handle)).answers between

theorem mem_live_of_freed {s : Session} {handle : Handle}
    (hok : (s.heap.call (.free handle)).1 = .ok none) (b : Allocation) :
    b ∈ (s.next (.free handle)).live ↔ b ∈ s.live ∧ b.base ≠ handle := by
  show b ∈ Call.record s.live (.free handle) (s.heap.call (.free handle)).1 ↔ _
  rw [hok]
  exact Allocation.mem_strike_iff

section release
variable {s : Session} (hs : s.Sound) {handle : Handle}
include hs

theorem Sound.exists_live_iff :
    (∃ b ∈ s.live, b.base = handle) ↔ ∃ n, s.heap.sizeOf handle = .ok n := by
  constructor
  · rintro ⟨b, hb, rfl⟩
    exact ⟨b.size, (hs.mem_live_iff b).mp hb⟩
  · rintro ⟨n, hn⟩
    exact ⟨⟨handle, n⟩, (hs.mem_live_iff _).mpr hn, rfl⟩

theorem Sound.freed_iff : (s.heap.call (.free handle)).1 = .ok none ↔
    handle.toInt = 0 ∨ ∃ b ∈ s.live, b.base = handle := by
  rw [hs.exists_live_iff, ← Handle.eq_null_iff]
  constructor
  · intro hok
    rcases hs.free_cases handle with ⟨-, hnull, -⟩ | ⟨n, _, -, hn, -⟩ | ⟨e, hanswer, -⟩
    · exact Or.inl hnull
    · exact Or.inr ⟨n, hn⟩
    · rw [hanswer] at hok
      cases hok
  · unfold Heap.call
    rintro (rfl | ⟨n, hn⟩)
    · rfl
    · obtain ⟨next, hcall, -⟩ := hs.valid.exists_free hn
      simp only [hcall]
      rfl

theorem Sound.free_eq_error (h : ¬ (handle.toInt = 0 ∨ ∃ b ∈ s.live, b.base = handle)) :
    (s.heap.call (.free handle)).1 = .error handle.misuse := by
  rw [← hs.freed_iff] at h
  unfold Heap.call at h ⊢
  rcases hcall : s.heap.free handle with e | next <;> simp only [hcall] at h ⊢
  · rw [Heap.eq_of_free_eq_error hcall]
    rfl
  · exact absurd rfl h

theorem Sound.sizeOf_eq_error (h : ¬ ∃ b ∈ s.live, b.base = handle) :
    s.heap.sizeOf handle = .error handle.misuse := by
  rw [hs.exists_live_iff] at h
  rcases hsize : s.heap.sizeOf handle with e | n
  · rw [Heap.eq_of_sizeOf_eq_error hsize]
  · exact absurd ⟨n, hsize⟩ h

/-- A handle that has been released is answered by a call before it is released again. -/
theorem Sound.freed_again (hne : handle.toInt ≠ 0)
    (hok : (s.heap.call (.free handle)).1 = .ok none) {between : List Call}
    (hagain : ((between.foldl Session.next (s.next (.free handle))).heap.call
      (.free handle)).1 = .ok none) :
    .ok (some handle) ∈ (s.next (.free handle)).answers between := by
  have ht := (hs.next (.free handle)).foldl between
  rcases ht.freed_iff.mp hagain with hzero | ⟨b, hb, rfl⟩
  · exact absurd hzero hne
  · rcases mem_live_foldl hb with hold | hanswer
    · exact absurd rfl ((mem_live_of_freed hok b).mp hold).2
    · exact hanswer

theorem Sound.accounts : s.Accounts handle := by
  refine ⟨hs.freed_iff, hs.free_eq_error, fun _ hok b => ?_, fun n => ?_, hs.sizeOf_eq_error,
    fun hne hok between hagain => hs.freed_again hne hok hagain⟩
  · have hmem := mem_live_of_freed hok b
    exact ⟨hmem, ((hs.next (.free handle)).mem_live_iff b).symm.trans hmem⟩
  · exact (hs.mem_live_iff ⟨handle, n⟩).symm

end release

/-- **Releases and sizes are for the bases of live allocations.**  After any calls and for any
handle, a release succeeds at such a base and at the null handle, a size is told at such a base and
is the one that was asked for, and what is refused is answered by what is wrong with the handle. -/
theorem accounts_after {settings : Settings} (h : settings.validate = .ok ())
    (calls : List Call) (handle : Handle) : (after settings calls).Accounts handle :=
  (sound_after h calls).accounts

/-- The first of two chunks in one slab, which has been given back. -/
theorem accounts_after_release :
    (after {} [.allocate 16, .allocate 16, .free (.ofSlot 15 0 0)]).Accounts (.ofSlot 15 0 0) :=
  accounts_after rfl _ _

/-! ### Refused calls -/

/-- A call leaves no trace: neither in the heap, nor in what is live, nor in any later answer. -/
structure Unchanged (s : Session) (call : Call) : Prop where
  heap_eq : (s.heap.call call).2 = s.heap
  live_eq : (s.next call).live = s.live
  answers_eq : ∀ later, (s.next call).answers later = s.answers later

/-- The calls of a run that are not refused. -/
def granted : Session → List Call → List Call
  | _, [] => []
  | s, call :: calls =>
    if (s.heap.call call).1.isOk then call :: granted (s.next call) calls
    else granted (s.next call) calls

section refused
variable {s : Session} (hs : s.Sound)
include hs

theorem Sound.next_allocate_eq_self {size : Int} {e : HeapError}
    (hrefused : (s.heap.call (.allocate size)).1 = .error e) : s.next (.allocate size) = s := by
  rcases hs.allocate_cases size with ⟨hok, -⟩ | ⟨_, _, hok, -⟩ | ⟨_, -, hnext⟩
  · exact nomatch hok.symm.trans hrefused
  · exact nomatch hok.symm.trans hrefused
  · exact hnext

theorem Sound.next_free_eq_self {handle : Handle} {e : HeapError}
    (hrefused : (s.heap.call (.free handle)).1 = .error e) : s.next (.free handle) = s := by
  rcases hs.free_cases handle with ⟨hok, -⟩ | ⟨_, _, hok, -⟩ | ⟨_, -, hnext⟩
  · exact nomatch hok.symm.trans hrefused
  · exact nomatch hok.symm.trans hrefused
  · exact hnext

/-- A reallocation is refused before it has begun: once the new allocation is made, the move of the
bytes and the release of the old one go through. -/
theorem Sound.next_reallocate_eq_self {handle : Handle} {size : Int} {e : HeapError}
    (hrefused : (s.heap.call (.reallocate handle size)).1 = .error e) :
    s.next (.reallocate handle size) = s := by
  rcases hs.reallocate_cases handle size with
    ⟨-, hanswer, hnext⟩ | ⟨_, _, hok, -⟩ | ⟨_, _, _, hok, -⟩ | ⟨_, -, hnext, -⟩
  · rw [hanswer] at hrefused
    rw [hnext]
    exact hs.next_allocate_eq_self hrefused
  · exact nomatch hok.symm.trans hrefused
  · exact nomatch hok.symm.trans hrefused
  · exact hnext

theorem Sound.next_write_eq_self {call : Call} (h : call.isWrite = true) {e : HeapError}
    (hrefused : (s.heap.call call).1 = .error e) : s.next call = s := by
  rcases hs.write_cases h with ⟨_, _, _, hok, -⟩ | ⟨_, -, hnext⟩
  · exact nomatch hok.symm.trans hrefused
  · exact hnext

/-- **A refused call** leaves the session as it is. -/
theorem Sound.next_eq_self {call : Call} {e : HeapError}
    (hrefused : (s.heap.call call).1 = .error e) : s.next call = s := by
  cases call with
  | allocate => exact hs.next_allocate_eq_self hrefused
  | reallocate => exact hs.next_reallocate_eq_self hrefused
  | free => exact hs.next_free_eq_self hrefused
  | fill | store | copy | storeArray => exact hs.next_write_eq_self rfl hrefused

theorem Sound.unchanged {call : Call} {e : HeapError}
    (hrefused : (s.heap.call call).1 = .error e) : s.Unchanged call := by
  have hnext := hs.next_eq_self hrefused
  refine ⟨congrArg heap hnext, congrArg live hnext, fun later => ?_⟩
  rw [hnext]

end refused

theorem granted_cons_of_error {s : Session} {call : Call} {e : HeapError}
    (hrefused : (s.heap.call call).1 = .error e) (calls : List Call) :
    s.granted (call :: calls) = (s.next call).granted calls := by
  rw [granted, hrefused]
  rfl

theorem granted_cons_of_ok {s : Session} {call : Call} {value : Option Handle}
    (hok : (s.heap.call call).1 = .ok value) (calls : List Call) :
    s.granted (call :: calls) = call :: (s.next call).granted calls := by
  rw [granted, hok]
  rfl

/-- A run comes to the same session without its refused calls. -/
theorem Sound.foldl_granted {s : Session} (hs : s.Sound) (calls : List Call) :
    (s.granted calls).foldl Session.next s = calls.foldl Session.next s := by
  induction calls generalizing s with
  | nil => rfl
  | cons call calls ih =>
    rcases hanswer : (s.heap.call call).1 with e | value
    · -- the session stays, so the rest of the run starts where the refused call did
      rw [granted_cons_of_error hanswer, List.foldl_cons, hs.next_eq_self hanswer]
      exact ih hs
    · rw [granted_cons_of_ok hanswer, List.foldl_cons, List.foldl_cons]
      exact ih (hs.next call)

/-- The refusals are all that its answers lose. -/
theorem Sound.answers_granted {s : Session} (hs : s.Sound) (calls : List Call) :
    s.answers (s.granted calls) = (s.answers calls).filter (·.isOk) := by
  induction calls generalizing s with
  | nil => rfl
  | cons call calls ih =>
    rcases hanswer : (s.heap.call call).1 with e | value
    · rw [granted_cons_of_error hanswer, hs.next_eq_self hanswer, answers, hanswer,
        hs.next_eq_self hanswer, List.filter_cons_of_neg Bool.false_ne_true]
      exact ih hs
    · rw [granted_cons_of_ok hanswer, answers, answers, hanswer, List.filter_cons_of_pos rfl]
      exact congrArg _ (ih (hs.next call))

/-- **A refused call leaves no trace.**  After any calls, a call that is refused changes nothing,
and so the refused calls of a run can be left out of it: the session is the same, and so are the
answers of the calls that remain. -/
theorem refused_leaves_no_trace {settings : Settings} (h : settings.validate = .ok ())
    (calls : List Call) :
    (∀ call e, ((after settings calls).heap.call call).1 = .error e →
        (after settings calls).Unchanged call) ∧
      after settings ((start settings).granted calls) = after settings calls ∧
      (start settings).answers ((start settings).granted calls)
        = ((start settings).answers calls).filter (·.isOk) :=
  ⟨fun _ _ hrefused => (sound_after h calls).unchanged hrefused,
    (sound_start h).foldl_granted calls, (sound_start h).answers_granted calls⟩

/-- The settings of a heap with room for four chunks of 1024 bytes. -/
def tight : Settings := { slabBufferSize := 1024, chainIncrement := 1, maxChainLength := 1 }

/-- A run that fills the chain of the largest chunks, with a fifth of them refused. -/
def crowded : List Call :=
  [.allocate 16, .allocate 1024, .allocate 1024, .allocate 1024, .allocate 1024, .allocate 1024]

/-- In a full chain, a reallocation that finds no room for the new allocation. -/
theorem refused_leaves_no_trace_of_full_chain :
    ((after tight crowded).heap.call (.reallocate (.ofSlot 15 0 0) 1024)).1
        = .error (.chainFull 1024 1) ∧
      (after tight crowded).Unchanged (.reallocate (.ofSlot 15 0 0) 1024) ∧
      after tight ((start tight).granted crowded) = after tight crowded ∧
      (start tight).answers ((start tight).granted crowded)
        = ((start tight).answers crowded).filter (·.isOk) := by
  have hrefused : ((after tight crowded).heap.call (.reallocate (.ofSlot 15 0 0) 1024)).1
      = .error (.chainFull 1024 1) := by decide +kernel
  obtain ⟨hunchanged, hrun⟩ := @refused_leaves_no_trace tight rfl crowded
  exact ⟨hrefused, hunchanged _ _ hrefused, hrun⟩

end Session

end HandleHeap
