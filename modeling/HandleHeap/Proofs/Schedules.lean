import HandleHeap.CommandLine.Stress
import HandleHeap.Proofs.Stocks

/-!
# Schedules of stress runs

A stress run has one task for each piece.  A task allocates its piece and, if the piece has room,
writes its number into it; when all tasks are done the pieces are given back.  What a run reports,
and whether it is refused, is a closed form of its settings and arguments: neither the order in
which the tasks take their turns nor that in which the pieces are given back shows in it.

* `Fits`, `refusal`, `stressResult`: the closed form;
* `turn`, `inTurn`, `scheduledUsage`: runs whose tasks take turns at the heap;
* `Filled`: what is kept while the tasks take their turns; `Filled.allocate` and `Filled.store` are
  the two kinds of turn, and `schedule_cases` tells what a whole schedule can do;
* `exists_freeAll`: the release of all pieces, in any order;
* `fillAll_eq`: the tasks in order are one schedule of many;
* `stressResult_of_schedules`: the closed form of a run, with its tasks in order or under any
  schedule.
-/

namespace HandleHeap.CommandLine

/-! ### The closed form -/

/-- A run is not refused if it asks for no piece, or if pieces of the size exist and there is room
for as many. -/
def Fits (settings : Settings) (size : Int) (count : Nat) : Prop :=
  count = 0 ∨ 0 ≤ size ∧ size ≤ 0x7fffffff ∧
    (1 ≤ size ∧ size ≤ 1024 →
      count ≤ settings.chunkLimit (Slab.capacity size.toNat settings.slabBufferSize)) ∧
    (1024 < size → count ≤ 0x3fffffff)

instance (settings : Settings) (size : Int) (count : Nat) : Decidable (Fits settings size count) :=
  inferInstanceAs (Decidable (_ ∨ _))

/-- Why a run is refused whose pieces do not fit. -/
def refusal (settings : Settings) (size : Int) : HeapError :=
  if size < 0 ∨ 0x7fffffff < size then .sizeOutOfRange size
  else if size ≤ 1024 then .chainFull size.toNat settings.maxChainLength
  else .tableFull 0x3fffffff

/-- The pieces of a run that take memory: none if they have no bytes. -/
def piecesOf (size : Int) (count : Nat) : Nat := if size = 0 then 0 else count

/-- **The closed form of a run.** -/
def stressResult (settings : Settings) (size : Int) (count : Nat) (keep : Bool) :
    Except HeapError Usage :=
  if Fits settings size count then
    .ok (Usage.ofPieces settings size.toNat (piecesOf size count)
      (if keep then piecesOf size count else 0))
  else .error (refusal settings size)

/-! ### Tasks -/

/-- One turn of a task: it allocates its piece, or writes its number into it.  The pieces so far are
listed newest first, under the numbers of their tasks. -/
def turn (order : ByteOrder) (size : Int) (state : List (Nat × Handle) × Heap) (task : Nat) :
    Except HeapError (List (Nat × Handle) × Heap) :=
  match state.1.lookup task with
  | none =>
    match state.2.allocate size with
    | (.error e, _) => .error e
    | (.ok handle, heap) => .ok ((task, handle) :: state.1, heap)
  | some handle =>
    (state.2.store .long order handle (Int64.ofNat task)).map fun heap => (state.1, heap)

/-- The turns that a task needs: one more if its piece has room for a number. -/
def turnsOf (size : Int) : Nat := if 8 ≤ size then 2 else 1

/-- The schedule in which each task takes its turns before the next task begins. -/
def inTurn (size : Int) (count : Nat) : List Nat :=
  (List.range count).flatMap fun task => List.replicate (turnsOf size) task

/-- The usage after the tasks have taken their turns by a schedule, all pieces given back again, in
the given order of their tasks, unless kept. -/
def scheduledUsage (settings : Settings) (size : Int) (keep : Bool) (schedule order : List Nat) :
    Except HeapError Usage := do
  let (pieces, heap) ← schedule.foldlM (turn settings.byteOrder size) ([], Heap.fresh settings)
  let heap ← if keep then pure heap else freeAll (order.filterMap (pieces.lookup ·)) heap
  return heap.usage

/-! ### What fits -/

section fits
variable {settings : Settings} {size : Int} {count fewer : Nat}

theorem Fits.mono (h : Fits settings size count) (hle : fewer ≤ count) :
    Fits settings size fewer := by
  rcases h with hzero | ⟨hlow, hhigh, hchunks, hblocks⟩
  · exact Or.inl (by omega)
  · exact Or.inr ⟨hlow, hhigh, fun hsize => hle.trans (hchunks hsize),
      fun hsize => hle.trans (hblocks hsize)⟩

theorem fits_zero : Fits settings 0 count :=
  Or.inr ⟨Int.le_refl 0, by decide, fun h => absurd h.1 (by decide), fun h => absurd h (by decide)⟩

theorem not_fits_of_refused (h : size < 0 ∨ 0x7fffffff < size) :
    ¬ Fits settings size (count + 1) := by
  rintro (hzero | ⟨hlow, hhigh, -⟩) <;> omega

theorem fits_chunk_iff {size : Nat} (hsize : ChunkSize.IsChunk size) :
    Fits settings size (count + 1) ↔
      count < settings.chunkLimit (Slab.capacity size settings.slabBufferSize) := by
  obtain ⟨hlow, hhigh⟩ := hsize
  unfold ChunkSize.least at hlow
  unfold ChunkSize.greatest at hhigh
  unfold Fits
  rw [Int.toNat_natCast]
  omega

theorem fits_block_iff {size : Nat} (hlow : ChunkSize.greatest < size)
    (hhigh : (size : Int) ≤ Heap.greatestSize) :
    Fits settings size (count + 1) ↔ count < BlockTable.greatestIdentifier := by
  unfold ChunkSize.greatest at hlow
  unfold Heap.greatestSize at hhigh
  unfold Fits BlockTable.greatestIdentifier
  omega

end fits

/-! ### Turns -/

theorem lookup_eq_none_iff {pieces : List (Nat × Handle)} {task : Nat} :
    pieces.lookup task = none ↔ task ∉ pieces.map Prod.fst := by
  rw [List.lookup_eq_none_iff, List.mem_map]
  constructor
  · rintro h ⟨piece, hpiece, rfl⟩
    exact bne_iff_ne.mp (h piece hpiece) rfl
  · exact fun h piece hpiece => bne_iff_ne.mpr fun heq => h ⟨piece, hpiece, heq.symm⟩

/-- The live allocations of a run: its pieces, unless these have no bytes. -/
def liveOf (size : Int) (pieces : List (Nat × Handle)) : List Allocation :=
  if size = 0 then [] else pieces.map fun piece => ⟨piece.2, size.toNat⟩

/-- **What is kept while tasks take their turns**: each task has one piece at most, and the heap
holds the pieces and has never held anything else. -/
structure Filled (settings : Settings) (size : Int) (pieces : List (Nat × Handle)) (heap : Heap) :
    Prop where
  stocked : (Session.mk heap (liveOf size pieces)).Stocked settings size.toNat
    (liveOf size pieces).length
  null_of_zero : size = 0 → ∀ piece ∈ pieces, piece.2 = Handle.null
  nodup : (pieces.map Prod.fst).Nodup

theorem length_liveOf (size : Int) (pieces : List (Nat × Handle)) :
    (liveOf size pieces).length = piecesOf size pieces.length := by
  unfold liveOf piecesOf
  split
  · rfl
  · exact List.length_map _

theorem map_base_liveOf {size : Int} (hsize : size ≠ 0) (pieces : List (Nat × Handle)) :
    (liveOf size pieces).map (·.base) = pieces.map Prod.snd := by
  unfold liveOf
  rw [if_neg hsize, List.map_map]
  rfl

theorem filled_start {settings : Settings} (h : settings.validate = .ok ()) (size : Int) :
    Filled settings size [] (Heap.fresh settings) := by
  have hnil : liveOf size [] = [] := ite_self []
  refine ⟨?_, fun _ => nofun, List.nodup_nil⟩
  rw [hnil]
  exact Session.stocked_start h size.toNat

section turns
variable {settings : Settings} {size : Int} {pieces : List (Nat × Handle)} {heap : Heap}
  (hf : Filled settings size pieces heap)
include hf

theorem Filled.add {task : Nat} {handle : Handle} {next : Heap}
    (htask : task ∉ pieces.map Prod.fst)
    (hstocked : (Session.mk next (liveOf size ((task, handle) :: pieces))).Stocked settings
      size.toNat (liveOf size ((task, handle) :: pieces)).length)
    (hnull : size = 0 → handle = Handle.null) :
    Filled settings size ((task, handle) :: pieces) next :=
  ⟨hstocked, fun hzero => List.forall_mem_cons.mpr ⟨hnull hzero, hf.null_of_zero hzero⟩,
    List.nodup_cons.mpr ⟨htask, hf.nodup⟩⟩

/-- An allocation that is granted adds the piece of its task. -/
theorem Filled.granted {task : Nat} (htask : task ∉ pieces.map Prod.fst) (hpos : 1 ≤ size)
    {handle : Handle} (hok : (heap.call (.allocate size)).1 = .ok (some handle)) :
    ∃ next, heap.allocate size = (.ok handle, next) ∧
      Filled settings size ((task, handle) :: pieces) next := by
  have hsize : (size.toNat : Int) = size := Int.toNat_of_nonneg (by omega)
  have hok' : (heap.call (.allocate size.toNat)).1 = .ok (some handle) := by
    rw [hsize]
    exact hok
  have hlive := hf.stocked.live_allocate hok' (by omega)
  have hstocked := hf.stocked.next_allocate hok' (by omega)
  rw [hsize] at hlive hstocked
  have hmore : liveOf size ((task, handle) :: pieces)
      = ⟨handle, size.toNat⟩ :: liveOf size pieces := by
    unfold liveOf
    rw [if_neg (by omega), if_neg (by omega), List.map_cons]
  rw [hlive, ← hmore] at hstocked
  rcases hcall : heap.allocate size with ⟨e | other, next⟩ <;>
    simp only [Heap.call, hcall] at hok <;> cases hok
  have hnext : (Session.mk heap (liveOf size pieces)).next (.allocate size)
      = ⟨next, liveOf size ((task, handle) :: pieces)⟩ := by
    rw [hmore, ← hlive]
    simp only [Session.next, Heap.call, hcall]
    rfl
  rw [hnext] at hstocked
  exact ⟨next, rfl, hf.add htask hstocked (by omega)⟩

/-- No bytes are the null handle, and there is always room for them. -/
theorem Filled.allocate_zero {task : Nat} (htask : task ∉ pieces.map Prod.fst)
    (hzero : size = 0) :
    heap.allocate size = (.ok Handle.null, heap) ∧
      Filled settings size ((task, Handle.null) :: pieces) heap := by
  have hsame : liveOf size ((task, Handle.null) :: pieces) = liveOf size pieces := by
    unfold liveOf
    rw [if_pos hzero, if_pos hzero]
  refine ⟨if_pos hzero, hf.add htask ?_ fun _ => rfl⟩
  rw [hsame]
  exact hf.stocked

omit hf in
/-- Memory that a run asks for is refused if the pieces would not fit with one more. -/
theorem Filled.room {n : Nat} (hf : Filled settings n pieces heap) (hpos : 0 < n)
    (hhigh : (n : Int) ≤ Heap.greatestSize) :
    (Fits settings n (pieces.length + 1) ∧
        ∃ handle, (heap.call (.allocate n)).1 = .ok (some handle)) ∨
      (¬ Fits settings n (pieces.length + 1) ∧
        (heap.call (.allocate n)).1 = .error (refusal settings n)) := by
  have hlength := length_liveOf n pieces
  rw [piecesOf, if_neg (by omega)] at hlength
  have hstocked := hf.stocked
  rw [Int.toNat_natCast] at hstocked
  have hcount := hstocked.liveOf_eq
  have hexists : ¬ ((n : Int) < 0 ∨ (0x7fffffff : Int) < n) := by
    unfold Heap.greatestSize at hhigh
    omega
  rw [refusal, if_neg hexists]
  by_cases hsize : ChunkSize.IsChunk n
  · have hsmall : (n : Int) ≤ 1024 := Int.ofNat_le.mpr hsize.2
    rw [fits_chunk_iff hsize, if_pos hsmall, Int.toNat_natCast, ← hlength, ← hcount]
    rcases hstocked.sound.allocate_limit hsize hstocked.graduated with
      ⟨hok, hlt⟩ | ⟨herror, heq⟩
    · exact Or.inl ⟨hlt, hok⟩
    · exact Or.inr ⟨Nat.not_lt.mpr heq.ge, herror⟩
  · have hlow : ChunkSize.greatest < n := Nat.not_le.mp fun hle => hsize ⟨hpos, hle⟩
    have hlarge : ¬ (n : Int) ≤ 1024 := fun hle => Nat.not_le.mpr hlow (Int.ofNat_le.mp hle)
    rw [fits_block_iff hlow hhigh, if_neg hlarge, ← hlength]
    rcases hstocked.allocate_limit_block hlow hhigh with ⟨hok, hlt⟩ | ⟨herror, heq⟩
    · exact Or.inl ⟨hlt, hok⟩
    · exact Or.inr ⟨Nat.not_lt.mpr heq.ge, herror⟩

/-- **The first turn** of a task is refused if the pieces would not fit with its own. -/
theorem Filled.allocate {task : Nat} (htask : task ∉ pieces.map Prod.fst) :
    (Fits settings size (pieces.length + 1) ∧ ∃ handle next,
        heap.allocate size = (.ok handle, next) ∧
          Filled settings size ((task, handle) :: pieces) next) ∨
      (¬ Fits settings size (pieces.length + 1) ∧
        (heap.allocate size).1 = .error (refusal settings size)) := by
  by_cases hrefused : size < 0 ∨ 0x7fffffff < size
  · right
    rw [heap.allocate_refused hrefused, refusal, if_pos hrefused]
    exact ⟨not_fits_of_refused hrefused, rfl⟩
  by_cases hzero : size = 0
  · obtain ⟨hcall, hnext⟩ := hf.allocate_zero htask hzero
    exact Or.inl ⟨hzero ▸ fits_zero, Handle.null, heap, hcall, hnext⟩
  obtain ⟨n, rfl⟩ := Int.eq_ofNat_of_zero_le (by omega : 0 ≤ size)
  rcases hf.room (by omega) (by unfold Heap.greatestSize; omega) with
    ⟨hfits, handle, hok⟩ | ⟨hnot, herror⟩
  · exact Or.inl ⟨hfits, handle, hf.granted htask (by omega) hok⟩
  · refine Or.inr ⟨hnot, ?_⟩
    rcases hcall : heap.allocate n with ⟨e | handle, next⟩ <;>
      simp only [Heap.call, hcall] at herror <;> cases herror
    rfl

/-- **The second turn** of a task writes its number into its piece. -/
theorem Filled.store {piece : Nat × Handle} (hpiece : piece ∈ pieces) (hsize : 8 ≤ size)
    (order : ByteOrder) (value : Int64) :
    ∃ next, heap.store .long order piece.2 value = .ok next ∧
      Filled settings size pieces next := by
  have hlive : (⟨piece.2, size.toNat⟩ : Allocation) ∈ liveOf size pieces := by
    unfold liveOf
    rw [if_neg (by omega)]
    exact List.mem_map_of_mem hpiece
  have hs := hf.stocked.sound
  have hroom : (Scalar.long.encode order value).length ≤ size.toNat := by
    rw [Scalar.length_encode]
    show 8 ≤ size.toNat
    omega
  obtain ⟨next, hwrite, -⟩ := hs.valid.exists_write
    (Heap.checkRange_of_sizeOf ((hs.mem_live_iff _).mp hlive) hroom)
  have hstocked := hf.stocked.next
    (show (Call.store .long order piece.2 value).requested = none from rfl)
  have hnext : (Session.mk heap (liveOf size pieces)).next (.store .long order piece.2 value)
      = ⟨next, liveOf size pieces⟩ := by
    simp only [Session.next, Heap.call, Heap.store, hwrite]
    rfl
  rw [hnext] at hstocked
  exact ⟨next, hwrite, hstocked, hf.null_of_zero, hf.nodup⟩

/-- **What a turn can do.** -/
theorem Filled.turn_cases (order : ByteOrder) (task : Nat)
    (hagain : task ∈ pieces.map Prod.fst → 8 ≤ size) :
    (task ∈ pieces.map Prod.fst ∧ ∃ next, turn order size (pieces, heap) task = .ok (pieces, next) ∧
        Filled settings size pieces next) ∨
      (task ∉ pieces.map Prod.fst ∧ Fits settings size (pieces.length + 1) ∧ ∃ handle next,
        turn order size (pieces, heap) task = .ok ((task, handle) :: pieces, next) ∧
          Filled settings size ((task, handle) :: pieces) next) ∨
      (task ∉ pieces.map Prod.fst ∧ ¬ Fits settings size (pieces.length + 1) ∧
        turn order size (pieces, heap) task = .error (refusal settings size)) := by
  rcases hlookup : pieces.lookup task with _ | handle
  · have htask := lookup_eq_none_iff.mp hlookup
    simp only [turn, hlookup]
    rcases hf.allocate htask with ⟨hfits, handle, next, hcall, hnext⟩ | ⟨hnot, herror⟩
    · rw [hcall]
      exact Or.inr (Or.inl ⟨htask, hfits, handle, next, rfl, hnext⟩)
    · rcases hcall : heap.allocate size with ⟨e | handle, next⟩ <;> rw [hcall] at herror <;>
        cases herror
      exact Or.inr (Or.inr ⟨htask, hnot, rfl⟩)
  · obtain ⟨before, after, hsplit, -⟩ := List.lookup_eq_some_iff.mp hlookup
    have hpiece : (task, handle) ∈ pieces := by
      rw [hsplit]
      exact List.mem_append_right _ List.mem_cons_self
    have hmem := List.mem_map_of_mem (f := Prod.fst) hpiece
    obtain ⟨next, hstore, hnext⟩ := hf.store hpiece (hagain hmem) order (Int64.ofNat task)
    simp only [turn, hlookup, hstore]
    exact Or.inl ⟨hmem, next, rfl, hnext⟩

end turns

/-! ### Schedules -/

/-- **What a schedule can do.**  A run holds one piece for each task that has had a turn, or it is
refused because so many do not fit. -/
theorem schedule_cases {settings : Settings} (h : settings.validate = .ok ()) {size : Int}
    (schedule : List Nat) (hagain : 8 ≤ size ∨ schedule.Nodup) :
    (Fits settings size schedule.toFinset.card ∧ ∃ pieces heap,
        schedule.foldlM (turn settings.byteOrder size) ([], Heap.fresh settings)
          = .ok (pieces, heap) ∧
        Filled settings size pieces heap ∧
        (pieces.map Prod.fst).toFinset = schedule.toFinset) ∨
      (¬ Fits settings size schedule.toFinset.card ∧
        schedule.foldlM (turn settings.byteOrder size) ([], Heap.fresh settings)
          = .error (refusal settings size)) := by
  -- from the end: the last turn finds a heap that is `Filled` with the pieces of the others
  induction schedule using List.reverseRecOn with
  | nil => exact Or.inl ⟨Or.inl rfl, [], Heap.fresh settings, rfl, filled_start h size, rfl⟩
  | append_singleton schedule task ih =>
    have hrun : ∀ state, (schedule ++ [task]).foldlM (turn settings.byteOrder size) state
        = (schedule.foldlM (turn settings.byteOrder size) state).bind
            fun state => turn settings.byteOrder size state task := by
      intro state
      rw [List.foldlM_append]
      exact congrArg (Except.bind _) (funext fun _ => bind_pure _)
    have hcard : (schedule ++ [task]).toFinset = insert task schedule.toFinset := by
      rw [List.toFinset_append, Finset.insert_eq, Finset.union_comm]
      rfl
    have hbefore : 8 ≤ size ∨ schedule.Nodup := hagain.imp_right List.Nodup.of_append_left
    rw [hrun, hcard]
    rcases ih hbefore with ⟨hfits, pieces, heap, hcall, hf, htasks⟩ | ⟨hnot, hcall⟩
    · have hlength : pieces.length = schedule.toFinset.card := by
        rw [← htasks, List.toFinset_card_of_nodup hf.nodup, List.length_map]
      have hmem : task ∈ pieces.map Prod.fst ↔ task ∈ schedule.toFinset := by
        rw [← htasks, List.mem_toFinset]
      have hagain' : task ∈ pieces.map Prod.fst → 8 ≤ size := fun hold =>
        hagain.resolve_right fun hnodup => List.disjoint_of_nodup_append hnodup
          (List.mem_toFinset.mp (hmem.mp hold)) List.mem_cons_self
      rw [hcall]
      rcases hf.turn_cases settings.byteOrder task hagain' with
        ⟨hold, next, hturn, hnext⟩ | ⟨hnew, hmore, handle, next, hturn, hnext⟩ |
        ⟨hnew, hless, hturn⟩
      · rw [Finset.insert_eq_of_mem (hmem.mp hold)]
        exact Or.inl ⟨hfits, pieces, next, hturn, hnext, htasks⟩
      · rw [Finset.card_insert_of_notMem fun hold => hnew (hmem.mpr hold), ← hlength]
        refine Or.inl ⟨hmore, _, next, hturn, hnext, ?_⟩
        rw [List.map_cons, List.toFinset_cons, htasks]
      · rw [Finset.card_insert_of_notMem fun hold => hnew (hmem.mpr hold), ← hlength]
        exact Or.inr ⟨hless, hturn⟩
    · -- what did not fit before does not fit with more tasks
      refine Or.inr ⟨fun hfits => hnot (hfits.mono ?_), by rw [hcall]; rfl⟩
      exact Finset.card_le_card (Finset.subset_insert _ _)

/-! ### Releases -/

/-- Null handles are given back without effect. -/
theorem freeAll_null {handles : List Handle} (h : ∀ handle ∈ handles, handle = Handle.null)
    (heap : Heap) : freeAll handles heap = .ok heap := by
  induction handles with
  | nil => rfl
  | cons handle handles ih =>
    rw [List.forall_mem_cons] at h
    have hcall : heap.free handle = .ok heap := if_pos h.1
    have hrest := ih h.2
    unfold freeAll at hrest ⊢
    rw [List.foldlM_cons, hcall]
    exact hrest

/-- **Pieces are given back in any order**, each once, and leave what was not among them. -/
theorem exists_freeAll {settings : Settings} {size peak : Nat} {handles : List Handle}
    {s : Session} (h : s.Stocked settings size peak) (hnodup : handles.Nodup)
    (hlive : ∀ handle ∈ handles, ∃ b ∈ s.live, b.base = handle) :
    ∃ t : Session, freeAll handles s.heap = .ok t.heap ∧ t.Stocked settings size peak ∧
      ∀ b ∈ t.live, b ∈ s.live ∧ b.base ∉ handles := by
  induction handles generalizing s with
  | nil => exact ⟨s, rfl, h, fun b hb => ⟨hb, List.not_mem_nil⟩⟩
  | cons handle handles ih =>
    rw [List.nodup_cons] at hnodup
    rw [List.forall_mem_cons] at hlive
    obtain ⟨hthis, hothers⟩ := hlive
    have hok := h.sound.freed_iff.mpr (Or.inr hthis)
    rcases hcall : s.heap.free handle with e | next <;>
      simp only [Heap.call, hcall, Heap.settle] at hok <;> cases hok
    have hnext : s.next (.free handle) = ⟨next, Allocation.strike s.live handle⟩ := by
      simp only [Session.next, Heap.call, hcall]
      rfl
    have hstocked := h.next (show (Call.free handle).requested = none from rfl)
    rw [hnext] at hstocked
    -- the other pieces are live still, since no handle is given back twice
    obtain ⟨t, hall, ht, hleft⟩ := ih hstocked hnodup.2 fun other hother => by
      obtain ⟨b, hb, rfl⟩ := hothers other hother
      refine ⟨b, Allocation.mem_strike_iff.mpr ⟨hb, ?_⟩, rfl⟩
      rintro rfl
      exact hnodup.1 hother
    refine ⟨t, ?_, ht, fun b hb => ?_⟩
    · unfold freeAll at hall ⊢
      rw [List.foldlM_cons, hcall]
      exact hall
    · obtain ⟨hstruck, hnot⟩ := hleft b hb
      obtain ⟨hold, hne⟩ := Allocation.mem_strike_iff.mp hstruck
      exact ⟨hold, List.not_mem_cons_of_ne_of_not_mem hne hnot⟩

section release
variable {settings : Settings} {size : Int} {pieces : List (Nat × Handle)} {heap : Heap}
  (hf : Filled settings size pieces heap)
include hf

/-- With all pieces kept, the report tells how many there are. -/
theorem Filled.usage_eq : heap.usage = Usage.ofPieces settings size.toNat
    (piecesOf size pieces.length) (piecesOf size pieces.length) := by
  rw [← length_liveOf]
  exact hf.stocked.usage_eq fun hzero => congrArg List.length (hf.stocked.live_eq_nil hzero)

/-- With all pieces given back, in whatever order, it tells how many there were. -/
theorem Filled.exists_freeAll {handles : List Handle}
    (hperm : handles.Perm (pieces.map Prod.snd)) :
    ∃ next, freeAll handles heap = .ok next ∧ next.usage = Usage.ofPieces settings size.toNat
      (piecesOf size pieces.length) 0 := by
  by_cases hzero : size = 0
  · have hnull : ∀ handle ∈ handles, handle = Handle.null := by
      intro handle hhandle
      obtain ⟨piece, hpiece, rfl⟩ := List.mem_map.mp (hperm.mem_iff.mp hhandle)
      exact hf.null_of_zero hzero piece hpiece
    have hnone : piecesOf size pieces.length = 0 := if_pos hzero
    have husage := hf.usage_eq
    rw [hnone] at husage ⊢
    exact ⟨heap, freeAll_null hnull heap, husage⟩
  · have hbases := map_base_liveOf hzero pieces
    have hnodup : handles.Nodup := by
      rw [hperm.nodup_iff, ← hbases]
      exact hf.stocked.sound.nodup
    have hlive : ∀ handle ∈ handles, ∃ b ∈ liveOf size pieces, b.base = handle := by
      intro handle hhandle
      rw [hperm.mem_iff, ← hbases] at hhandle
      exact List.mem_map.mp hhandle
    obtain ⟨t, hall, ht, hleft⟩ := CommandLine.exists_freeAll hf.stocked hnodup hlive
    have hnone : t.live = [] := by
      refine List.eq_nil_iff_forall_not_mem.mpr fun b hb => ?_
      obtain ⟨hold, hnot⟩ := hleft b hb
      refine hnot (hperm.mem_iff.mpr ?_)
      rw [← hbases]
      exact List.mem_map_of_mem hold
    have husage := ht.usage_eq fun hnothing =>
      congrArg List.length (hf.stocked.live_eq_nil hnothing)
    rw [hnone, length_liveOf] at husage
    exact ⟨t.heap, hall, husage⟩

end release

/-! ### The result of a run -/

/-- What is left to do once all tasks have had their turns. -/
theorem Filled.finish {settings : Settings} {size : Int} {pieces : List (Nat × Handle)}
    {heap : Heap} (hf : Filled settings size pieces heap) {handles : List Handle}
    (hperm : handles.Perm (pieces.map Prod.snd)) (keep : Bool) :
    (do
      let heap ← if keep then pure heap else freeAll handles heap
      return heap.usage : Except HeapError Usage)
      = .ok (Usage.ofPieces settings size.toNat (piecesOf size pieces.length)
          (if keep then piecesOf size pieces.length else 0)) := by
  cases keep with
  | true => exact congrArg Except.ok hf.usage_eq
  | false =>
    obtain ⟨next, hall, husage⟩ := hf.exists_freeAll hperm
    simp only [Bool.false_eq_true, if_false, hall, ← husage]
    rfl

theorem toFinset_inTurn (size : Int) (count : Nat) :
    (inTurn size count).toFinset = Finset.range count := by
  ext task
  have hturns : turnsOf size ≠ 0 := by
    unfold turnsOf
    split <;> decide
  simp [inTurn, hturns]

/-- Tasks whose pieces have no room for a number have a single turn. -/
theorem nodup_inTurn {size : Int} (hsize : ¬ 8 ≤ size) (count : Nat) :
    (inTurn size count).Nodup := by
  have hturns : turnsOf size = 1 := if_neg hsize
  have hsame : inTurn size count = List.range count := by simp [inTurn, hturns]
  rw [hsame]
  exact List.nodup_range

/-- All keys of a list of entries, looked up in it. -/
theorem filterMap_lookup {entries : List (Nat × Handle)}
    (hnodup : (entries.map Prod.fst).Nodup) :
    (entries.map Prod.fst).filterMap (entries.lookup ·) = entries.map Prod.snd := by
  induction entries with
  | nil => rfl
  | cons entry entries ih =>
    obtain ⟨key, handle⟩ := entry
    rw [List.map_cons, List.nodup_cons] at hnodup
    have hothers : ∀ other ∈ entries.map Prod.fst,
        ((key, handle) :: entries).lookup other = entries.lookup other := by
      intro other hother
      have hne : (other == key) = false := beq_false_of_ne fun heq => hnodup.1 (heq ▸ hother)
      rw [List.lookup_cons, hne]
    have hthis : ((key, handle) :: entries).lookup key = some handle := List.lookup_cons_self
    have hrest := (List.filterMap_congr hothers).trans (ih hnodup.2)
    simp only [List.map_cons, List.filterMap_cons, hthis, hrest]

/-- A run whose tasks take all of their turns, in whatever order, holds the pieces of all tasks, or
it is refused because they do not fit. -/
theorem tasks_cases {settings : Settings} (h : settings.validate = .ok ()) {size : Int}
    {count : Nat} {schedule : List Nat} (hschedule : schedule.Perm (inTurn size count)) :
    (Fits settings size count ∧ ∃ pieces heap,
        schedule.foldlM (turn settings.byteOrder size) ([], Heap.fresh settings)
          = .ok (pieces, heap) ∧
        Filled settings size pieces heap ∧
        (pieces.map Prod.fst).Perm (List.range count)) ∨
      (¬ Fits settings size count ∧
        schedule.foldlM (turn settings.byteOrder size) ([], Heap.fresh settings)
          = .error (refusal settings size)) := by
  have htasks : schedule.toFinset = Finset.range count :=
    (List.toFinset_eq_of_perm _ _ hschedule).trans (toFinset_inTurn size count)
  have hagain : 8 ≤ size ∨ schedule.Nodup := or_iff_not_imp_left.mpr fun hsize =>
    hschedule.nodup_iff.mpr (nodup_inTurn hsize count)
  have hcases := schedule_cases h schedule hagain
  rw [htasks, Finset.card_range] at hcases
  refine hcases.imp_left fun ⟨hfits, pieces, heap, hcall, hf, hkeys⟩ =>
    ⟨hfits, pieces, heap, hcall, hf, ?_⟩
  exact List.perm_of_nodup_nodup_toFinset_eq hf.nodup List.nodup_range
    (hkeys.trans (List.toFinset_range count).symm)

theorem length_of_perm_range {pieces : List (Nat × Handle)} {count : Nat}
    (h : (pieces.map Prod.fst).Perm (List.range count)) : pieces.length = count := by
  rw [← List.length_map Prod.fst, h.length_eq, List.length_range]

/-- **A schedule does not show.** -/
theorem scheduledUsage_eq {settings : Settings} (h : settings.validate = .ok ()) {size : Int}
    {count : Nat} (keep : Bool) {schedule order : List Nat}
    (hschedule : schedule.Perm (inTurn size count)) (horder : order.Perm (List.range count)) :
    scheduledUsage settings size keep schedule order
      = stressResult settings size count keep := by
  unfold scheduledUsage stressResult
  rcases tasks_cases h hschedule with ⟨hfits, pieces, heap, hcall, hf, hkeys⟩ | ⟨hnot, hcall⟩
  · have hhandles := (horder.trans hkeys.symm).filterMap (pieces.lookup ·)
    rw [filterMap_lookup hf.nodup] at hhandles
    rw [hcall, if_pos hfits, ← length_of_perm_range hkeys]
    exact hf.finish hhandles keep
  · rw [hcall, if_neg hnot]
    rfl

/-! ### One task after the other -/

section inTurn
variable (order : ByteOrder) (size : Int)

/-- A task that takes all of its turns at once allocates its piece and fills it. -/
theorem turns_cases {pieces : List (Nat × Handle)} {task : Nat}
    (htask : task ∉ pieces.map Prod.fst) (heap : Heap) :
    (∃ handle next,
        (List.replicate (turnsOf size) task).foldlM (turn order size) (pieces, heap)
          = .ok ((task, handle) :: pieces, next) ∧
        fillOne order size (pieces.map Prod.snd, heap) task
          = .ok (handle :: pieces.map Prod.snd, next)) ∨
      ∃ e, (List.replicate (turnsOf size) task).foldlM (turn order size) (pieces, heap)
          = .error e ∧
        fillOne order size (pieces.map Prod.snd, heap) task = .error e := by
  have hfirst := lookup_eq_none_iff.mpr htask
  have hagain : ∀ handle, ((task, handle) :: pieces).lookup task = some handle :=
    fun handle => List.lookup_cons_self
  unfold turnsOf
  rcases hcall : heap.allocate size with ⟨e | handle, next⟩
  · right
    refine ⟨e, ?_, by simp only [fillOne, hcall]⟩
    split <;> simp [List.replicate, turn, hfirst, hcall, bind, Except.bind]
  · by_cases hsize : 8 ≤ size
    · rw [if_pos hsize]
      rcases hstore : next.store .long order handle (Int64.ofNat task) with e | filled
      · right
        refine ⟨e, ?_, ?_⟩
        · simp [List.replicate, turn, hfirst, hagain, hcall, hstore, bind, Except.bind, Except.map]
        · simp [fillOne, hcall, hsize, hstore, Except.map]
      · left
        refine ⟨handle, filled, ?_, ?_⟩
        · simp [List.replicate, turn, hfirst, hagain, hcall, hstore, bind, Except.bind, Except.map,
            pure, Except.pure]
        · simp [fillOne, hcall, hsize, hstore, Except.map]
    · left
      rw [if_neg hsize]
      refine ⟨handle, next, ?_, ?_⟩
      · simp [List.replicate, turn, hfirst, hcall, bind, Except.bind, pure, Except.pure]
      · simp [fillOne, hcall, hsize]

theorem foldlM_fillOne {tasks : List Nat} (hnodup : tasks.Nodup)
    {pieces : List (Nat × Handle)} (hnew : ∀ task ∈ tasks, task ∉ pieces.map Prod.fst)
    (heap : Heap) : tasks.foldlM (fillOne order size) (pieces.map Prod.snd, heap) =
      ((tasks.flatMap fun task => List.replicate (turnsOf size) task).foldlM (turn order size)
        (pieces, heap)).map fun state => (state.1.map Prod.snd, state.2) := by
  induction tasks generalizing pieces heap with
  | nil => rfl
  | cons task tasks ih =>
    rw [List.nodup_cons] at hnodup
    rw [List.forall_mem_cons] at hnew
    rw [List.foldlM_cons, List.flatMap_cons, List.foldlM_append]
    rcases turns_cases order size hnew.1 heap with
      ⟨handle, next, hturns, hfill⟩ | ⟨e, hturns, hfill⟩ <;> rw [hturns, hfill]
    · have hnext : ∀ other ∈ tasks, other ∉ ((task, handle) :: pieces).map Prod.fst := by
        intro other hother
        rw [List.map_cons, List.mem_cons, not_or]
        refine ⟨?_, hnew.2 other hother⟩
        rintro rfl
        exact hnodup.1 hother
      exact ih hnodup.2 hnext next
    · rfl

/-- The tasks in order are one schedule of many. -/
theorem fillAll_eq (count : Nat) (heap : Heap) : fillAll order size count heap =
    ((inTurn size count).foldlM (turn order size) ([], heap)).map
      fun state => (state.1.map Prod.snd, state.2) := by
  have hnew : ∀ task ∈ List.range count, task ∉ ([] : List (Nat × Handle)).map Prod.fst :=
    fun _ _ => List.not_mem_nil
  exact foldlM_fillOne order size List.nodup_range hnew heap

end inTurn

theorem stressUsage_eq {settings : Settings} (h : settings.validate = .ok ()) (size : Int)
    (count : Nat) (keep : Bool) :
    stressUsage settings size count keep = stressResult settings size count keep := by
  unfold stressUsage stressResult
  rw [fillAll_eq]
  rcases tasks_cases h (List.Perm.refl (inTurn size count)) with
    ⟨hfits, pieces, heap, hcall, hf, hkeys⟩ | ⟨hnot, hcall⟩
  · rw [hcall, if_pos hfits, ← length_of_perm_range hkeys]
    exact hf.finish (List.Perm.refl _) keep
  · rw [hcall, if_neg hnot]
    rfl

/-- **A stress run has a closed form.**  It succeeds exactly when its pieces fit, and then what it
reports depends on their size, their number and whether they are kept.  The same holds for tasks
that take their turns in any other order, and for pieces that are given back in any other order. -/
theorem stressResult_of_schedules {settings : Settings} (h : settings.validate = .ok ())
    (size : Int) (count : Nat) (keep : Bool) :
    ((∃ usage, stressUsage settings size count keep = .ok usage) ↔ Fits settings size count) ∧
      stressUsage settings size count keep = stressResult settings size count keep ∧
      ∀ schedule order : List Nat, schedule.Perm (inTurn size count) →
        order.Perm (List.range count) →
        scheduledUsage settings size keep schedule order
          = stressResult settings size count keep := by
  refine ⟨?_, stressUsage_eq h size count keep,
    fun schedule order hschedule horder => scheduledUsage_eq h keep hschedule horder⟩
  rw [stressUsage_eq h, stressResult]
  constructor
  · rintro ⟨usage, hok⟩
    by_contra hnot
    rw [if_neg hnot] at hok
    cases hok
  · intro hfits
    rw [if_pos hfits]
    exact ⟨_, rfl⟩

/-- Five tasks in disorder fill two slabs, which stay when the pieces are given back; nine pieces
are too many for a chain that ends after two slabs. -/
theorem stressResult_of_schedules_of_uneven :
    scheduledUsage Session.uneven 1024 false [3, 0, 0, 1, 3, 4, 2, 1, 2, 4] [4, 1, 0, 3, 2]
        = .ok { classes := [⟨1024, 4, 2, 2, 0, 8⟩], liveChunks := 0, liveChunkBytes := 0
                liveBlocks := 0, liveBlockBytes := 0, tableLength := 0 } ∧
      stressUsage Session.uneven 1024 9 true = .error (.chainFull 1024 3) := by
  obtain ⟨-, -, hschedules⟩ := stressResult_of_schedules
    (show Session.uneven.validate = .ok () from rfl) 1024 5 false
  obtain ⟨-, hnine, -⟩ := stressResult_of_schedules
    (show Session.uneven.validate = .ok () from rfl) 1024 9 true
  constructor
  · rw [hschedules _ _ (by decide) (by decide)]
    decide +kernel
  · rw [hnine]
    decide +kernel

end HandleHeap.CommandLine
