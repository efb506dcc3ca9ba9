import HandleHeap.Proofs.Actions
import HandleHeap.Proofs.Peaks

/-!
# Realms

The chunks of one size are a realm of the heap, and so are all blocks.  A call of a realm reads and
changes nothing outside it, so what it is answered in a run is what it is answered in the run of the
calls of its realm alone.

* `Realm`, `Handle.realm`, `Action.Belongs`: the realms, and the actions that keep to one;
* `Heap.Alike`: two heaps with the same content in one realm;
* `Heap.Confined`: an action that keeps to a realm, which `Action.Belongs.confined` shows for every
  action that belongs to one;
* `Realm.heard`, `Realm.heard_eq`: the answers of the actions of one realm in a run of all.
-/

namespace HandleHeap

/-! ### Realms and their actions -/

/-- A part of the heap that is served on its own. -/
inductive Realm where
  /-- The chunks of one size. -/
  | chunks (size : Nat)
  /-- All blocks. -/
  | blocks
deriving DecidableEq, Repr

/-- Where memory of a size comes from. -/
def Realm.ofSize (size : Nat) : Realm :=
  if size ≤ ChunkSize.greatest then .chunks size else .blocks

/-- Where an address lies. -/
def Address.realm : Address → Realm
  | .chunk address => .chunks address.chunkSize
  | .block _ => .blocks

/-- Where a handle points, read from its fields. -/
def Handle.realm (handle : Handle) : Realm := handle.address.realm

/-- A handle into the realm, or one that points nowhere. -/
def Handle.Within (handle : Handle) (realm : Realm) : Prop :=
  0 < handle.toInt → handle.realm = realm

instance (handle : Handle) (realm : Realm) : Decidable (handle.Within realm) :=
  inferInstanceAs (Decidable (_ → _))

/-- The action keeps to the realm.  An allocation that no size allows and an access by a handle that
points nowhere keep to every realm, and what involves two handles or the whole heap keeps to
none. -/
def Action.Belongs : Action → Realm → Prop
  | .call (.allocate size), realm =>
    1 ≤ size → size ≤ Heap.greatestSize → Realm.ofSize size.toNat = realm
  | .call (.free handle), realm | .call (.fill handle ..), realm
  | .call (.store _ _ handle _), realm | .call (.storeArray _ _ handle _), realm
  | .query (.sizeOf handle), realm | .query (.load _ _ handle), realm
  | .query (.loadArray _ _ handle _), realm => handle.Within realm
  | .query (.chainLength chunkSize), realm | .query (.occupancy chunkSize _), realm =>
    .chunks chunkSize = realm
  | .query (.storeIn ..), _ | .query (.slotCount _), _ => True
  | .call (.reallocate ..), _ | .call (.copy ..), _ | .query .usage, _ => False

instance : (action : Action) → (realm : Realm) → Decidable (action.Belongs realm)
  | .call (.allocate _), _ => inferInstanceAs (Decidable (_ → _ → _))
  | .call (.free _), _ | .call (.fill ..), _ | .call (.store ..), _ | .call (.storeArray ..), _
  | .query (.sizeOf _), _ | .query (.load ..), _ | .query (.loadArray ..), _ =>
    inferInstanceAs (Decidable (Handle.Within _ _))
  | .query (.chainLength _), _ | .query (.occupancy ..), _ => inferInstanceAs (Decidable (_ = _))
  | .query (.storeIn ..), _ | .query (.slotCount _), _ => inferInstanceAs (Decidable True)
  | .call (.reallocate ..), _ | .call (.copy ..), _ | .query .usage, _ =>
    inferInstanceAs (Decidable False)

/-! ### Operations of the pool -/

namespace ChunkPool

section alike
variable {left right : ChunkPool} {address : ChunkAddress}
  (h : left.sizeClass? address.chunkSize = right.sizeClass? address.chunkSize)
include h

theorem liveSlab_congr (handle : Handle) :
    left.liveSlab handle address = right.liveSlab handle address := by
  unfold liveSlab
  rw [h]

theorem slabFor_congr (handle : Handle) (length : Nat) :
    left.slabFor handle address length = right.slabFor handle address length := by
  unfold slabFor
  rw [liveSlab_congr h]

/-- A release reads and replaces one size class. -/
theorem free_alike (handle : Handle) : ∃ outcome : Except HeapError SizeClass,
    left.free handle address = outcome.map (left.setSizeClass address.chunkSize) ∧
      right.free handle address = outcome.map (right.setSizeClass address.chunkSize) := by
  unfold free
  by_cases hoffset : address.slotOffset = 0
  · rw [if_neg (fun hne => hne hoffset), if_neg (fun hne => hne hoffset), h]
    rcases right.sizeClass? address.chunkSize with _ | found
    · exact ⟨.error _, rfl, rfl⟩
    dsimp only
    split
    · exact ⟨_, rfl, rfl⟩
    · exact ⟨.error _, rfl, rfl⟩
  · rw [if_pos hoffset, if_pos hoffset]
    exact ⟨.error _, rfl, rfl⟩

/-- So does a write: one without a size class is refused. -/
theorem write_alike (handle : Handle) (bytes : List UInt8) :
    ∃ outcome : Except HeapError SizeClass,
      left.write handle address bytes = outcome.map (left.setSizeClass address.chunkSize) ∧
        right.write handle address bytes = outcome.map (right.setSizeClass address.chunkSize) := by
  unfold write
  rw [slabFor_congr h]
  rcases hslab : right.slabFor handle address bytes.length with e | slab
  · exact ⟨.error e, rfl, rfl⟩
  rcases hfound : right.sizeClass? address.chunkSize with _ | found
  · rw [slabFor, liveSlab, hfound] at hslab
    split_ifs at hslab
    cases hslab
  · rw [sizeClass_of_some hfound, sizeClass_of_some (h.trans hfound)]
    exact ⟨.ok _, rfl, rfl⟩

end alike

/-- An allocation reads and replaces the size class of its size. -/
theorem allocate_alike {settings : Settings} {left right : ChunkPool} {size : Nat}
    (hsize : ChunkSize.IsChunk size) (hl : left.Under settings) (hr : right.Under settings)
    (h : left.sizeClass? size = right.sizeClass? size) :
    ∃ answer next, left.allocate size = (answer, left.setSizeClass size next) ∧
      right.allocate size = (answer, right.setSizeClass size next) := by
  have hclass : left.sizeClass size = right.sizeClass size := by
    unfold sizeClass
    rw [h, hl.slabBufferSize_eq, hr.slabBufferSize_eq, hl.chainIncrement_eq, hr.chainIncrement_eq]
  unfold allocate
  rw [if_pos hsize, if_pos hsize, hclass, hl.chainIncrement_eq, hr.chainIncrement_eq,
    hl.maxChainLength_eq, hr.maxChainLength_eq]
  exact ⟨_, _, rfl, rfl⟩

end ChunkPool

/-! ### Actions that keep to a realm -/

namespace Heap

/-- The content of one realm. -/
def part (heap : Heap) : Realm → Option SizeClass ⊕ BlockTable
  | .chunks size => .inl (heap.chunks.sizeClass? size)
  | .blocks => .inr heap.blocks

/-- Two heaps under the same settings with the same content in one realm. -/
structure Alike (settings : Settings) (realm : Realm) (left right : Heap) : Prop where
  under_left : left.chunks.Under settings
  under_right : right.chunks.Under settings
  part_eq : left.part realm = right.part realm

/-- A step that keeps to a realm: what it answers and leaves there depends on what is there, and all
other realms stay as they are. -/
structure Confined {α : Type} (settings : Settings) (realm : Realm) (step : Heap → α × Heap) :
    Prop where
  within : ∀ left right, Alike settings realm left right →
    (step left).1 = (step right).1 ∧ Alike settings realm (step left).2 (step right).2
  outside : ∀ heap other, heap.chunks.Under settings → other ≠ realm →
    Alike settings other heap (step heap).2

theorem Alike.refl {settings : Settings} {heap : Heap} (h : heap.chunks.Under settings)
    (realm : Realm) : Alike settings realm heap heap := ⟨h, h, rfl⟩

theorem Alike.sizeClass?_eq {settings : Settings} {size : Nat} {left right : Heap}
    (h : Alike settings (.chunks size) left right) :
    left.chunks.sizeClass? size = right.chunks.sizeClass? size := Sum.inl.inj h.part_eq

theorem Alike.blocks_eq {settings : Settings} {left right : Heap}
    (h : Alike settings .blocks left right) : left.blocks = right.blocks := Sum.inr.inj h.part_eq

/-- The heap with another size class. -/
def setSizeClass (heap : Heap) (size : Nat) (sizeClass : SizeClass) : Heap :=
  { heap with chunks := heap.chunks.setSizeClass size sizeClass }

/-- The heap with another block table. -/
def setBlocks (heap : Heap) (blocks : BlockTable) : Heap := { heap with blocks := blocks }

section confined
variable {α : Type} {settings : Settings} {size : Nat} {realm : Realm}

theorem Alike.setSizeClass {left right : Heap} (h : Alike settings (.chunks size) left right)
    (sizeClass : SizeClass) : Alike settings (.chunks size) (left.setSizeClass size sizeClass)
      (right.setSizeClass size sizeClass) := by
  refine ⟨h.under_left.setSizeClass _ _, h.under_right.setSizeClass _ _, congrArg Sum.inl ?_⟩
  unfold Heap.setSizeClass
  rw [ChunkPool.sizeClass?_setSizeClass, ChunkPool.sizeClass?_setSizeClass, if_pos rfl, if_pos rfl]

theorem alike_setSizeClass {heap : Heap} (h : heap.chunks.Under settings) {other : Realm}
    (hne : other ≠ .chunks size) (sizeClass : SizeClass) :
    Alike settings other heap (heap.setSizeClass size sizeClass) := by
  refine ⟨h, h.setSizeClass _ _, ?_⟩
  rcases other with n | _
  · refine congrArg Sum.inl ?_
    unfold Heap.setSizeClass
    rw [ChunkPool.sizeClass?_setSizeClass, if_neg (fun heq => hne (congrArg Realm.chunks heq))]
  · rfl

theorem alike_setBlocks {heap : Heap} (h : heap.chunks.Under settings) {other : Realm}
    (hne : other ≠ .blocks) (blocks : BlockTable) :
    Alike settings other heap (heap.setBlocks blocks) := by
  refine ⟨h, h, ?_⟩
  rcases other with n | _
  · rfl
  · exact absurd rfl hne

theorem Confined.map {β : Type} {step : Heap → α × Heap} (h : Confined settings realm step)
    (g : α → β) : Confined settings realm fun heap => Prod.map g id (step heap) :=
  ⟨fun left right halike =>
      ⟨congrArg g (h.within left right halike).1, (h.within left right halike).2⟩,
    h.outside⟩

/-- A step that leaves the heap as it is, and reads one realm at most. -/
theorem confined_of_read {f : Heap → α}
    (h : ∀ left right, Alike settings realm left right → f left = f right) :
    Confined settings realm fun heap => (f heap, heap) :=
  ⟨fun left right halike => ⟨h left right halike, halike⟩,
    fun _ other hunder _ => Alike.refl hunder other⟩

/-- A step that replaces one size class. -/
theorem confined_of_chunks {step : Heap → α × Heap}
    (h : ∀ left right, Alike settings (.chunks size) left right → ∃ answer next,
      step left = (answer, left.setSizeClass size next) ∧
        step right = (answer, right.setSizeClass size next)) :
    Confined settings (.chunks size) step := by
  refine ⟨fun left right halike => ?_, fun heap other hunder hne => ?_⟩
  · obtain ⟨answer, next, hleft, hright⟩ := h left right halike
    rw [hleft, hright]
    exact ⟨rfl, halike.setSizeClass next⟩
  · obtain ⟨answer, next, hstep, -⟩ := h heap heap (Alike.refl hunder _)
    rw [hstep]
    exact alike_setSizeClass hunder hne next

/-- A change of one size class that can be refused. -/
theorem confined_settle_chunks {f : Heap → Except HeapError Heap}
    (h : ∀ left right, Alike settings (.chunks size) left right →
      ∃ outcome : Except HeapError SizeClass, f left = outcome.map (left.setSizeClass size) ∧
        f right = outcome.map (right.setSizeClass size)) :
    Confined settings (.chunks size) fun heap => heap.settle (f heap) := by
  refine ⟨fun left right halike => ?_, fun heap other hunder hne => ?_⟩
  · obtain ⟨e | next, hleft, hright⟩ := h left right halike <;> rw [hleft, hright]
    · exact ⟨rfl, halike⟩
    · exact ⟨rfl, halike.setSizeClass next⟩
  · obtain ⟨e | next, hstep, -⟩ := h heap heap (Alike.refl hunder _) <;> rw [hstep]
    · exact Alike.refl hunder other
    · exact alike_setSizeClass hunder hne next

/-- A step that looks at the block table only. -/
theorem confined_of_blocks (f : BlockTable → α × BlockTable) :
    Confined settings .blocks fun heap => Prod.map id heap.setBlocks (f heap.blocks) := by
  refine ⟨fun left right halike => ?_, fun heap other hunder hne => ?_⟩
  · rw [halike.blocks_eq]
    exact ⟨rfl, halike.under_left, halike.under_right, rfl⟩
  · exact alike_setBlocks hunder hne _

/-- A change of the block table that can be refused. -/
theorem confined_settle_blocks (f : BlockTable → Except HeapError BlockTable) :
    Confined settings .blocks fun heap => heap.settle ((f heap.blocks).map heap.setBlocks) := by
  refine ⟨fun left right halike => ?_, fun heap other hunder hne => ?_⟩
  · rw [halike.blocks_eq]
    rcases f right.blocks with e | next
    · exact ⟨rfl, halike⟩
    · exact ⟨rfl, halike.under_left, halike.under_right, rfl⟩
  · rcases f heap.blocks with e | next
    · exact Alike.refl hunder other
    · exact alike_setBlocks hunder hne next

end confined

/-! ### Every action -/

section actions
variable {settings : Settings} {realm : Realm} {handle : Handle}

theorem confined_allocate {size : Int}
    (h : 1 ≤ size → size ≤ greatestSize → Realm.ofSize size.toNat = realm) :
    Confined settings realm fun heap => heap.allocate size := by
  unfold allocate
  by_cases hzero : size = 0
  · simp only [if_pos hzero]
    exact confined_of_read fun _ _ _ => rfl
  simp only [if_neg hzero]
  by_cases hrange : size < 1 ∨ greatestSize < size
  · simp only [if_pos hrange]
    exact confined_of_read fun _ _ _ => rfl
  simp only [if_neg hrange]
  rw [not_or, Int.not_lt, Int.not_lt] at hrange
  obtain rfl := h hrange.1 hrange.2
  unfold Realm.ofSize
  by_cases hsmall : size.toNat ≤ ChunkSize.greatest
  · have hchunk : ChunkSize.IsChunk size.toNat := ⟨by unfold ChunkSize.least; omega, hsmall⟩
    simp only [if_pos hsmall]
    refine confined_of_chunks fun left right halike => ?_
    obtain ⟨answer, next, hleft, hright⟩ := ChunkPool.allocate_alike hchunk halike.under_left
      halike.under_right halike.sizeClass?_eq
    exact ⟨answer, next, by rw [hleft]; rfl, by rw [hright]; rfl⟩
  · simp only [if_neg hsmall]
    exact confined_of_blocks (·.allocate size.toNat)

/-- An accepted handle points into the realm that it keeps to. -/
theorem realm_of_ofHandle {handle : Handle} {address : Address}
    (h : Address.ofHandle handle = .ok address) (hwithin : handle.Within realm) :
    address.realm = realm := by
  obtain ⟨hpos, rfl⟩ := Address.ofHandle_eq_ok_iff.mp h
  exact hwithin hpos

theorem confined_free (h : handle.Within realm) :
    Confined settings realm fun heap => heap.settle (heap.free handle) := by
  unfold free
  by_cases hnull : handle = Handle.null
  · simp only [if_pos hnull]
    exact confined_of_read fun _ _ _ => rfl
  simp only [if_neg hnull]
  rcases hgate : Address.ofHandle handle with e | a | a
  · exact confined_of_read fun _ _ _ => rfl
  · obtain rfl := realm_of_ofHandle hgate h
    refine confined_settle_chunks fun left right halike => ?_
    obtain ⟨outcome, hleft, hright⟩ := ChunkPool.free_alike halike.sizeClass?_eq handle
    dsimp only
    rw [hleft, hright]
    refine ⟨outcome, ?_, ?_⟩ <;> rcases outcome with e | next <;> rfl
  · obtain rfl := realm_of_ofHandle hgate h
    exact confined_settle_blocks (·.free handle a)

theorem confined_write (h : handle.Within realm) (bytes : List UInt8) :
    Confined settings realm fun heap => heap.settle (heap.write handle bytes) := by
  unfold write
  rcases hgate : Address.ofHandle handle with e | a | a
  · exact confined_of_read fun _ _ _ => rfl
  · obtain rfl := realm_of_ofHandle hgate h
    refine confined_settle_chunks fun left right halike => ?_
    obtain ⟨outcome, hleft, hright⟩ := ChunkPool.write_alike halike.sizeClass?_eq handle bytes
    dsimp only
    rw [hleft, hright]
    refine ⟨outcome, ?_, ?_⟩ <;> rcases outcome with e | next <;> rfl
  · obtain rfl := realm_of_ofHandle hgate h
    exact confined_settle_blocks (·.write handle a bytes)

theorem confined_fill (h : handle.Within realm) (length : Int) (value : UInt8) :
    Confined settings realm fun heap => heap.settle (heap.fill handle length value) := by
  by_cases hneg : length < 0
  · simp only [fill, lengthOf, if_pos hneg, bind, Except.bind]
    exact confined_of_read fun _ _ _ => rfl
  · simp only [fill_eq_write _ _ hneg]
    exact confined_write h _

theorem read_alike (h : handle.Within realm) {left right : Heap}
    (halike : Alike settings realm left right) (length : Nat) :
    left.read handle length = right.read handle length := by
  unfold read
  rcases hgate : Address.ofHandle handle with e | a | a
  · rfl
  · obtain rfl := realm_of_ofHandle hgate h
    simp only [ChunkPool.read, ChunkPool.slabFor_congr halike.sizeClass?_eq]
  · obtain rfl := realm_of_ofHandle hgate h
    simp only [halike.blocks_eq]

theorem sizeOf_alike (h : handle.Within realm) {left right : Heap}
    (halike : Alike settings realm left right) : left.sizeOf handle = right.sizeOf handle := by
  unfold sizeOf
  rcases hgate : Address.ofHandle handle with e | a | a
  · rfl
  · obtain rfl := realm_of_ofHandle hgate h
    simp only [ChunkPool.sizeOf, ChunkPool.liveSlab_congr halike.sizeClass?_eq]
  · obtain rfl := realm_of_ofHandle hgate h
    simp only [halike.blocks_eq]

end actions

end Heap

open Heap

section belongs
variable {settings : Settings} {realm : Realm}

theorem Action.Belongs.call {call : Call} (h : Action.Belongs (.call call) realm) :
    Confined settings realm fun heap => heap.call call := by
  cases call with
  | allocate size => exact (confined_allocate h).map (Except.map some)
  | free handle => exact confined_free h
  | fill handle length value => exact confined_fill h length value
  | store scalar order handle value => exact confined_write h _
  | storeArray scalar order handle values => exact confined_write h _
  | reallocate | copy => exact h.elim

theorem Action.Belongs.answer_eq {query : Query} (h : Action.Belongs (.query query) realm)
    {left right : Heap} (halike : Alike settings realm left right) :
    left.answer query = right.answer query := by
  cases query with
  | sizeOf handle => simp only [answer, sizeOf_alike h halike]
  | load scalar order handle => simp only [answer, Heap.load, read_alike h halike]
  | loadArray scalar order handle into => simp only [answer, Heap.loadArray, read_alike h halike]
  | storeIn => rfl
  | chainLength chunkSize =>
    subst h
    simp only [answer, chainLength?, halike.sizeClass?_eq]
  | occupancy chunkSize chainIndex =>
    subst h
    simp only [answer, occupancyAt?, halike.sizeClass?_eq]
  | slotCount chunkSize =>
    simp only [answer, ChunkPool.slotCount?, halike.under_left.slabBufferSize_eq,
      halike.under_right.slabBufferSize_eq]
  | usage => exact h.elim

/-- **Every action keeps to its realm.** -/
theorem Action.Belongs.confined {action : Action} (h : action.Belongs realm) :
    Confined settings realm fun heap => heap.perform action := by
  cases action with
  | call call => exact (Action.Belongs.call h).map _
  | query query => exact confined_of_read fun _ _ halike => Action.Belongs.answer_eq h halike

end belongs

/-! ### Runs -/

namespace Realm

/-- What the actions of one realm are answered in a run of the actions of all realms. -/
def heard (realm : Realm) : Heap → List (Realm × Action) → List (Except HeapError Answer)
  | _, [] => []
  | heap, (owner, action) :: rest =>
    if owner = realm then
      (heap.perform action).1 :: heard realm (heap.perform action).2 rest
    else
      heard realm (heap.perform action).2 rest

/-- The actions of one realm. -/
def own (realm : Realm) (run : List (Realm × Action)) : List Action :=
  (run.filter fun entry => entry.1 = realm).map Prod.snd

theorem heard_eq_of_alike {settings : Settings} {realm : Realm} {left right : Heap}
    (halike : Alike settings realm left right) {run : List (Realm × Action)}
    (h : ∀ entry ∈ run, entry.2.Belongs entry.1) :
    realm.heard left run = right.answersTo (realm.own run) := by
  induction run generalizing left right with
  | nil => rfl
  | cons entry rest ih =>
    obtain ⟨owner, action⟩ := entry
    have hconfined : Confined settings owner fun heap => heap.perform action :=
      Action.Belongs.confined (h (owner, action) List.mem_cons_self)
    have hrest : ∀ entry ∈ rest, entry.2.Belongs entry.1 := fun entry hentry =>
      h entry (List.mem_cons_of_mem _ hentry)
    by_cases howner : owner = realm
    · subst howner
      -- an action of the realm takes part in both runs
      obtain ⟨hanswer, hnext⟩ := hconfined.within left right halike
      have hown : owner.own ((owner, action) :: rest) = action :: owner.own rest := by
        simp [own]
      rw [heard, if_pos rfl, hown, answersTo, hanswer, ih hnext hrest]
    · -- any other one moves the first heap alone, and leaves the realm as it is
      have hmoved := hconfined.outside left realm halike.under_left (Ne.symm howner)
      have hnext : Alike settings realm (left.perform action).2 right :=
        ⟨hmoved.under_right, halike.under_right, hmoved.part_eq.symm.trans halike.part_eq⟩
      have hown : realm.own ((owner, action) :: rest) = realm.own rest := by
        simp [own, howner]
      rw [heard, if_neg howner, hown, ih hnext hrest]

/-- **Realms do not influence each other.**  In a run of actions each of which belongs to the realm
beside it, the answers to the actions of one realm are those of the run of these actions alone. -/
theorem heard_eq (settings : Settings) {run : List (Realm × Action)}
    (h : ∀ entry ∈ run, entry.2.Belongs entry.1) (realm : Realm) :
    realm.heard (Heap.fresh settings) run
      = (Heap.fresh settings).answersTo (realm.own run) :=
  heard_eq_of_alike (Alike.refl (ChunkPool.under_fresh settings) realm) h

/-- Settings that leave every chain a single small slab. -/
def scant : Settings := { slabBufferSize := 1024, chainIncrement := 1, maxChainLength := 1 }

/-- A run that uses up the largest chunks and makes a block while a small chunk is in use. -/
def interleaved : List (Realm × Action) :=
  let largest : Realm × Action := (.chunks 1024, .call (.allocate 1024))
  [(.chunks 16, .call (.allocate 16)), largest, largest, largest, largest, largest,
    (.chunks 16, .call (.store .int .big (.ofSlot 15 0 0) 7)),
    (.blocks, .call (.allocate 4000)), (.blocks, .call (.fill (.ofBlock 1 0) 4000 255)),
    (.chunks 16, .query (.load .int .little (.ofSlot 15 0 0)))]

/-- One chain is full, and the chunks of another size do not notice. -/
theorem heard_eq_of_full_chain :
    (∀ entry ∈ interleaved, entry.2.Belongs entry.1) ∧
      (Realm.chunks 16).heard (Heap.fresh scant) interleaved
        = (Heap.fresh scant).answersTo ((Realm.chunks 16).own interleaved) :=
  ⟨by decide +kernel, heard_eq scant (by decide +kernel) (.chunks 16)⟩

end Realm

end HandleHeap
