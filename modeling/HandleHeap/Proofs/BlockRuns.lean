import HandleHeap.Proofs.BlockTables
import HandleHeap.Proofs.Counts

/-!
# Runs of block tables

The free list of a table is its history: the identifiers given back and not handed out since, the
last one first.  A table becomes longer only when all of it is live, and so it is as long as the
most blocks that were ever live at once.

* `BlockTable.Replaced.liveBytes_eq`: the bytes in live blocks, with one more buffer;
* `BlockTable.Valid.length_eq_liveCount`, `BlockTable.liveBytes_eq_total`: the number and the bytes
  of the live blocks, from a list that names each of them;
* `BlockTable.Request`, `BlockTable.Ledger`: requests to a table, and the table beside what its
  answers tell of live and of released identifiers;
* `BlockTable.Ledger.Sound`: the invariant that ties the ledger to the table;
* `BlockTable.Ledger.accounted_after`: what is true after every run of requests.
-/

namespace HandleHeap.BlockTable

/-! ### Bytes in live blocks -/

theorem liveBytes_eq_sum (table : BlockTable) {k : Nat} (hk : table.length ≤ k) :
    table.liveBytes =
      ∑ i ∈ Finset.range k, ((table.buffer? (i + 1)).map (·.size)).getD 0 := by
  have hsum : table.liveBytes =
      ∑ i ∈ Finset.range table.length, ((table.buffer? (i + 1)).map (·.size)).getD 0 := by
    unfold liveBytes
    rw [← List.sum_eq_foldr, sum_map_eq_sum_range, Array.length_toList]
    refine Finset.sum_congr rfl fun i _ => ?_
    rw [Array.getElem?_toList, buffer?_succ]
    rcases table.buffers[i]? with _ | _ | buffer <;> rfl
  rw [hsum]
  refine Finset.sum_subset (Finset.range_subset_range.mpr hk) fun i _ hi => ?_
  rw [Finset.mem_range, Nat.not_lt] at hi
  rw [buffer?_succ, Array.getElem?_eq_none hi]
  rfl

theorem Replaced.symm {table next : BlockTable} {identifier : Nat} {content : Option Buffer}
    (h : Replaced table identifier content next) :
    Replaced next identifier (table.buffer? identifier) table := by
  intro i
  rw [h]
  split
  · next hi => rw [hi]
  · rfl

/-- One more buffer counts with its size. -/
theorem Replaced.liveBytes_eq {table next : BlockTable} {index : Nat} {buffer : Buffer}
    (h : Replaced table (index + 1) (some buffer) next)
    (hnone : table.buffer? (index + 1) = none) :
    next.liveBytes = table.liveBytes + buffer.size := by
  -- both tables are summed as far as the longer one goes, and to the index at least
  have hpoint : ∀ i, ((next.buffer? (i + 1)).map (·.size)).getD 0 =
      ((table.buffer? (i + 1)).map (·.size)).getD 0 + if i = index then buffer.size else 0 := by
    intro i
    rw [h]
    by_cases hi : i = index
    · rw [if_pos (by omega), if_pos hi, hi, hnone]
      simp
    · rw [if_neg (by omega), if_neg hi]
      rfl
  rw [next.liveBytes_eq_sum (by omega : next.length ≤ table.length + next.length + index + 1),
    table.liveBytes_eq_sum (by omega : table.length ≤ table.length + next.length + index + 1)]
  exact sum_range_add_point hpoint (by omega)

section live
variable {table : BlockTable} (hv : table.Valid) {identifiers : List Nat}
  (hnodup : identifiers.Nodup)
  (hmem : ∀ i, i ∈ identifiers ↔ (table.buffer? i).isSome = true)

/-- The indices with a buffer. -/
def indices (table : BlockTable) : Finset Nat :=
  (Finset.range table.length).filter fun index => (table.buffer? (index + 1)).isSome = true

include hmem in
theorem toFinset_identifiers :
    identifiers.toFinset = table.indices.image (· + 1) := by
  ext i
  rw [List.mem_toFinset, hmem, Finset.mem_image]
  constructor
  · intro hsome
    obtain ⟨buffer, hbuffer⟩ := Option.isSome_iff_exists.mp hsome
    obtain ⟨index, rfl, hlt, -⟩ := exists_index hbuffer
    exact ⟨index, Finset.mem_filter.mpr ⟨Finset.mem_range.mpr hlt, hsome⟩, rfl⟩
  · rintro ⟨index, hindex, rfl⟩
    exact (Finset.mem_filter.mp hindex).2

include hv in
theorem Valid.toFinset_spare : table.spare.toFinset =
    (Finset.range table.length).filter fun i => ¬ (table.buffer? (i + 1)).isSome = true := by
  ext index
  rw [List.mem_toFinset, hv.mem_spare_iff, Finset.mem_filter, Finset.mem_range, buffer?_succ]
  unfold length
  by_cases hlt : index < table.buffers.size
  · rw [Array.getElem?_eq_getElem hlt]
    rcases table.buffers[index] with _ | buffer <;> simp [hlt]
  · rw [Array.getElem?_eq_none (Nat.le_of_not_lt hlt)]
    simp [hlt]

include hv in
/-- The free list has no more entries than the table. -/
theorem Valid.length_spare_le : table.spare.length ≤ table.length := by
  have hcard := Finset.card_filter_le (Finset.range table.length)
    fun index => ¬ (table.buffer? (index + 1)).isSome = true
  rw [← hv.toFinset_spare, List.toFinset_card_of_nodup hv.nodup, Finset.card_range] at hcard
  exact hcard

include hv hnodup hmem in
/-- **Every index is live or free**: a list that names each live block once has as many as are not
on the free list. -/
theorem Valid.length_eq_liveCount : identifiers.length = table.liveCount := by
  have hsplit := Finset.card_filter_add_card_filter_not (s := Finset.range table.length)
    fun index => (table.buffer? (index + 1)).isSome = true
  have hlive : table.indices.card = identifiers.length := by
    rw [← List.toFinset_card_of_nodup hnodup, toFinset_identifiers hmem,
      Finset.card_image_of_injective _ (add_left_injective 1)]
  rw [← hv.toFinset_spare, List.toFinset_card_of_nodup hv.nodup, Finset.card_range] at hsplit
  unfold liveCount
  unfold indices at hlive
  omega

include hnodup hmem in
/-- The bytes in live blocks, block by block. -/
theorem liveBytes_eq_total : table.liveBytes
    = (identifiers.map fun i => ((table.buffer? i).map (·.size)).getD 0).sum := by
  have hbeyond : ∀ index ∈ Finset.range table.length, index ∉ table.indices →
      ((table.buffer? (index + 1)).map (·.size)).getD 0 = 0 := by
    intro index hindex hnot
    rcases hbuffer : table.buffer? (index + 1) with _ | buffer
    · rfl
    · exact absurd (Finset.mem_filter.mpr ⟨hindex, by rw [hbuffer]; rfl⟩) hnot
  have hsum := List.sum_toFinset
    (fun i => ((table.buffer? i).map (·.size)).getD 0) hnodup
  rw [table.liveBytes_eq_sum (Nat.le_refl _),
    ← Finset.sum_subset (Finset.filter_subset _ _) hbeyond]
  refine Eq.trans ?_ hsum
  rw [toFinset_identifiers hmem, Finset.sum_image fun _ _ _ _ h => Nat.succ.inj h]
  rfl

end live

/-! ### Requests and answers -/

/-- A request to a block table. -/
inductive Request where
  | allocate (size : Nat)
  | free (handle : Handle) (address : BlockAddress)
deriving DecidableEq, Repr

/-- A table, and what the answers of its run tell: the live identifiers with the sizes asked for,
and the identifiers given back and not handed out since, the last one first. -/
structure Ledger where
  table : BlockTable
  live : List (Nat × Nat)
  released : List Nat

namespace Ledger

/-- The ledger before any request. -/
def start : Ledger := ⟨empty, [], []⟩

/-- The ledger after one more request. -/
def next (l : Ledger) : Request → Ledger
  | .allocate size =>
    match l.table.allocate size with
    | (.ok handle, table) =>
      ⟨table, (handle.identifier, size) :: l.live,
        l.released.filter fun identifier => identifier ≠ handle.identifier⟩
    | (.error _, table) => ⟨table, l.live, l.released⟩
  | .free handle address =>
    match l.table.free handle address with
    | .ok table =>
      ⟨table, l.live.filter fun entry => entry.1 ≠ address.identifier,
        address.identifier :: l.released⟩
    | .error _ => l

/-- The ledger after a run of requests on an empty table. -/
def after (requests : List Request) : Ledger := requests.foldl next start

/-- **The invariant of a ledger.** -/
structure Sound (l : Ledger) : Prop where
  valid : l.table.Valid
  released_eq : l.released = l.table.spare.map (· + 1)
  nodup : (l.live.map Prod.fst).Nodup
  mem_live_iff : ∀ identifier size, (identifier, size) ∈ l.live ↔
    (l.table.buffer? identifier).map (·.size) = some size
  length_eq : l.live.length + l.table.spare.length = l.table.length
  liveBytes_eq : l.table.liveBytes = (l.live.map Prod.snd).sum

theorem sound_start : start.Sound :=
  ⟨valid_empty, rfl, List.nodup_nil, fun identifier size => by
    rcases identifier with _ | index <;> simp [start, buffer?, indexOf?, empty], rfl, rfl⟩

/-! ### One request -/

section steps
variable {l : Ledger} {identifier : Nat} {table : BlockTable} (hs : l.Sound)
include hs

/-- The identifier handed out is the last one given back, if there is one. -/
theorem Sound.released_of_made {size : Nat} (h : Made l.table size identifier table) :
    l.released.filter (fun other => other ≠ identifier) = table.spare.map (· + 1) ∧
      (l.released.head? = some identifier ∨
        l.released = [] ∧ identifier = l.table.length + 1) := by
  rw [hs.released_eq]
  rcases h.place with ⟨index, -, hspare, rfl, -⟩ | ⟨hspare, rfl, hnext, -⟩
  · have hnodup := hs.valid.nodup
    rw [hspare, List.nodup_cons] at hnodup
    have hothers : (table.spare.map (· + 1)).filter (fun other => other ≠ index + 1)
        = table.spare.map (· + 1) := by
      rw [List.filter_eq_self]
      intro other hother
      obtain ⟨i, hi, rfl⟩ := List.mem_map.mp hother
      rw [decide_eq_true_iff]
      intro heq
      rw [Nat.succ_inj] at heq
      exact hnodup.1 (heq ▸ hi)
    rw [hspare, List.map_cons, List.filter_cons_of_neg (by simp)]
    exact ⟨hothers, Or.inl rfl⟩
  · rw [hspare, hnext]
    exact ⟨rfl, Or.inr ⟨rfl, rfl⟩⟩

theorem Sound.not_mem_live (hnone : l.table.buffer? identifier = none) (size : Nat) :
    (identifier, size) ∉ l.live := by
  rw [hs.mem_live_iff, hnone]
  exact nofun

theorem Sound.mem_live_of_buffer? {buffer : Buffer}
    (hbuffer : l.table.buffer? identifier = some buffer) :
    (identifier, buffer.size) ∈ l.live := by
  rw [hs.mem_live_iff, hbuffer]
  rfl

theorem Sound.made {size : Nat} (h : Made l.table size identifier table) :
    Sound ⟨table, (identifier, size) :: l.live,
      l.released.filter fun other => other ≠ identifier⟩ := by
  have hlength := hs.length_eq
  refine ⟨h.valid, (hs.released_of_made h).1, ?_, fun other n => ?_, ?_, ?_⟩
  · rw [List.map_cons, List.nodup_cons]
    refine ⟨fun hmem => ?_, hs.nodup⟩
    obtain ⟨⟨_, n⟩, hentry, rfl⟩ := List.mem_map.mp hmem
    exact hs.not_mem_live h.none_before n hentry
  · rw [List.mem_cons, hs.mem_live_iff, h.replaced, Prod.mk.injEq]
    by_cases hother : other = identifier
    · rw [if_pos hother, hother, h.none_before]
      simp [eq_comm]
    · rw [if_neg hother]
      simp [hother]
  · dsimp only
    rw [List.length_cons]
    rcases h.place with ⟨index, -, hspare, -, hsame⟩ | ⟨hspare, -, hempty, hgrown⟩
    · rw [hspare, List.length_cons] at hlength
      omega
    · rw [hspare, List.length_nil] at hlength
      rw [hempty, List.length_nil]
      omega
  · obtain ⟨hpos, -⟩ := h.identifier_le
    obtain ⟨index, rfl⟩ : ∃ index, identifier = index + 1 := ⟨identifier - 1, by omega⟩
    rw [h.replaced.liveBytes_eq h.none_before, Buffer.size_zeroed, hs.liveBytes_eq, List.map_cons,
      List.sum_cons, Nat.add_comm]

theorem Sound.givenUp {buffer : Buffer} (hbuffer : l.table.buffer? identifier = some buffer)
    (h : GivenUp l.table identifier table) :
    Sound ⟨table, l.live.filter fun entry => entry.1 ≠ identifier, identifier :: l.released⟩ := by
  have hlength := hs.length_eq
  have hbytes := hs.liveBytes_eq
  have hperm := perm_cons_filter hs.nodup (hs.mem_live_of_buffer? hbuffer)
  obtain ⟨index, rfl, hspare⟩ := h.spare_eq
  refine ⟨h.valid, ?_, hs.nodup.sublist (List.filter_sublist.map _), fun other n => ?_, ?_, ?_⟩
  · rw [hspare, List.map_cons, hs.released_eq]
  · rw [List.mem_filter, decide_eq_true_iff, hs.mem_live_iff, h.replaced]
    by_cases hother : other = index + 1
    · rw [if_pos hother]
      simp [hother]
    · rw [if_neg hother]
      exact and_iff_left hother
  · have hcount := hperm.length_eq
    rw [List.length_cons] at hcount
    dsimp only
    rw [hspare, h.length_eq, List.length_cons]
    omega
  · have htotal := (hperm.map Prod.snd).sum_eq
    rw [List.map_cons, List.sum_cons] at htotal
    -- seen from the table after it, the release is an allocation
    have hmore : l.table.liveBytes = table.liveBytes + buffer.size := by
      have hback := h.replaced.symm
      rw [hbuffer] at hback
      exact hback.liveBytes_eq (by rw [h.replaced, if_pos rfl])
    dsimp only
    omega

/-- **A request** makes a block, gives one up, or leaves the ledger as it is. -/
theorem Sound.next_cases (request : Request) :
    (∃ size identifier table, Made l.table size identifier table ∧
        l.next request = ⟨table, (identifier, size) :: l.live,
          l.released.filter fun other => other ≠ identifier⟩) ∨
      (∃ identifier buffer table, l.table.buffer? identifier = some buffer ∧
        GivenUp l.table identifier table ∧ l.next request = ⟨table,
          l.live.filter fun entry => entry.1 ≠ identifier, identifier :: l.released⟩) ∨
      l.next request = l := by
  cases request with
  | allocate size =>
    unfold Ledger.next
    rcases hs.valid.allocate_made size with ⟨identifier, next, hcall, h⟩ | hcall
    · left
      have hidentifier : (Handle.ofBlock identifier 0).identifier = identifier := by
        obtain ⟨hpos, hle⟩ := h.identifier_le
        unfold greatestIdentifier at hle
        obtain ⟨-, haddress⟩ := Handle.address_ofBlock (by omega : identifier < 0x40000000)
          (by omega : 0 < 0x100000000) (Or.inl hpos)
        exact congrArg BlockAddress.identifier (Handle.eq_of_address_eq_block haddress)
      simp only [hcall, hidentifier]
      exact ⟨size, identifier, next, h, rfl⟩
    · right; right
      simp only [hcall]
  | free handle address =>
    right
    unfold Ledger.next
    by_cases hoffset : address.offset = 0
    · rcases hbuffer : l.table.buffer? address.identifier with _ | buffer
      · right
        rcases hs.valid.free_cases handle hoffset with ⟨buffer, _, hsome, -⟩ | ⟨-, hcall⟩
        · rw [hbuffer] at hsome
          cases hsome
        · simp only [hcall]
      · left
        obtain ⟨next, hcall, h⟩ := hs.valid.exists_free handle hoffset hbuffer
        simp only [hcall]
        exact ⟨address.identifier, buffer, next, hbuffer, h, rfl⟩
    · right
      have hcall : l.table.free handle address = .error (.notBaseAddress handle address.offset) :=
        if_pos hoffset
      simp only [hcall]

theorem Sound.next (request : Request) : (l.next request).Sound := by
  rcases hs.next_cases request with
    ⟨size, identifier, table, h, hnext⟩ | ⟨identifier, buffer, table, hbuffer, h, hnext⟩ | hnext
  · rw [hnext]; exact hs.made h
  · rw [hnext]; exact hs.givenUp hbuffer h
  · rw [hnext]; exact hs

/-- A table becomes longer only to hold more live blocks than it ever held. -/
theorem Sound.length_next (request : Request) :
    (l.next request).table.length = max l.table.length (l.next request).live.length := by
  have hafter := (hs.next request).length_eq
  rcases hs.next_cases request with
    ⟨size, identifier, table, h, hnext⟩ | ⟨identifier, buffer, table, hbuffer, h, hnext⟩ | hnext
  · rw [hnext] at hafter ⊢
    dsimp only at hafter ⊢
    rcases h.place with ⟨index, -, -, -, hsame⟩ | ⟨-, -, hempty, hgrown⟩
    · omega
    · rw [hempty, List.length_nil] at hafter
      omega
  · rw [hnext] at hafter ⊢
    dsimp only at hafter ⊢
    have hsame := h.length_eq
    omega
  · rw [hnext] at hafter ⊢
    omega

end steps

/-! ### Runs -/

theorem after_concat (requests : List Request) (request : Request) :
    after (requests ++ [request]) = (after requests).next request := by
  unfold after
  exact List.foldl_concat _ _ _ _

theorem sound_after (requests : List Request) : (after requests).Sound := by
  induction requests using List.reverseRecOn with
  | nil => exact sound_start
  | append_singleton requests request ih =>
    rw [after_concat]
    exact ih.next request

/-- **A table is as long as its peak**: the most blocks that were ever live at once. -/
theorem isGreatest_length (requests : List Request) :
    IsGreatest (levels (fun past => (after past).live.length) requests)
      (after requests).table.length := by
  induction requests using List.reverseRecOn with
  | nil => exact isGreatest_levels_nil
  | append_singleton requests request ih =>
    have hpeak := isGreatest_levels_concat ih request
    have hlength := (sound_after requests).length_next request
    rw [← after_concat] at hlength
    rw [hlength]
    exact hpeak

/-- What the ledger tells of its table: the free list holds the indices without a buffer, each
once; the totals are those of the live blocks; and the next identifier handed out is the last one
given back or, when the whole table is live, the first one beyond it. -/
structure Accounted (l : Ledger) : Prop where
  spare_nodup : l.table.spare.Nodup
  mem_spare_iff : ∀ index, index ∈ l.table.spare ↔
    index < l.table.length ∧ l.table.buffer? (index + 1) = none
  live_nodup : (l.live.map Prod.fst).Nodup
  mem_live_iff : ∀ identifier size, (identifier, size) ∈ l.live ↔
    (l.table.buffer? identifier).map (·.size) = some size
  liveCount_eq : l.table.liveCount = l.live.length
  liveBytes_eq : l.table.liveBytes = (l.live.map Prod.snd).sum
  handed_out : ∀ size handle next, l.table.allocate size = (.ok handle, next) →
    ∃ identifier, handle = Handle.ofBlock identifier 0 ∧
      (l.released.head? = some identifier ∨
        l.released = [] ∧ identifier = l.table.length + 1 ∧
          ∀ index < l.table.length, (l.table.buffer? (index + 1)).isSome = true)

/-- An index without a buffer is one that was made and given back. -/
theorem Sound.mem_spare_iff {l : Ledger} (hs : l.Sound) (index : Nat) : index ∈ l.table.spare ↔
    index < l.table.length ∧ l.table.buffer? (index + 1) = none := by
  rw [hs.valid.mem_spare_iff, buffer?_succ]
  constructor
  · intro hlookup
    exact ⟨(Array.getElem?_eq_some_iff.mp hlookup).1, by rw [hlookup]; rfl⟩
  · rintro ⟨hlt, hnone⟩
    unfold length at hlt
    rw [Array.getElem?_eq_getElem hlt] at hnone ⊢
    rw [Option.join_some] at hnone
    rw [hnone]

theorem Sound.accounted {l : Ledger} (hs : l.Sound) : l.Accounted := by
  have hcount : l.table.liveCount = l.live.length := by
    have hlength := hs.length_eq
    unfold liveCount
    omega
  refine ⟨hs.valid.nodup, hs.mem_spare_iff, hs.nodup, hs.mem_live_iff, hcount, hs.liveBytes_eq,
    fun size handle next hcall => ?_⟩
  rcases hs.valid.allocate_made size with ⟨identifier, _, hmade, h⟩ | hrefused
  · rw [hcall] at hmade
    cases hmade
    refine ⟨identifier, rfl, (hs.released_of_made h).2.imp_right ?_⟩
    rintro ⟨hnone, hidentifier⟩
    refine ⟨hnone, hidentifier, fun index hlt => ?_⟩
    -- no identifier is released, so no index is free
    have hspare : l.table.spare = [] := by
      rw [hs.released_eq, List.map_eq_nil_iff] at hnone
      exact hnone
    have hmem := hs.mem_spare_iff index
    rw [hspare] at hmem
    rw [Option.isSome_iff_ne_none]
    intro hfree
    exact absurd (hmem.mpr ⟨hlt, hfree⟩) List.not_mem_nil
  · rw [hcall] at hrefused
    cases hrefused

/-- **Block tables keep account of themselves and grow no more than they must.**  After any
requests the free list, the totals and the next identifier are as the answers tell, and the table is
as long as the most blocks that were ever live at once. -/
theorem accounted_after (requests : List Request) :
    (after requests).Accounted ∧
      IsGreatest (levels (fun past => (after past).live.length) requests)
        (after requests).table.length :=
  ⟨(sound_after requests).accounted, isGreatest_length requests⟩

end Ledger

end HandleHeap.BlockTable
