import HandleHeap.Proofs.Sessions

/-!
# What a call leaves alone

In every session a write changes the bytes of its range and nothing else, and what is live keeps its
handle, its size and its bytes while other allocations come and go.

* `Session.Rewritten`, `Session.rewritten_of_isWrite`: the effect of a call that changes bytes;
* `Session.Holds`, `Session.holds_of_allocate_free`: a live allocation with its bytes survives an
  allocation, and the release of another one.
-/

namespace HandleHeap

namespace Session

/-! ### Writes -/

/-- The second session is the first with `bytes` written from `target` on: the same allocations of
the same sizes, the same flags and counters, and at every handle into a live allocation the byte
that was written there, or else the byte from before. -/
structure Rewritten (s : Session) (target : Handle) (bytes : List UInt8) (t : Session) : Prop where
  live_eq : t.live = s.live
  sizeOf_eq : ∀ b ∈ s.live,
    s.heap.sizeOf b.base = .ok b.size ∧ t.heap.sizeOf b.base = .ok b.size
  occupancy_eq : t.heap.occupancy = s.heap.occupancy
  byte_eq : ∀ b ∈ s.live, ∀ handle : Handle, handle.toInt ∈ b.range →
    ∃ old new, s.heap.read handle 1 = .ok [old] ∧ t.heap.read handle 1 = .ok [new] ∧
      if target.toInt ≤ handle.toInt ∧ handle.toInt < target.toInt + bytes.length
      then bytes[(handle.toInt - target.toInt).toNat]? = some new
      else new = old

/-- A write of the heap is one of the session. -/
theorem Sound.rewritten {s : Session} (hs : s.Sound) {target : Handle} {bytes : List UInt8}
    {next : Heap} (hcheck : s.heap.checkRange target bytes.length = .ok ())
    (hw : Heap.Written s.heap target.address bytes next) :
    Rewritten s target bytes ⟨next, s.live⟩ := by
  refine ⟨rfl, fun b hb => ?_, hw.occupancy_eq, fun b hb handle hmem => ?_⟩
  · have hsize := (hs.mem_live_iff b).mp hb
    exact ⟨hsize, hw.sizeOf_eq_ok_iff.mpr hsize⟩
  · have hsize := (hs.mem_live_iff b).mp hb
    have hpos := (hs.valid.address_of_mem hsize hmem.1 hmem.2).1
    have htarget := (Heap.checkRange_eq_ok_iff.mp hcheck).1
    refine ⟨_, _, hs.valid.read_of_mem hsize hmem.1 hmem.2,
      hw.valid.read_of_mem (hw.sizeOf_eq_ok_iff.mpr hsize) hmem.1 hmem.2, ?_⟩
    have hbyte := hw.byteAt_eq _ (Handle.address_fits hpos)
    have hnumber := Handle.number_address hpos
    have hfirst := Handle.number_address htarget
    split
    · next hin =>
      have hlt : handle.address.number - target.address.number < bytes.length := by omega
      have hoffset : (handle.toInt - target.toInt).toNat
          = handle.address.number - target.address.number := by omega
      rw [if_pos ⟨by omega, by omega⟩, List.getElem?_eq_getElem hlt, Option.getD_some] at hbyte
      rw [hoffset, hbyte, List.getElem?_eq_getElem hlt]
    · next hout =>
      rw [if_neg (fun hin => hout ⟨by omega, by omega⟩)] at hbyte
      exact hbyte

/-- **Writes are exact.**  After any calls, a call that changes bytes and succeeds writes its
payload where it is told to, and changes nothing else. -/
theorem rewritten_of_isWrite {settings : Settings} (h : settings.validate = .ok ())
    (calls : List Call) {call : Call} (hwrite : call.isWrite = true)
    (hok : ((after settings calls).heap.call call).1 = .ok none) :
    ∃ target bytes, (after settings calls).heap.payload call = some (target, bytes) ∧
      Rewritten (after settings calls) target bytes ((after settings calls).next call) := by
  have hs := sound_after h calls
  rcases hs.write_cases hwrite with
    ⟨target, bytes, next, -, hpayload, hcheck, hw, hnext⟩ | ⟨e, hanswer, -⟩
  · refine ⟨target, bytes, hpayload, ?_⟩
    rw [hnext]
    exact hs.rewritten hcheck hw
  · rw [hanswer] at hok
    cases hok

/-- Four bytes copied two bytes further on, over themselves. -/
theorem rewritten_of_overlapping_copy :
    ∃ target bytes,
      (after {} [.allocate 16, .fill (.ofSlot 15 0 0) 4 42]).heap.payload
        (.copy (.ofSlot 15 0 0) (.ofSlot 15 0 0 + 2) 4) = some (target, bytes) ∧
      Rewritten (after {} [.allocate 16, .fill (.ofSlot 15 0 0) 4 42]) target bytes
        ((after {} [.allocate 16, .fill (.ofSlot 15 0 0) 4 42]).next
          (.copy (.ofSlot 15 0 0) (.ofSlot 15 0 0 + 2) 4)) :=
  rewritten_of_isWrite rfl _ rfl (by decide +kernel)

/-! ### Survival -/

/-- An allocation is live, and its bytes are these. -/
structure Holds (s : Session) (b : Allocation) (bytes : List UInt8) : Prop where
  mem_live : b ∈ s.live
  sizeOf_eq : s.heap.sizeOf b.base = .ok b.size
  read_eq : s.heap.read b.base b.size = .ok bytes

/-- What can be read from an allocation. -/
def content (s : Session) (b : Allocation) : List UInt8 :=
  (List.range b.size).map fun i => s.heap.byteAt (b.base.address.advance i)

theorem Sound.holds_content {s : Session} (hs : s.Sound) {b : Allocation}
    (h : s.heap.sizeOf b.base = .ok b.size) : s.Holds b (s.content b) := by
  refine ⟨(hs.mem_live_iff b).mpr h, h, ?_⟩
  rw [Heap.read_eq, Heap.checkRange_of_sizeOf h (Nat.le_refl _)]
  rfl

theorem Sound.holds_of_byteAt_eq {s t : Session} (ht : t.Sound) {b : Allocation}
    (h : t.heap.sizeOf b.base = .ok b.size)
    (heq : ∀ i < b.size, t.heap.byteAt (b.base.address.advance i)
      = s.heap.byteAt (b.base.address.advance i)) : t.Holds b (s.content b) := by
  have hcontent : t.content b = s.content b :=
    List.map_congr_left fun i hi => heq i (List.mem_range.mp hi)
  rw [← hcontent]
  exact ht.holds_content h

theorem Sound.holds_allocate {s : Session} (hs : s.Sound) {b : Allocation} (hb : b ∈ s.live)
    {size : Int} {handle : Handle}
    (hok : (s.heap.call (.allocate size)).1 = .ok (some handle)) :
    (s.next (.allocate size)).Holds b (s.content b) := by
  have ht := hs.next (.allocate size)
  have hsize := (hs.mem_live_iff b).mp hb
  rcases hs.allocate_cases size with
    ⟨-, -, hnext⟩ | ⟨target, next, -, -, hpos, ha, hnext⟩ | ⟨e, hanswer, -⟩
  · rw [hnext]
    exact hs.holds_content hsize
  · rw [hnext] at ht ⊢
    refine ht.holds_of_byteAt_eq ?_ fun i _ => ha.byteAt_eq _
    exact (ha.sizeOf_eq_ok_iff hpos).mpr (Or.inr hsize)
  · rw [hanswer] at hok
    cases hok

theorem Sound.holds_free {s : Session} (hs : s.Sound) {b : Allocation} (hb : b ∈ s.live)
    {handle : Handle} (hne : handle ≠ b.base)
    (hok : (s.heap.call (.free handle)).1 = .ok none) :
    (s.next (.free handle)).Holds b (s.content b) := by
  have ht := hs.next (.free handle)
  have hsize := (hs.mem_live_iff b).mp hb
  rcases hs.free_cases handle with
    ⟨-, -, hnext⟩ | ⟨n, next, -, hn, hf, hnext⟩ | ⟨e, hanswer, -⟩
  · rw [hnext]
    exact hs.holds_content hsize
  · rw [hnext] at ht ⊢
    have hpos := Heap.pos_of_sizeOf hn
    refine ht.holds_of_byteAt_eq ?_ fun i hi => ?_
    · exact (hf.sizeOf_eq_ok_iff hpos).mpr ⟨hne.symm, hsize⟩
    · have hother : b.base.address ≠ handle.address := fun heq =>
        hne (Handle.eq_of_address_eq hpos (Heap.pos_of_sizeOf hsize) heq.symm)
      show next.byteAt _ = s.heap.byteAt _
      rw [hf.byteAt_eq, Heap.start_advance_base hsize hi, if_neg hother]
  · rw [hanswer] at hok
    cases hok

/-- **What is live survives.**  After any calls, a live allocation holds the same bytes under the
same handle after a successful allocation, and after the successful release of another handle. -/
theorem holds_of_allocate_free {settings : Settings} (h : settings.validate = .ok ())
    (calls : List Call) {b : Allocation} (hb : b ∈ (after settings calls).live) :
    ∃ bytes, (after settings calls).Holds b bytes ∧
      (∀ size handle, ((after settings calls).heap.call (.allocate size)).1 = .ok (some handle) →
        ((after settings calls).next (.allocate size)).Holds b bytes) ∧
      ∀ handle, handle ≠ b.base →
        ((after settings calls).heap.call (.free handle)).1 = .ok none →
        ((after settings calls).next (.free handle)).Holds b bytes := by
  have hs := sound_after h calls
  refine ⟨_, hs.holds_content ((hs.mem_live_iff b).mp hb), fun size handle hok => ?_,
    fun handle hne hok => ?_⟩
  · exact hs.holds_allocate hb hok
  · exact hs.holds_free hb hne hok

/-- The second of two chunks in one slab, while the first is given back. -/
theorem holds_of_neighbour_freed :
    ∃ bytes, (after {} [.allocate 16, .allocate 16]).Holds ⟨.ofSlot 15 0 1, 16⟩ bytes ∧
      (∀ size handle, ((after {} [.allocate 16, .allocate 16]).heap.call
          (.allocate size)).1 = .ok (some handle) →
        ((after {} [.allocate 16, .allocate 16]).next
          (.allocate size)).Holds ⟨.ofSlot 15 0 1, 16⟩ bytes) ∧
      ∀ handle, handle ≠ .ofSlot 15 0 1 →
        ((after {} [.allocate 16, .allocate 16]).heap.call (.free handle)).1 = .ok none →
        ((after {} [.allocate 16, .allocate 16]).next
          (.free handle)).Holds ⟨.ofSlot 15 0 1, 16⟩ bytes :=
  holds_of_allocate_free rfl _ (by decide +kernel)

end Session

end HandleHeap
