import HandleHeap.Proofs.Actions
import HandleHeap.Scalar.RoundTrip

/-!
# Views of a heap

A heap can be reached through an accessor, through the reversing accessor made from it, and through
the one made from that in turn.  All three share the heap and differ in the byte order of typed
access.

* `Scalar.swap`: a value with its bytes reversed, as `Scalar.encode_reversed` says that the opposite
  order writes it and `Scalar.decode_reversed` that it reads it;
* `Accessor`, `Accessor.toReversing`, `View`: the accessors of one heap;
* `Access`, `Access.through`: the calls of an accessor, and what they ask of the heap;
* `Access.swapped`, `Answer.swapped`, `View.translate`, `View.outcome`: calls and answers with their
  values swapped, and where a view swaps them;
* `Heap.perform_reversing`: a call of the reversing accessor is the call of the accessor itself with
  swapped values;
* `Heap.outcomes_through_views`: the same for a run in which every call takes a view of its own.
-/

namespace HandleHeap

/-! ### Values with their bytes reversed -/

namespace Scalar

theorem ofDigits_lt (bytes : List UInt8) : ofDigits bytes < 256 ^ bytes.length := by
  induction bytes with
  | nil => decide
  | cons b rest ih =>
    have hb := b.toNat_lt
    rw [List.length_cons, Nat.pow_succ, ofDigits]
    omega

theorem digits_ofDigits (bytes : List UInt8) : digits bytes.length (ofDigits bytes) = bytes := by
  induction bytes with
  | nil => rfl
  | cons b rest ih =>
    have hb := b.toNat_lt
    have hlow : UInt8.ofNat (b.toNat + 256 * ofDigits rest) = b := by
      apply UInt8.toNat_inj.mp
      rw [UInt8.toNat_ofNat']
      omega
    have hhigh : (b.toNat + 256 * ofDigits rest) / 256 = ofDigits rest := by omega
    rw [List.length_cons, ofDigits, digits, hlow, hhigh, ih]

/-- The value with the same bytes in the opposite order. -/
def swap (scalar : Scalar) (value : scalar.Value) : scalar.Value :=
  scalar.ofBits (ofDigits (digits scalar.width (scalar.bits value)).reverse)

/-- Every pattern is a value, apart from `bool`, where all but one pattern are the same value. -/
theorem bits_ofBits {scalar : Scalar} (h : scalar ≠ bool) (n : Nat) :
    scalar.bits (scalar.ofBits n) = n % 256 ^ scalar.width := by
  cases scalar
  case bool => exact absurd rfl h
  all_goals simp [bits, ofBits, width]

theorem digits_bits_ofBits {scalar : Scalar} (h : scalar ≠ bool) {bytes : List UInt8}
    (hlength : bytes.length = scalar.width) :
    digits scalar.width (scalar.bits (scalar.ofBits (ofDigits bytes))) = bytes := by
  have hlt := ofDigits_lt bytes
  rw [hlength] at hlt
  rw [bits_ofBits h, Nat.mod_eq_of_lt hlt, ← hlength, digits_ofDigits]

/-- A single byte is its own reversal. -/
theorem reverse_of_width {scalar : Scalar} (h : scalar.width = 1) {bytes : List UInt8}
    (hlength : bytes.length = scalar.width) : bytes.reverse = bytes := by
  obtain ⟨b, rfl⟩ := List.length_eq_one_iff.mp (hlength.trans h)
  rfl

/-- **Values of one byte have nothing to reverse.** -/
theorem swap_of_width {scalar : Scalar} (h : scalar.width = 1) (value : scalar.Value) :
    scalar.swap value = value := by
  rw [swap, reverse_of_width h (length_digits _ _), ofDigits_digits (scalar.bits_lt value),
    ofBits_bits]

theorem digits_bits_swap (scalar : Scalar) (value : scalar.Value) :
    digits scalar.width (scalar.bits (scalar.swap value))
      = (digits scalar.width (scalar.bits value)).reverse := by
  by_cases h : scalar = bool
  · have hwidth : scalar.width = 1 := by rw [h]; rfl
    rw [swap_of_width hwidth, reverse_of_width hwidth (length_digits _ _)]
  · exact digits_bits_ofBits h (by rw [List.length_reverse, length_digits])

@[simp] theorem swap_swap (scalar : Scalar) (value : scalar.Value) :
    scalar.swap (scalar.swap value) = value := by
  rw [swap, digits_bits_swap, List.reverse_reverse, ofDigits_digits (scalar.bits_lt value),
    ofBits_bits]

/-- **Swapping reverses the bytes** that a value has in memory. -/
theorem encode_swap (scalar : Scalar) (order : ByteOrder) (value : scalar.Value) :
    scalar.encode order (scalar.swap value) = (scalar.encode order value).reverse := by
  rw [encode, digits_bits_swap, encode]
  cases order <;> rfl

example : Scalar.int.swap 0x01020304 = 0x04030201 := by decide

/-- **The opposite order writes the value with its bytes reversed.** -/
theorem encode_reversed (scalar : Scalar) (order : ByteOrder) (value : scalar.Value) :
    scalar.encode order.reversed value = scalar.encode order (scalar.swap value) := by
  rw [encode_swap, encode, ByteOrder.arrange_reversed, encode]

/-- **The opposite order reads the value with its bytes reversed**, given all of its bytes. -/
theorem decode_reversed (scalar : Scalar) (order : ByteOrder) {bytes : List UInt8}
    (h : (bytes.take scalar.width).length = scalar.width) :
    scalar.decode order.reversed bytes = scalar.swap (scalar.decode order bytes) := by
  have hlength := (order.length_arrange (bytes.take scalar.width)).trans h
  rw [decode, ByteOrder.arrange_reversed]
  by_cases hbool : scalar = bool
  · have hwidth : scalar.width = 1 := by rw [hbool]; rfl
    rw [swap_of_width hwidth, reverse_of_width hwidth hlength, decode]
  · rw [decode, swap, digits_bits_ofBits hbool hlength]

theorem flatMap_encode_reversed (scalar : Scalar) (order : ByteOrder)
    (values : List scalar.Value) :
    values.flatMap (scalar.encode order.reversed)
      = (values.map scalar.swap).flatMap (scalar.encode order) := by
  rw [List.flatMap_map]
  exact congrArg values.flatMap (funext (scalar.encode_reversed order))

theorem map_swap_map_swap (scalar : Scalar) (values : List scalar.Value) :
    (values.map scalar.swap).map scalar.swap = values := by
  simp only [List.map_map, Function.comp_def, swap_swap, List.map_id']

/-- Values for which there are no bytes stay, so they are swapped twice. -/
theorem decodeInto_reversed (scalar : Scalar) (order : ByteOrder) (bytes : List UInt8)
    (into : List scalar.Value) : scalar.decodeInto order.reversed bytes into
      = (scalar.decodeInto order bytes (into.map scalar.swap)).map scalar.swap := by
  induction into generalizing bytes with
  | nil => rfl
  | cons value rest ih =>
    rw [List.map_cons, decodeInto, decodeInto]
    split
    · rw [List.map_cons, swap_swap, map_swap_map_swap]
    · next hwhole =>
      have hlength : (bytes.take scalar.width).length = scalar.width := by
        have hle := List.length_take_le scalar.width bytes
        omega
      rw [List.map_cons, ih, decode_reversed scalar order hlength]

end Scalar

/-! ### Accessors -/

/-- What a heap is reached through.  Accessors of one heap differ in their byte order only. -/
structure Accessor where
  /-- The byte order of typed access. -/
  byteOrder : ByteOrder

namespace Accessor

/-- The accessor that a heap is made with. -/
def fresh (settings : Settings) : Accessor := ⟨settings.byteOrder⟩

/-- The accessor of the same heap with the opposite byte order. -/
def toReversing (accessor : Accessor) : Accessor := ⟨accessor.byteOrder.reversed⟩

/-- Reversing twice gives the accessor back. -/
@[simp] theorem toReversing_toReversing (accessor : Accessor) :
    accessor.toReversing.toReversing = accessor := by
  rw [toReversing, toReversing, ByteOrder.reversed_reversed]

end Accessor

/-- The accessors in use beside a given one. -/
inductive View where
  /-- The accessor itself. -/
  | direct
  /-- The reversing accessor made from it. -/
  | reversing
  /-- The reversing accessor made from that. -/
  | restored

/-- The accessor that a view stands for. -/
def View.of : View → Accessor → Accessor
  | direct, accessor => accessor
  | reversing, accessor => accessor.toReversing
  | restored, accessor => accessor.toReversing.toReversing

/-! ### Calls of an accessor -/

/-- A call of an accessor, which brings the byte order if the call is typed. -/
inductive Access where
  | allocate (size : Int)
  | reallocate (handle : Handle) (size : Int)
  | free (handle : Handle)
  | fill (handle : Handle) (length : Int) (value : UInt8)
  | copy (source target : Handle) (length : Int)
  | sizeOf (handle : Handle)
  | usage
  | chainLength (chunkSize : Nat)
  | occupancy (chunkSize chainIndex : Nat)
  | slotCount (chunkSize : Nat)
  | load (scalar : Scalar) (handle : Handle)
  | store (scalar : Scalar) (handle : Handle) (value : scalar.Value)
  | loadArray (scalar : Scalar) (handle : Handle) (into : List scalar.Value)
  | storeArray (scalar : Scalar) (handle : Handle) (values : List scalar.Value)
  | storeIn (scalar : Scalar) (bytes : List UInt8) (index : Nat) (value : scalar.Value)

namespace Access

/-- What a call of an accessor asks of the heap. -/
def through (accessor : Accessor) : Access → Action
  | allocate size => .call (.allocate size)
  | reallocate handle size => .call (.reallocate handle size)
  | free handle => .call (.free handle)
  | fill handle length value => .call (.fill handle length value)
  | copy source target length => .call (.copy source target length)
  | sizeOf handle => .query (.sizeOf handle)
  | usage => .query .usage
  | chainLength chunkSize => .query (.chainLength chunkSize)
  | occupancy chunkSize chainIndex => .query (.occupancy chunkSize chainIndex)
  | slotCount chunkSize => .query (.slotCount chunkSize)
  | load scalar handle => .query (.load scalar accessor.byteOrder handle)
  | store scalar handle value => .call (.store scalar accessor.byteOrder handle value)
  | loadArray scalar handle into => .query (.loadArray scalar accessor.byteOrder handle into)
  | storeArray scalar handle values =>
    .call (.storeArray scalar accessor.byteOrder handle values)
  | storeIn scalar bytes index value =>
    .query (.storeIn scalar accessor.byteOrder bytes index value)

/-- The call with its values swapped.  Bytes stay as they are. -/
def swapped : Access → Access
  | store scalar handle value => store scalar handle (scalar.swap value)
  | loadArray scalar handle into => loadArray scalar handle (into.map scalar.swap)
  | storeArray scalar handle values => storeArray scalar handle (values.map scalar.swap)
  | storeIn scalar bytes index value => storeIn scalar bytes index (scalar.swap value)
  | access => access

end Access

/-- The answer with its values swapped.  Bytes stay as they are. -/
def Answer.swapped : Answer → Answer
  | value scalar found => value scalar (scalar.swap found)
  | values scalar found => values scalar (found.map scalar.swap)
  | answer => answer

namespace View

/-- The call of the given accessor that stands for a call of a view. -/
def translate : View → Access → Access
  | reversing, access => access.swapped
  | _, access => access

/-- The answer of a view, from the answer to the call that stands for it. -/
def restore : View → Answer → Answer
  | reversing, answer => answer.swapped
  | _, answer => answer

/-- The outcome of a view's call: failures and the heap are those of the call that stands for it. -/
def outcome (view : View) (found : Except HeapError Answer × Heap) :
    Except HeapError Answer × Heap :=
  found.map (Except.map view.restore) id

theorem outcome_of_ne (view : View) (h : view ≠ reversing)
    (found : Except HeapError Answer × Heap) : view.outcome found = found := by
  cases view with
  | direct | restored => obtain ⟨_ | _, _⟩ := found <;> rfl
  | reversing => exact absurd rfl h

/-- Calls that can change a heap answer no values. -/
theorem outcome_call (view : View) (heap : Heap) (call : Call) :
    view.outcome (heap.perform (.call call)) = heap.perform (.call call) := by
  simp only [outcome, Heap.perform, Prod.map, id_eq]
  rcases (heap.call call).1 with e | (_ | issued) <;> cases view <;> rfl

end View

/-! ### One call -/

namespace Heap

theorem load_reversed (heap : Heap) (scalar : Scalar) (order : ByteOrder) (handle : Handle) :
    heap.load scalar order.reversed handle = (heap.load scalar order handle).map scalar.swap := by
  unfold load
  rcases hread : heap.read handle scalar.width with e | bytes
  · rfl
  · have hlength := length_of_read hread
    refine congrArg Except.ok (scalar.decode_reversed order ?_)
    rw [List.length_take, hlength, Nat.min_self]

theorem loadArray_reversed (heap : Heap) (scalar : Scalar) (order : ByteOrder) (handle : Handle)
    (into : List scalar.Value) : heap.loadArray scalar order.reversed handle into
      = (heap.loadArray scalar order handle (into.map scalar.swap)).map (List.map scalar.swap) := by
  unfold loadArray
  rw [List.length_map]
  rcases heap.read handle (into.length * scalar.width) with e | bytes
  · rfl
  · exact congrArg Except.ok (scalar.decodeInto_reversed order bytes into)

/-- **A call of the reversing accessor is the call of the accessor itself with its values swapped**,
and so is its answer.  The heap that the two leave is the same. -/
theorem perform_reversing (heap : Heap) (accessor : Accessor) (access : Access) :
    heap.perform (access.through accessor.toReversing)
      = View.reversing.outcome (heap.perform (access.swapped.through accessor)) := by
  cases access with
  | allocate | reallocate | free | fill | copy => exact (View.outcome_call _ heap _).symm
  | sizeOf handle =>
    simp only [Access.swapped, Access.through, perform, answer, View.outcome, Prod.map,
      id_eq]
    rcases heap.sizeOf handle with e | size <;> rfl
  | usage | chainLength | occupancy | slotCount => rfl
  | load scalar handle =>
    simp only [Access.swapped, Access.through, perform, answer, View.outcome, Prod.map,
      id_eq, Accessor.toReversing, load_reversed]
    rcases heap.load scalar accessor.byteOrder handle with e | value <;> rfl
  | store scalar handle value =>
    refine Eq.trans ?_ (View.outcome_call _ heap _).symm
    simp only [Access.through, perform, call, store, Accessor.toReversing,
      Scalar.encode_reversed]
  | loadArray scalar handle into =>
    simp only [Access.swapped, Access.through, perform, answer, View.outcome, Prod.map,
      id_eq, Accessor.toReversing, loadArray_reversed]
    rcases heap.loadArray scalar accessor.byteOrder handle (into.map scalar.swap) with
      e | values <;> rfl
  | storeArray scalar handle values =>
    refine Eq.trans ?_ (View.outcome_call _ heap _).symm
    simp only [Access.through, perform, call, storeArray, Accessor.toReversing,
      Scalar.flatMap_encode_reversed]
  | storeIn scalar bytes index value =>
    simp only [Access.swapped, Access.through, perform, answer, View.outcome, Prod.map,
      id_eq, Accessor.toReversing, Scalar.storeIn, Scalar.encode_reversed]
    split <;> rfl

/-- The same for every view. -/
theorem perform_view (heap : Heap) (accessor : Accessor) (view : View) (access : Access) :
    heap.perform (access.through (view.of accessor))
      = view.outcome (heap.perform ((view.translate access).through accessor)) := by
  cases view with
  | direct => exact (View.outcome_of_ne .direct nofun _).symm
  | reversing => exact heap.perform_reversing accessor access
  | restored =>
    rw [View.of, Accessor.toReversing_toReversing]
    exact (View.outcome_of_ne .restored nofun _).symm

/-! ### Runs -/

/-- The outcomes of a run of actions: each answer beside the heap that it leaves. -/
def outcomes : Heap → List Action → List (Except HeapError Answer × Heap)
  | _, [] => []
  | heap, action :: rest => heap.perform action :: outcomes (heap.perform action).2 rest

theorem outcomes_views (heap : Heap) (accessor : Accessor) (accesses : List (View × Access)) :
    heap.outcomes (accesses.map fun (view, access) => access.through (view.of accessor))
      = List.zipWith (fun (view, _) found => view.outcome found) accesses
          (heap.outcomes (accesses.map fun (view, access) =>
            (view.translate access).through accessor)) := by
  induction accesses generalizing heap with
  | nil => rfl
  | cons entry rest ih =>
    obtain ⟨view, access⟩ := entry
    simp only [List.map_cons, outcomes, List.zipWith_cons_cons]
    -- Both runs go on with one heap, which a view leaves as it finds it.
    rw [ih, perform_view]
    rfl

/-- **A reversing accessor is the accessor with swapped values.**  Swapping turns around the bytes
of a value, of which `byte` and `bool` have only one.  Any run of calls, each through a view of its
own, has the outcomes of the run in which all calls are made through one accessor: those of a
reversing view on swapped values, with their answers swapped, and all others as they are. -/
theorem outcomes_through_views (settings : Settings) :
    (∀ (scalar : Scalar) (order : ByteOrder) (value : scalar.Value),
        scalar.encode order (scalar.swap value) = (scalar.encode order value).reverse) ∧
      (∀ value, Scalar.byte.swap value = value) ∧ (∀ value, Scalar.bool.swap value = value) ∧
      ∀ accesses : List (View × Access),
        (fresh settings).outcomes
            (accesses.map fun (view, access) => access.through (view.of (.fresh settings)))
          = List.zipWith (fun (view, _) found => view.outcome found) accesses
              ((fresh settings).outcomes (accesses.map fun (view, access) =>
                (view.translate access).through (.fresh settings))) :=
  ⟨Scalar.encode_swap, Scalar.swap_of_width rfl, Scalar.swap_of_width rfl,
    (fresh settings).outcomes_views (.fresh settings)⟩

end Heap

end HandleHeap
