import HandleHeap.Heap.Usage
import HandleHeap.Proofs.Sessions

/-!
# Actions

All that can be asked of a heap: the calls that can change it, and the queries that cannot.

* `Query`, `Heap.answer`: the queries and what they are answered;
* `Action`, `Heap.perform`: a call or a query, its answer and the heap that it leaves;
* `Heap.afterAll`, `Heap.answersTo`: the heap and the answers of a run of actions;
* `Session.act`: the session after an action, which `Session.Sound.act` keeps sound.
-/

namespace HandleHeap

/-- A call that leaves the heap as it is. -/
inductive Query where
  | sizeOf (handle : Handle)
  | load (scalar : Scalar) (order : ByteOrder) (handle : Handle)
  | loadArray (scalar : Scalar) (order : ByteOrder) (handle : Handle) (into : List scalar.Value)
  /-- A value put into a byte array of the caller. -/
  | storeIn (scalar : Scalar) (order : ByteOrder) (bytes : List UInt8) (index : Nat)
      (value : scalar.Value)
  | usage
  | chainLength (chunkSize : Nat)
  | occupancy (chunkSize chainIndex : Nat)
  | slotCount (chunkSize : Nat)

/-- What an action is answered. -/
inductive Answer where
  | done
  | handle (handle : Handle)
  | size (size : Nat)
  | value (scalar : Scalar) (value : scalar.Value)
  | values (scalar : Scalar) (values : List scalar.Value)
  | bytes (bytes : List UInt8)
  | usage (usage : Usage)
  /-- A number that is missing for sizes without a size class. -/
  | count (count : Option Nat)

/-- The answer of a call that succeeds. -/
def Answer.ofCall : Option Handle → Answer
  | none => .done
  | some issued => .handle issued

/-- What is asked of a heap. -/
inductive Action where
  | call (call : Call)
  | query (query : Query)

namespace Heap

/-- The length of the chain of a chunk size, if it has a size class. -/
def chainLength? (heap : Heap) (chunkSize : Nat) : Option Nat :=
  (heap.chunks.sizeClass? chunkSize).map (·.length)

/-- The slots in use at a position of the chain of a chunk size, if it has a size class. -/
def occupancyAt? (heap : Heap) (chunkSize chainIndex : Nat) : Option Nat :=
  (heap.chunks.sizeClass? chunkSize).map (·.liveAt chainIndex)

/-- The answer of a query. -/
def answer (heap : Heap) : Query → Except HeapError Answer
  | .sizeOf handle => (heap.sizeOf handle).map .size
  | .load scalar order handle => (heap.load scalar order handle).map (.value scalar)
  | .loadArray scalar order handle into =>
    (heap.loadArray scalar order handle into).map (.values scalar)
  | .storeIn scalar order bytes index value =>
    (scalar.storeIn order bytes index value).map .bytes
  | .usage => .ok (.usage heap.usage)
  | .chainLength chunkSize => .ok (.count (heap.chainLength? chunkSize))
  | .occupancy chunkSize chainIndex => .ok (.count (heap.occupancyAt? chunkSize chainIndex))
  | .slotCount chunkSize => .ok (.count (heap.chunks.slotCount? chunkSize))

/-- The answer of an action, beside the heap that it leaves. -/
def perform (heap : Heap) : Action → Except HeapError Answer × Heap
  | .call call => Prod.map (Except.map Answer.ofCall) id (heap.call call)
  | .query query => (heap.answer query, heap)

/-- The heap after a run of actions. -/
def afterAll (heap : Heap) (actions : List Action) : Heap :=
  actions.foldl (fun heap action => (heap.perform action).2) heap

/-- The answers of a run of actions, in order. -/
def answersTo : Heap → List Action → List (Except HeapError Answer)
  | _, [] => []
  | heap, action :: rest => (heap.perform action).1 :: answersTo (heap.perform action).2 rest

end Heap

namespace Session

/-- The session after one more action. -/
def act (s : Session) : Action → Session
  | .call call => s.next call
  | .query _ => s

theorem heap_act (s : Session) (action : Action) :
    (s.act action).heap = (s.heap.perform action).2 := by
  cases action <;> rfl

/-- Every action keeps a session sound. -/
theorem Sound.act {s : Session} (hs : s.Sound) (action : Action) : (s.act action).Sound := by
  cases action with
  | call call => exact hs.next call
  | query => exact hs

end Session

end HandleHeap
