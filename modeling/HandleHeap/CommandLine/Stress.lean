import HandleHeap.Heap.Typed
import HandleHeap.Heap.Usage

/-!
# Stress runs

Allocates many pieces of one size, writes a number into each that is large enough, and gives them
back.  The usage that remains does not depend on the order in which they are given back.
-/

namespace HandleHeap.CommandLine

/-- Allocates one piece and writes `number` into it if it has room.  The handles of the pieces so far
are listed newest first. -/
def fillOne (order : ByteOrder) (size : Int) (state : List Handle × Heap) (number : Nat) :
    Except HeapError (List Handle × Heap) :=
  match state.2.allocate size with
  | (.error e, _) => .error e
  | (.ok handle, heap) =>
    if 8 ≤ size then
      (heap.store .long order handle (Int64.ofNat number)).map fun heap =>
        (handle :: state.1, heap)
    else .ok (handle :: state.1, heap)

/-- Allocates one piece for each number below `count`. -/
def fillAll (order : ByteOrder) (size : Int) (count : Nat) (heap : Heap) :
    Except HeapError (List Handle × Heap) :=
  (List.range count).foldlM (fillOne order size) ([], heap)

/-- Gives back every handle in turn. -/
def freeAll (handles : List Handle) (heap : Heap) : Except HeapError Heap :=
  handles.foldlM Heap.free heap

/-- The usage after `count` allocations of `size` bytes, all given back again unless kept. -/
def stressUsage (settings : Settings) (size : Int) (count : Nat) (keep : Bool) :
    Except HeapError Usage := do
  let (handles, heap) ← fillAll settings.byteOrder size count (Heap.fresh settings)
  let heap ← if keep then pure heap else freeAll handles heap
  return heap.usage

end HandleHeap.CommandLine
