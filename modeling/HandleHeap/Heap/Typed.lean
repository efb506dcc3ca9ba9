import HandleHeap.Heap
import HandleHeap.Scalar.Sequence

/-!
# Typed access

Reading and writing scalars in a byte order.  The opposite order gives the view of the same heap
with every value's bytes reversed.

* `Heap.load`, `Heap.store`: one value at a handle;
* `Heap.loadArray`, `Heap.storeArray`: values that lie back to back from a handle on;
* `Scalar.storeIn`: one value at an index of a plain byte array.
-/

namespace HandleHeap

namespace Heap

/-- The value at a handle. -/
def load (heap : Heap) (scalar : Scalar) (order : ByteOrder) (handle : Handle) :
    Except HeapError scalar.Value :=
  (heap.read handle scalar.width).map (scalar.decode order)

/-- Replaces the value at a handle. -/
def store (heap : Heap) (scalar : Scalar) (order : ByteOrder) (handle : Handle)
    (value : scalar.Value) : Except HeapError Heap :=
  heap.write handle (scalar.encode order value)

/-- As many values as the given list has, from a handle on.  The list gives the answer's length. -/
def loadArray (heap : Heap) (scalar : Scalar) (order : ByteOrder) (handle : Handle)
    (into : List scalar.Value) : Except HeapError (List scalar.Value) :=
  (heap.read handle (into.length * scalar.width)).map fun bytes =>
    scalar.decodeInto order bytes into

/-- Replaces the values from a handle on. -/
def storeArray (heap : Heap) (scalar : Scalar) (order : ByteOrder) (handle : Handle)
    (values : List scalar.Value) : Except HeapError Heap :=
  heap.write handle (values.flatMap (scalar.encode order))

end Heap

/-- Replaces the value at an index of a byte array. -/
def Scalar.storeIn (scalar : Scalar) (order : ByteOrder) (bytes : List UInt8) (index : Nat)
    (value : scalar.Value) : Except HeapError (List UInt8) :=
  if index + scalar.width ≤ bytes.length then
    .ok (bytes.take index ++ scalar.encode order value ++ bytes.drop (index + scalar.width))
  else
    .error (.indexOutOfBounds index bytes.length)

end HandleHeap
