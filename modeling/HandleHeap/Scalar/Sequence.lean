import HandleHeap.Scalar

/-!
# Sequences of scalars

Values that lie back to back in a run of bytes.  Both directions stop where a whole value no longer
fits, and leave what lies beyond as it was.

* `Scalar.decodeInto`: the leading values of a list are replaced by what the bytes hold;
* `Scalar.encodeInto`: the leading bytes of a run are replaced by the encoded values;
* `length_decodeInto`, `length_encodeInto`: neither changes a length.
-/

namespace HandleHeap.Scalar

/-- Replaces the leading values by those decoded from `bytes`, as many as are whole. -/
def decodeInto (scalar : Scalar) (order : ByteOrder) (bytes : List UInt8) :
    List scalar.Value → List scalar.Value
  | [] => []
  | value :: rest =>
    if (bytes.take scalar.width).length < scalar.width then
      value :: rest
    else
      scalar.decode order bytes :: decodeInto scalar order (bytes.drop scalar.width) rest

/-- Replaces the leading bytes by the encoded values, as many as fit. -/
def encodeInto (scalar : Scalar) (order : ByteOrder) :
    List scalar.Value → List UInt8 → List UInt8
  | [], target => target
  | value :: rest, target =>
    if (target.take scalar.width).length < scalar.width then
      target
    else
      scalar.encode order value ++ encodeInto scalar order rest (target.drop scalar.width)

@[simp] theorem length_decodeInto (scalar : Scalar) (order : ByteOrder) (bytes : List UInt8)
    (values : List scalar.Value) :
    (scalar.decodeInto order bytes values).length = values.length := by
  induction values generalizing bytes with
  | nil => rfl
  | cons value rest ih =>
    simp only [decodeInto]
    split <;> simp [ih]

@[simp] theorem length_encodeInto (scalar : Scalar) (order : ByteOrder)
    (values : List scalar.Value) (target : List UInt8) :
    (scalar.encodeInto order values target).length = target.length := by
  induction values generalizing target with
  | nil => rfl
  | cons value rest ih =>
    simp only [encodeInto]
    split
    · rfl
    · simp only [List.length_append, length_encode, ih, List.length_drop]
      simp only [List.length_take] at *
      omega

theorem length_flatMap_encode (scalar : Scalar) (order : ByteOrder) (values : List scalar.Value) :
    (values.flatMap (scalar.encode order)).length = values.length * scalar.width := by
  induction values with
  | nil => simp
  | cons value values ih =>
    rw [List.flatMap_cons, List.length_append, ih, length_encode, List.length_cons, Nat.succ_mul,
      Nat.add_comm]

end HandleHeap.Scalar
