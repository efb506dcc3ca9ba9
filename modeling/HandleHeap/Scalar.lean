import HandleHeap.ByteOrder

/-!
# Scalars

The eight fixed-width value types that memory can be read and written as.  A value is the machine
word that carries it; floating point values are carried as their bit patterns, so every pattern
passes through unchanged.

* `Scalar.bits`, `Scalar.ofBits`: a value as an unsigned number of the same width, and back;
* `Scalar.encode`, `Scalar.decode`: a value as `width` bytes in a byte order, and back;
* `length_encode`: an encoding has exactly the scalar's width.
-/

namespace HandleHeap

/-- The types a memory cell can be read as. -/
inductive Scalar where
  | byte
  | bool
  | short
  | char
  | int
  | float
  | long
  | double
deriving DecidableEq, Repr, Inhabited

namespace Scalar

/-- The word that carries a value of the type. -/
abbrev Value : Scalar → Type
  | byte => Int8
  | bool => Bool
  | short => Int16
  | char => UInt16
  | int => Int32
  | float => UInt32
  | long => Int64
  | double => UInt64

instance : (scalar : Scalar) → DecidableEq scalar.Value
  | byte => inferInstanceAs (DecidableEq Int8)
  | bool => inferInstanceAs (DecidableEq Bool)
  | short => inferInstanceAs (DecidableEq Int16)
  | char => inferInstanceAs (DecidableEq UInt16)
  | int => inferInstanceAs (DecidableEq Int32)
  | float => inferInstanceAs (DecidableEq UInt32)
  | long => inferInstanceAs (DecidableEq Int64)
  | double => inferInstanceAs (DecidableEq UInt64)

/-- The name of the type. -/
def name : Scalar → String
  | byte => "byte"
  | bool => "bool"
  | short => "short"
  | char => "char"
  | int => "int"
  | float => "float"
  | long => "long"
  | double => "double"

/-- Every scalar type. -/
def all : List Scalar := [byte, bool, short, char, int, float, long, double]

/-- The type with exactly this name. -/
def ofName? (text : String) : Option Scalar :=
  all.find? (·.name == text)

/-- Bytes that an encoded value takes. -/
def width : Scalar → Nat
  | byte | bool => 1
  | short | char => 2
  | int | float => 4
  | long | double => 8

/-- The bit pattern of a value, as an unsigned number. -/
def bits : (scalar : Scalar) → scalar.Value → Nat
  | byte, v => v.toUInt8.toNat
  | bool, v => v.toNat
  | short, v => v.toUInt16.toNat
  | char, v => v.toNat
  | int, v => v.toUInt32.toNat
  | float, v => v.toNat
  | long, v => v.toUInt64.toNat
  | double, v => v.toNat

/-- The value with a bit pattern, higher bits ignored.  Every pattern but zero is `true`. -/
def ofBits : (scalar : Scalar) → Nat → scalar.Value
  | byte, n => (UInt8.ofNat n).toInt8
  | bool, n => n != 0
  | short, n => (UInt16.ofNat n).toInt16
  | char, n => UInt16.ofNat n
  | int, n => (UInt32.ofNat n).toInt32
  | float, n => UInt32.ofNat n
  | long, n => (UInt64.ofNat n).toInt64
  | double, n => UInt64.ofNat n

/-- The value whose bits are all zero. -/
def zero (scalar : Scalar) : scalar.Value := scalar.ofBits 0

/-- The lowest `width` bytes of a number, least significant first. -/
def digits : (width : Nat) → Nat → List UInt8
  | 0, _ => []
  | width + 1, n => UInt8.ofNat n :: digits width (n / 256)

/-- The number with the given bytes, least significant first. -/
def ofDigits : List UInt8 → Nat
  | [] => 0
  | b :: rest => b.toNat + 256 * ofDigits rest

/-- The bytes of a value in memory order. -/
def encode (scalar : Scalar) (order : ByteOrder) (value : scalar.Value) : List UInt8 :=
  order.arrange (digits scalar.width (scalar.bits value))

/-- The value of the first `width` bytes. -/
def decode (scalar : Scalar) (order : ByteOrder) (bytes : List UInt8) : scalar.Value :=
  scalar.ofBits (ofDigits (order.arrange (bytes.take scalar.width)))

theorem width_le (scalar : Scalar) : scalar.width ≤ 8 := by
  cases scalar <;> decide

@[simp] theorem length_digits (width n : Nat) : (digits width n).length = width := by
  induction width generalizing n with
  | zero => rfl
  | succ width ih => simp [digits, ih]

@[simp] theorem length_encode (scalar : Scalar) (order : ByteOrder) (value : scalar.Value) :
    (scalar.encode order value).length = scalar.width := by
  simp [encode]

end Scalar

end HandleHeap
