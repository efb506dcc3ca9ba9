import Mathlib
import HandleHeap.Scalar

/-!
# Round trips of scalars

A value is carried over a byte encoding unchanged.

* `ofDigits_digits`: a number is determined by its lowest bytes if it has no more of them;
* `bits_lt`, `ofBits_bits`: a value's bits fit its width and determine it;
* `decode_encode`: decoding what was encoded in the same order gives the value.
-/

namespace HandleHeap.Scalar

theorem ofDigits_digits {width n : Nat} (h : n < 256 ^ width) : ofDigits (digits width n) = n := by
  induction width generalizing n with
  | zero =>
    have hn : n = 0 := by simpa using h
    subst hn
    rfl
  | succ width ih =>
    have hdiv : n / 256 < 256 ^ width := by
      rw [Nat.pow_succ] at h
      exact Nat.div_lt_of_lt_mul (by omega)
    simp only [digits, ofDigits, ih hdiv, UInt8.toNat_ofNat']
    omega

theorem bits_lt (scalar : Scalar) (value : scalar.Value) :
    scalar.bits value < 256 ^ scalar.width := by
  cases scalar
  case bool => cases value <;> decide
  case byte => exact value.toUInt8.toNat_lt
  case short => exact value.toUInt16.toNat_lt
  case char => exact UInt16.toNat_lt value
  case int => exact value.toUInt32.toNat_lt
  case float => exact UInt32.toNat_lt value
  case long => exact value.toUInt64.toNat_lt
  case double => exact UInt64.toNat_lt value

theorem ofBits_bits (scalar : Scalar) (value : scalar.Value) :
    scalar.ofBits (scalar.bits value) = value := by
  cases scalar
  case bool => cases value <;> rfl
  all_goals simp [ofBits, bits]

theorem decode_encode (scalar : Scalar) (order : ByteOrder) (value : scalar.Value) :
    scalar.decode order (scalar.encode order value) = value := by
  have htake : (scalar.encode order value).take scalar.width = scalar.encode order value :=
    List.take_of_length_le (by simp)
  rw [decode, htake, encode, ByteOrder.arrange_arrange, ofDigits_digits (scalar.bits_lt value),
    ofBits_bits]

end HandleHeap.Scalar
