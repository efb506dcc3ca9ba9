import HandleHeap.Text.Digits

/-!
# Binary fractions of 64 bits

The numbers that a 64-bit floating point word can hold, exact: a sign, a significand of at most 53
bits and a power of two.

* `Binary64.ofDecimal`: the nearest such number to a decimal fraction, ties going to the even
  significand;
* `Binary64.ofText?`: a number in text, with an optional point and exponent;
* `Binary64.toWord`: the nearest whole number, halves going up, held within an unsigned 64-bit
  word.
-/

namespace HandleHeap

/-- A number that a 64-bit floating point word can hold. -/
inductive Binary64 where
  | nan
  | infinite (negative : Bool)
  /-- The number `± significand * 2 ^ exponent`. -/
  | finite (negative : Bool) (significand : Nat) (exponent : Int)
deriving DecidableEq, Repr

namespace Binary64

/-- The quotient rounded to a whole number, halves to the even one. -/
def divideEven (numerator denominator : Nat) : Nat :=
  let quotient := numerator / denominator
  let twice := 2 * (numerator % denominator)
  if twice < denominator ∨ (twice = denominator ∧ quotient % 2 = 0) then quotient
  else quotient + 1

/-- The nearest number to `± numerator / denominator`, both positive. -/
def ofRatio (negative : Bool) (numerator denominator : Nat) : Binary64 :=
  let scaled (exponent : Int) : Nat × Nat :=
    (numerator <<< (-exponent).toNat, denominator <<< exponent.toNat)
  let guess : Int := (numerator.log2 : Int) - denominator.log2 - 52
  let fits := 0x10000000000000 ≤ (scaled guess).1 / (scaled guess).2
  let exponent := max (-1074) (if fits then guess else guess - 1)
  let significand := divideEven (scaled exponent).1 (scaled exponent).2
  if 1024 ≤ (significand.log2 : Int) + exponent then infinite negative
  else finite negative significand exponent

/-- The nearest number to `± digits * 10 ^ exponent`.  Exponents far beyond the range of the format
are settled without computing the power. -/
def ofDecimal (negative : Bool) (digits : Nat) (exponent : Int) : Binary64 :=
  let magnitude := (Nat.toDigits 10 digits).length + exponent
  if digits = 0 ∨ magnitude < -400 then finite negative 0 0
  else if 400 < magnitude then infinite negative
  else ofRatio negative (digits * Nat.pow 10 exponent.toNat) (Nat.pow 10 (-exponent).toNat)

/-- The exponent in the text after the digits: none at all, or a mark and digits. -/
def exponentOf? : List Char → Option Int
  | [] => some 0
  | mark :: rest =>
    if mark = 'e' ∨ mark = 'E' then
      match rest with
      | '-' :: digits => (Text.natOfDigits? 10 digits).map fun n => -(n : Int)
      | '+' :: digits => (Text.natOfDigits? 10 digits).map Int.ofNat
      | digits => (Text.natOfDigits? 10 digits).map Int.ofNat
    else none

/-- A number without its sign. -/
def magnitudeOf? (negative : Bool) (text : List Char) : Option Binary64 :=
  match String.ofList (text.map Char.toLower) with
  | "nan" => some nan
  | "inf" | "infinity" => some (infinite negative)
  | _ =>
    let whole := text.takeWhile (Text.isDigit 10)
    let (fraction, rest) := match text.dropWhile (Text.isDigit 10) with
      | '.' :: rest => (rest.takeWhile (Text.isDigit 10), rest.dropWhile (Text.isDigit 10))
      | rest => ([], rest)
    do
      let digits ← Text.natOfDigits? 10 (whole ++ fraction)
      let exponent ← exponentOf? rest
      return ofDecimal negative digits (exponent - fraction.length)

/-- The nearest number to the one in the text. -/
def ofText? : List Char → Option Binary64
  | '-' :: text => magnitudeOf? true text
  | '+' :: text => magnitudeOf? false text
  | text => magnitudeOf? false text

/-- The nearest whole number, halves away from zero, moved into an unsigned 64-bit word.  What is
not a number counts as zero. -/
def toWord : Binary64 → Nat
  | nan | infinite true | finite true _ _ => 0
  | infinite false => Text.greatestWord
  | finite false significand exponent =>
    let whole :=
      if exponent < 0 then
        (2 * significand + 1 <<< (-exponent).toNat) / (2 <<< (-exponent).toNat)
      else significand <<< exponent.toNat
    min whole Text.greatestWord

end Binary64

end HandleHeap
