/-!
# Numbers in text

Whole numbers written in digits, with a bound on what is accepted.

* `natOfDigits?`: digits of a base, at least one;
* `unsigned?`: decimal digits after an optional plus sign, up to a bound;
* `signed?`: decimal digits after an optional sign, within a signed 64-bit word.
-/

namespace HandleHeap.Text

/-- The value of a digit of a base up to 36, letters counting in either case. -/
def digit? (base : Nat) (c : Char) : Option Nat :=
  let value :=
    if '0' ≤ c ∧ c ≤ '9' then c.toNat - '0'.toNat
    else if 'a' ≤ c ∧ c ≤ 'z' then c.toNat - 'a'.toNat + 10
    else if 'A' ≤ c ∧ c ≤ 'Z' then c.toNat - 'A'.toNat + 10
    else base
  if value < base then some value else none

/-- Whether a character is a digit of a base. -/
def isDigit (base : Nat) (c : Char) : Bool := (digit? base c).isSome

/-- The number with the given digits, most significant first. -/
def natOfDigits? (base : Nat) (digits : List Char) : Option Nat :=
  if digits.isEmpty then none
  else digits.foldlM (fun n c => (digit? base c).map (base * n + ·)) 0

/-- The largest unsigned 64-bit word. -/
def greatestWord : Nat := 0xffffffffffffffff

/-- A number without a minus sign, no larger than `greatest`. -/
def unsigned? (greatest : Nat) (text : List Char) : Option Nat :=
  let digits := match text with
    | '+' :: rest => rest
    | _ => text
  (natOfDigits? 10 digits).filter (· ≤ greatest)

/-- A number that fits a signed 64-bit word. -/
def signed? (text : List Char) : Option Int :=
  let number : Option Int := match text with
    | '-' :: rest => (natOfDigits? 10 rest).map fun n => -(n : Int)
    | '+' :: rest => (natOfDigits? 10 rest).map Int.ofNat
    | _ => (natOfDigits? 10 text).map Int.ofNat
  number.filter fun n => -0x8000000000000000 ≤ n && n < 0x8000000000000000

end HandleHeap.Text
