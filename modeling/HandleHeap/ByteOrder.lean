/-!
# Byte order

The order in which the bytes of a multi-byte value lie in memory.  Values are encoded least
significant byte first and then arranged: `arrange` keeps that list for `little` and reverses it
for `big`, so arranging twice in one order gives the list back (`arrange_arrange`) and the
opposite order is one more reversal (`arrange_reversed`).
-/

namespace HandleHeap

/-- Which end of a value comes first in memory. -/
inductive ByteOrder where
  | little
  | big
deriving DecidableEq, Repr, Inhabited

namespace ByteOrder

/-- The opposite order. -/
def reversed : ByteOrder → ByteOrder
  | little => big
  | big => little

/-- The name used in settings and answers. -/
def name : ByteOrder → String
  | little => "little"
  | big => "big"

/-- The order with exactly this name. -/
def ofName? : String → Option ByteOrder
  | "little" => some little
  | "big" => some big
  | _ => none

/-- Puts bytes given least significant first into this order, and back. -/
def arrange : ByteOrder → List UInt8 → List UInt8
  | little, bytes => bytes
  | big, bytes => bytes.reverse

@[simp] theorem reversed_reversed (order : ByteOrder) : order.reversed.reversed = order := by
  cases order <;> rfl

@[simp] theorem length_arrange (order : ByteOrder) (bytes : List UInt8) :
    (order.arrange bytes).length = bytes.length := by
  cases order <;> simp [arrange]

@[simp] theorem arrange_arrange (order : ByteOrder) (bytes : List UInt8) :
    order.arrange (order.arrange bytes) = bytes := by
  cases order <;> simp [arrange]

theorem arrange_reversed (order : ByteOrder) (bytes : List UInt8) :
    order.reversed.arrange bytes = (order.arrange bytes).reverse := by
  cases order <;> simp [arrange, reversed]

end ByteOrder

end HandleHeap
