import HandleHeap.Text.Form

/-!
# Quoted text

Text between double quotes.  A quote and a backslash are written after a backslash, the common
controls by a letter, and every other character without a form of its own by its code point.
-/

namespace HandleHeap.Text

/-- A character as it is written between quotes. -/
def escaped (c : Char) : String :=
  if c = '"' then "\\\""
  else if c = '\\' then "\\\\"
  else if c = '\n' then "\\n"
  else if c = '\r' then "\\r"
  else if c = '\t' then "\\t"
  else if c = '\x00' then "\\0"
  else if ' ' ≤ c ∧ c ≤ '~' then c.toString
  else if hasOwnForm c then c.toString
  else "\\u\x7b" ++ String.ofList (Nat.toDigits 16 c.toNat) ++ "\x7d"

/-- Text between double quotes. -/
def quoted (text : String) : String :=
  "\"" ++ String.join (text.toList.map escaped) ++ "\""

end HandleHeap.Text
