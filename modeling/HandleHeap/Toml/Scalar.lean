import HandleHeap.Toml.Node

/-!
# Scalars of a document

Readers for the values without parts.  A reader takes the text from a position on and gives the
value with the text after it, or nothing if no such value stands there.

* `basicText`, `literalText` and their forms over several lines;
* `momentText`: dates, times and both;
* `float`, `integer`, `boolean`;
* `scalar`: any of these.
-/

namespace HandleHeap.Toml

/-- Whether a character may stand in a comment or between single quotes. -/
def isPlain (c : Char) : Bool := c == '\t' || (' ' ≤ c && c ≠ '\x7f')

/-- Whether a character is a blank within a line. -/
def isBlank (c : Char) : Bool := c == ' ' || c == '\t'

/-- The text without leading blanks. -/
def skipBlanks (text : List Char) : List Char := text.dropWhile isBlank

/-- The text after an expected beginning. -/
def expect? : List Char → List Char → Option (List Char)
  | [], text => some text
  | _, [] => none
  | c :: expected, d :: text => if c = d then expect? expected text else none

/-- The text after a line end, if one stands in front. -/
def newline? : List Char → Option (List Char)
  | '\n' :: rest => some rest
  | '\r' :: '\n' :: rest => some rest
  | _ => none

/-! ## Text -/

/-- Puts a character before what is read of the rest. -/
def andThen (c : Char) : Option (List Char × List Char) → Option (List Char × List Char)
  | none => none
  | some (read, rest) => some (c :: read, rest)

/-- The character that a letter stands for after a backslash. -/
def escape? : Char → Option Char
  | 'b' => some '\x08'
  | 't' => some '\t'
  | 'n' => some '\n'
  | 'f' => some '\x0c'
  | 'r' => some '\r'
  | '"' => some '"'
  | '\\' => some '\\'
  | _ => none

/-- The character with the code point written in hexadecimal digits. -/
def codePoint? (digits : List Char) : Option Char := do
  let n ← Text.natOfDigits? 16 digits
  if h : n.isValidChar then some ⟨UInt32.ofNatLT n (by
    rcases h with h | h
    · exact Nat.lt_trans h (by decide)
    · exact Nat.lt_trans h.2 (by decide)), by
    simpa [UInt32.isValidChar] using h⟩
  else none

/-- Text up to the closing double quote. -/
def basicText : List Char → Option (List Char × List Char)
  | '"' :: rest => some ([], rest)
  | '\\' :: 'u' :: a :: b :: c :: d :: rest => do
    andThen (← codePoint? [a, b, c, d]) (basicText rest)
  | '\\' :: 'U' :: a :: b :: c :: d :: e :: f :: g :: h :: rest => do
    andThen (← codePoint? [a, b, c, d, e, f, g, h]) (basicText rest)
  | '\\' :: c :: rest => do andThen (← escape? c) (basicText rest)
  | c :: rest => if isPlain c then andThen c (basicText rest) else none
  | [] => none

/-- Text over several lines up to three double quotes.  A backslash before a line end removes the
line end and all blanks and line ends that follow; while these are skipped `trim` is set. -/
def basicLines (trim : Bool) : List Char → Option (List Char × List Char)
  | '"' :: '"' :: '"' :: '"' :: '"' :: rest => some (['"', '"'], rest)
  | '"' :: '"' :: '"' :: '"' :: rest => some (['"'], rest)
  | '"' :: '"' :: '"' :: rest => some ([], rest)
  | '\n' :: rest => if trim then basicLines true rest else andThen '\n' (basicLines false rest)
  | '\r' :: '\n' :: rest =>
    if trim then basicLines true rest else andThen '\n' (basicLines false rest)
  | '\\' :: 'u' :: a :: b :: c :: d :: rest => do
    andThen (← codePoint? [a, b, c, d]) (basicLines false rest)
  | '\\' :: 'U' :: a :: b :: c :: d :: e :: f :: g :: h :: rest => do
    andThen (← codePoint? [a, b, c, d, e, f, g, h]) (basicLines false rest)
  | '\\' :: rest =>
    if (newline? (skipBlanks rest)).isSome then basicLines true rest
    else match rest with
      | c :: more => do andThen (← escape? c) (basicLines false more)
      | [] => none
  | c :: rest =>
    if trim ∧ isBlank c then basicLines true rest
    else if isPlain c then andThen c (basicLines false rest)
    else none
  | [] => none

/-- Text up to the closing single quote. -/
def literalText : List Char → Option (List Char × List Char)
  | '\'' :: rest => some ([], rest)
  | c :: rest => if isPlain c then andThen c (literalText rest) else none
  | [] => none

/-- Text over several lines up to three single quotes. -/
def literalLines : List Char → Option (List Char × List Char)
  | '\'' :: '\'' :: '\'' :: '\'' :: '\'' :: rest => some (['\'', '\''], rest)
  | '\'' :: '\'' :: '\'' :: '\'' :: rest => some (['\''], rest)
  | '\'' :: '\'' :: '\'' :: rest => some ([], rest)
  | '\n' :: rest => andThen '\n' (literalLines rest)
  | '\r' :: '\n' :: rest => andThen '\n' (literalLines rest)
  | c :: rest => if isPlain c then andThen c (literalLines rest) else none
  | [] => none

/-- The text without a line end in front. -/
def afterNewline (text : List Char) : List Char := (newline? text).getD text

/-- A quoted text on one line, as keys may be. -/
def quotedLine : List Char → Option (List Char × List Char)
  | '"' :: rest => basicText rest
  | '\'' :: rest => literalText rest
  | _ => none

/-- A quoted text in any of the four forms. -/
def quotedText : List Char → Option (List Char × List Char)
  | '"' :: '"' :: '"' :: rest => basicLines false (afterNewline rest)
  | '\'' :: '\'' :: '\'' :: rest => literalLines (afterNewline rest)
  | text => quotedLine text

/-! ## Dates and times -/

/-- A number of exactly `count` decimal digits that lies in a range. -/
def field (count least greatest : Nat) (text : List Char) : Option (Nat × List Char) := do
  let n ← Text.natOfDigits? 10 (text.take count)
  if (text.take count).length = count ∧ least ≤ n ∧ n ≤ greatest then
    some (n, text.drop count)
  else none

/-- The days of a month, with the leap years of the common calendar. -/
def daysOf (year month : Nat) : Nat :=
  if month = 2 then
    if year % 4 = 0 ∧ (year % 100 ≠ 0 ∨ year % 400 = 0) then 29 else 28
  else if [4, 6, 9, 11].contains month then 30
  else 31

/-- The text after a date. -/
def date? (text : List Char) : Option (List Char) := do
  let (year, rest) ← field 4 0 9999 text
  let (month, rest) ← field 2 1 12 (← expect? ['-'] rest)
  let (_, rest) ← field 2 1 (daysOf year month) (← expect? ['-'] rest)
  return rest

/-- The text after a time of day.  Sixty seconds are accepted for leap seconds. -/
def time? (text : List Char) : Option (List Char) := do
  let (_, rest) ← field 2 0 23 text
  let (_, rest) ← field 2 0 59 (← expect? [':'] rest)
  let (_, rest) ← field 2 0 60 (← expect? [':'] rest)
  match rest with
  | '.' :: c :: more =>
    if Text.isDigit 10 c then return more.dropWhile (Text.isDigit 10) else return rest
  | _ => return rest

/-- The text after a distance from universal time, the same text if there is none. -/
def afterZone (text : List Char) : List Char :=
  match text with
  | 'Z' :: rest | 'z' :: rest => rest
  | '+' :: rest | '-' :: rest =>
    let zone : Option (List Char) := do
      let (_, rest) ← field 2 0 23 rest
      let (_, rest) ← field 2 0 59 (← expect? [':'] rest)
      return rest
    zone.getD text
  | _ => text

/-- The text after a date, a time, or both. -/
def moment? (text : List Char) : Option (List Char) :=
  match date? text with
  | none => time? text
  | some rest =>
    match rest with
    | mark :: more =>
      if mark = 'T' ∨ mark = 't' ∨ mark = ' ' then some (((time? more).map afterZone).getD rest)
      else some rest
    | [] => some rest

/-- A date, a time, or both, as written. -/
def momentText (text : List Char) : Option (Node × List Char) := do
  let rest ← moment? text
  return (.moment (String.ofList (text.take (text.length - rest.length))), rest)

/-! ## Numbers -/

/-- Further digits of a base, where a single underscore may stand before each. -/
def moreDigits (base : Nat) : List Char → List Char × List Char
  | '_' :: c :: rest =>
    if Text.isDigit base c then
      let (digits, rest) := moreDigits base rest
      (c :: digits, rest)
    else ([], '_' :: c :: rest)
  | c :: rest =>
    if Text.isDigit base c then
      let (digits, rest) := moreDigits base rest
      (c :: digits, rest)
    else ([], c :: rest)
  | [] => ([], [])

/-- Digits of a base, at least one, with single underscores between them. -/
def digits (base : Nat) : List Char → Option (List Char × List Char)
  | c :: rest =>
    if Text.isDigit base c then
      let (more, rest) := moreDigits base rest
      some (c :: more, rest)
    else none
  | [] => none

/-- An optional sign. -/
def sign : List Char → List Char × List Char
  | '+' :: rest => (['+'], rest)
  | '-' :: rest => (['-'], rest)
  | text => ([], text)

/-- Decimal digits that do not start with a needless zero, after an optional sign. -/
def decimal (text : List Char) : Option (List Char × List Char) :=
  match sign text with
  | (mark, '0' :: rest) => some (mark ++ ['0'], rest)
  | (mark, rest) => (digits 10 rest).map fun (read, rest) => (mark ++ read, rest)

/-- The digits after a point, with the point. -/
def fraction : List Char → Option (List Char × List Char)
  | '.' :: rest => (digits 10 rest).map fun (read, rest) => ('.' :: read, rest)
  | _ => none

/-- The exponent of a power of ten, with its mark. -/
def exponent : List Char → Option (List Char × List Char)
  | c :: rest =>
    if c = 'e' ∨ c = 'E' then
      let (mark, rest) := sign rest
      (digits 10 rest).map fun (read, rest) => (c :: mark ++ read, rest)
    else none
  | [] => none

/-- The text of a number with a fraction, an exponent, or both. -/
def floatText (text : List Char) : Option (List Char × List Char) := do
  let (whole, rest) ← decimal text
  match fraction rest with
  | none => (exponent rest).map fun (power, rest) => (whole ++ power, rest)
  | some (part, rest) =>
    let (power, rest) := (exponent rest).getD ([], rest)
    return (whole ++ part ++ power, rest)

/-- The text of one of the two words for numbers without digits. -/
def specialText (text : List Char) : Option (List Char × List Char) :=
  let (mark, rest) := sign text
  match expect? ['i', 'n', 'f'] rest, expect? ['n', 'a', 'n'] rest with
  | some rest, _ => some (mark ++ ['i', 'n', 'f'], rest)
  | none, some rest => some (mark ++ ['n', 'a', 'n'], rest)
  | none, none => none

/-- A fractional number.  One that is too large is refused, but not one that is too small. -/
def float (text : List Char) : Option (Node × List Char) :=
  match floatText text with
  | some (read, rest) => do
    let value ← Binary64.ofText? read
    if value = .infinite false then none else some (.float value, rest)
  | none => do
    let (read, rest) ← specialText text
    return (.float (← Binary64.ofText? read), rest)

/-- A whole number in another base, after the mark of the base. -/
def based (base : Nat) (text : List Char) : Option (Node × List Char) := do
  let (read, rest) ← digits base text
  let n ← Text.natOfDigits? base read
  if n < 0x8000000000000000 then some (.integer n, rest) else none

/-- A whole number. -/
def integer : List Char → Option (Node × List Char)
  | '0' :: 'x' :: rest => based 16 rest
  | '0' :: 'o' :: rest => based 8 rest
  | '0' :: 'b' :: rest => based 2 rest
  | text => do
    let (read, rest) ← decimal text
    return (.integer (← Text.signed? read), rest)

/-- One of the two truth values. -/
def boolean (text : List Char) : Option (Node × List Char) :=
  match expect? "true".toList text, expect? "false".toList text with
  | some rest, _ => some (.boolean true, rest)
  | none, some rest => some (.boolean false, rest)
  | none, none => none

/-- A number, a date or a time.  What starts like two of these is what reaches further. -/
def numeric (text : List Char) : Option (Node × List Char) :=
  momentText text <|> float text <|> integer text

/-- Any value without parts. -/
def scalar (text : List Char) : Option (Node × List Char) :=
  match quotedText text with
  | some (read, rest) => some (.text (String.ofList read), rest)
  | none => boolean text <|> numeric text

end HandleHeap.Toml
