import HandleHeap.Toml.Scalar

/-!
# Documents

A document is a sequence of lines: named values, headers in single and double brackets, blank lines
and comments.

* `value`: any value, with lists and braces nested to a bounded depth;
* `lines`: the lines of a text;
* `Entries.ofLines?`: the tree that the lines define;
* `parse?`: the tree of a text;
* `print?`: a text for named values without parts.
-/

namespace HandleHeap.Toml

/-! ## Keys -/

/-- Whether a character may stand in a key without quotes. -/
def isBareKey (c : Char) : Bool := c.isAlphanum || c == '_' || c == '-'

/-- One part of a key, with blanks around it. -/
def keyPart (text : List Char) : Option (String × List Char) :=
  let text := skipBlanks text
  match quotedLine text with
  | some (read, rest) => some (String.ofList read, skipBlanks rest)
  | none =>
    let read := text.takeWhile isBareKey
    if read.isEmpty then none
    else some (String.ofList read, skipBlanks (text.dropWhile isBareKey))

/-- The parts of a key after the first; `fuel` bounds their number. -/
def keyRest : (fuel : Nat) → List Char → Option (List String × List Char)
  | fuel + 1, '.' :: text => do
    let (part, text) ← keyPart text
    let (parts, text) ← keyRest fuel text
    return (part :: parts, text)
  | 0, '.' :: _ => none
  | _, text => some ([], text)

/-- The largest depth of nesting, of values and of keys. -/
def greatestDepth : Nat := 79

/-- A key as its path and its last part. -/
def key (text : List Char) : Option ((List String × String) × List Char) := do
  let (first, text) ← keyPart text
  let (parts, text) ← keyRest (greatestDepth - 1) text
  let path := first :: parts
  return ((path.dropLast, path.getLast?.getD first), text)

/-! ## Values -/

/-- The text without blanks, line ends and comments in front.  While a comment is skipped `comment`
is set; a character that no comment may hold stays in the text. -/
def skipSpace (comment : Bool) : List Char → List Char
  | '\n' :: rest => skipSpace false rest
  | '\r' :: '\n' :: rest => skipSpace false rest
  | c :: rest =>
    if comment then
      if isPlain c then skipSpace true rest else c :: rest
    else if isBlank c then skipSpace false rest
    else if c = '#' then skipSpace true rest
    else c :: rest
  | [] => []

/-- The items of a list up to its closing bracket; a comma may follow the last one.  `fuel` bounds
their number. -/
def items (item : List Char → Option (Node × List Char)) :
    (fuel : Nat) → List Char → Option (List Node × List Char)
  | 0, _ => none
  | fuel + 1, text =>
    match skipSpace false text with
    | ']' :: rest => some ([], rest)
    | text => do
      let (first, text) ← item text
      match skipSpace false text with
      | ',' :: rest =>
        let (others, rest) ← items item fuel rest
        return (first :: others, rest)
      | ']' :: rest => return ([first], rest)
      | _ => none

/-- A key, an equals sign and a value. -/
def pair (item : List Char → Option (Node × List Char)) (text : List Char) :
    Option (((List String × String) × Node) × List Char) := do
  let (name, text) ← key text
  let (node, text) ← item (skipBlanks (← expect? ['='] text))
  return ((name, node), text)

/-- The named values in braces up to the closing brace, on one line.  `fuel` bounds their number. -/
def members (item : List Char → Option (Node × List Char)) :
    (fuel : Nat) → Entries → List Char → Option (Entries × List Char)
  | 0, _, _ => none
  | fuel + 1, entries, text => do
    let (((path, name), node), text) ← pair item text
    let entries ← entries.addPair path name node .inline
    match skipBlanks text with
    | ',' :: rest => members item fuel entries rest
    | '}' :: rest => return (entries, rest)
    | _ => none

/-- A value nested no deeper than `depth`. -/
def value : (depth : Nat) → List Char → Option (Node × List Char)
  | 0, text => scalar text
  | depth + 1, '[' :: text => do
    let (list, rest) ← items (value depth) (text.length + 1) text
    return (.list list, rest)
  | depth + 1, '{' :: text =>
    match skipBlanks text with
    | '}' :: rest => some (.table .inline [], rest)
    | text => do
      let (entries, rest) ← members (value depth) (text.length + 1) [] text
      return (.table .inline entries, rest)
  | _ + 1, text => scalar text

/-! ## Lines -/

/-- What a line says. -/
inductive Line where
  /-- Nothing: the line is blank or a comment. -/
  | blank
  /-- A name, behind a path of dotted keys, has a value. -/
  | pair (path : List String) (name : String) (node : Node)
  /-- A table begins. -/
  | table (path : List String) (name : String)
  /-- An item of a list of tables begins. -/
  | item (path : List String) (name : String)
deriving Repr

/-- The text after the end of a line, where blanks and a comment may stand.  The end of the text
also ends a line. -/
def lineEnd? (text : List Char) : Option (List Char) :=
  let rest := match skipBlanks text with
    | '#' :: rest => rest.dropWhile isPlain
    | rest => rest
  if rest.isEmpty then some [] else newline? rest

/-- A key up to a closing bracket. -/
def headerKey (closing : List Char) (text : List Char) :
    Option ((List String × String) × List Char) := do
  let (name, text) ← key text
  return (name, ← expect? closing text)

/-- What a line says, up to its end. -/
def statement (text : List Char) : Option (Line × List Char) :=
  match skipBlanks text with
  | [] => some (.blank, [])
  | '[' :: '[' :: rest => do
    let ((path, name), rest) ← headerKey [']', ']'] rest
    return (.item path name, rest)
  | '[' :: rest => do
    let ((path, name), rest) ← headerKey [']'] rest
    return (.table path name, rest)
  | c :: rest =>
    if c = '#' ∨ c = '\n' ∨ c = '\r' then some (.blank, c :: rest)
    else do
      let (((path, name), node), rest) ← pair (value greatestDepth) (c :: rest)
      return (.pair path name node, rest)

/-- The lines of a text; `fuel` bounds their number. -/
def linesWithin : (fuel : Nat) → List Char → Option (List Line)
  | _, [] => some []
  | 0, _ => none
  | fuel + 1, text => do
    let (line, rest) ← statement text
    return line :: (← linesWithin fuel (← lineEnd? rest))

/-- The lines of a text.  Every line but the last takes a character, so the length bounds them. -/
def lines (text : List Char) : Option (List Line) := linesWithin text.length text

/-! ## Trees -/

/-- The tree of some lines, with the header that the next named value falls under. -/
structure Draft where
  /-- The path of the last header, empty before the first. -/
  header : List String := []
  /-- The tree so far. -/
  entries : Entries := []

/-- Adds what a line says to the tree. -/
def Draft.add (draft : Draft) : Line → Option Draft
  | .blank => some draft
  | .pair path name node => do
    return { draft with entries := ← draft.entries.addUnder draft.header path name node }
  | .table path name => do
    return ⟨path ++ [name], ← draft.entries.openTable path name⟩
  | .item path name => do
    return ⟨path ++ [name], ← draft.entries.openItem path name⟩

/-- The tree that lines define. -/
def Entries.ofLines? (lines : List Line) : Option Entries :=
  (lines.foldlM Draft.add {}).map (·.entries)

/-- The tree of a text.  A byte order mark in front is skipped. -/
def parse? (text : String) : Option Entries := do
  let chars := match text.toList with
    | '\ufeff' :: rest => rest
    | chars => chars
  Entries.ofLines? (← lines chars)

/-! ## Writing -/

/-- The largest whole number that a document can hold. -/
def greatestInteger : Int := 0x7fffffffffffffff

/-- A value as it is written.  Only whole numbers and plain text are. -/
def written? : Node → Option String
  | .integer n =>
    if -greatestInteger - 1 ≤ n ∧ n ≤ greatestInteger then some (toString n) else none
  | .text value =>
    if value.toList.all fun c => isPlain c && c != '"' && c != '\\' then
      some ("\"" ++ value ++ "\"")
    else none
  | _ => none

/-- The line that gives a value to a name. -/
def line? (name : String) (node : Node) : Option String :=
  (written? node).map fun written => name ++ " = " ++ written ++ "\n"

/-- A text for named values, with a line for each, if all of them can be written. -/
def print? (entries : Entries) : Option String :=
  (entries.mapM fun entry => line? entry.1 entry.2).map String.join

end HandleHeap.Toml
