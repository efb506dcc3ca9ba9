import HandleHeap.Settings.Document

/-!
# Layered settings

Settings put together from an optional file and from environment variables, the variables last.
Both are brought into named values first; only then is each field read, and the result checked.

* `Settings.loadWith`: the settings of a file and of variables, with any library for sources;
* `putNamed`, `ofVariable`: how the library that the tool runs with sets a value under a name, which
  may lead into tables, and reads the value of a variable;
* `sources`, `Settings.load`: that library, and the settings that it gives.

Fields are read freely by that library: a count may be a text, a truth value or a fractional number,
and a name counts in either case.  Names of values are compared without regard to case as well; all
field names are plain letters, so it is enough to fold those.
-/

namespace HandleHeap.Settings

open Toml (Node Entries)

/-! ## Loading -/

/-- What the names of variables for settings begin with. -/
def variableStart : String := "PHOTONMEM"

/-- A settings file: none given, one that does not exist, or its text. -/
inductive File where
  | absent
  | missing
  | holding (source : String)
deriving DecidableEq, Repr

/-- The sources that a settings file adds. -/
def File.sources (library : SourceLibrary) : File → Except SettingsError (List Entries)
  | .absent => .ok []
  | .missing => required (library.file? none)
  | .holding source => required (library.file? (some source))
where
  required : Option Entries → Except SettingsError (List Entries)
    | none => .error .unreadable
    | some named => .ok [named]

/-- The settings of a file and of variables, checked. -/
def loadWith (library : SourceLibrary) (file : File) (environment : List (String × String)) :
    Except SettingsError Settings := do
  let fromFile ← file.sources library
  let merged := library.merge (fromFile ++ [library.assigned variableStart environment])
  (← ofEntries library.toDecoder merged).validated

/-! ## Named values -/

/-- A name with all capital letters made small. -/
def fold (name : String) : String := String.ofList (name.toList.map Char.toLower)

/-- Whether a character may stand in a name that leads into tables. -/
def isNamePart (c : Char) : Bool := c.isAlphanum || c == '_' || c == '-' || c == ' '

/-- A step from a value into a part of it. -/
inductive Step where
  /-- Into the table at a name. -/
  | name (name : String)
  /-- Into the list at an index. -/
  | index
deriving DecidableEq, Repr

/-- The text after an index in brackets. -/
def afterIndex? (text : List Char) : Option (List Char) :=
  let blank (c : Char) : Bool := c == ' ' || c == '\t'
  let text := text.dropWhile blank
  let digits := match text with
    | '-' :: rest => rest
    | _ => text
  if (digits.takeWhile (Text.isDigit 10)).isEmpty then none
  else match (digits.dropWhile (Text.isDigit 10)).dropWhile blank with
    | ']' :: rest => some rest
    | _ => none

/-- The steps after the first name; `fuel` bounds their number. -/
def steps? : (fuel : Nat) → List Char → Option (List Step)
  | _, [] => some []
  | 0, _ => none
  | fuel + 1, '.' :: text =>
    let part := text.takeWhile isNamePart
    if part.isEmpty then none
    else (steps? fuel (text.dropWhile isNamePart)).map (.name (String.ofList part) :: ·)
  | fuel + 1, '[' :: text =>
    (afterIndex? text).bind fun rest => (steps? fuel rest).map (.index :: ·)
  | _ + 1, _ => none

/-- A name as the steps it leads along; a name that does not read as steps is a single one. -/
def path (name : String) : String × List Step :=
  let text := name.toList
  let first := text.takeWhile isNamePart
  let steps := if first.isEmpty then none
    else steps? text.length (text.dropWhile isNamePart)
  match steps with
  | none => (name, [])
  | some steps => (String.ofList first, steps)

/-- The entries of a table, none for any other value. -/
def entriesOf : Node → Entries
  | .table _ entries => entries
  | _ => []

/-- Sets the value at the end of some steps.  Values that stand in the way are replaced.  What a
list holds is never asked for, so a step into a list leaves an empty one. -/
def setAlong (value : Node) : List Step → Node → Node
  | [], _ => value
  | .index :: _, _ => .list []
  | .name name :: rest, old =>
    let entries := entriesOf old
    let inner := (Entries.find? entries name).getD (.table .header [])
    .table .header (Entries.put entries name (setAlong value rest inner))

/-- Sets the value of a name in some layers. -/
def putNamed (layers : Entries) (name : String) (value : Node) : Entries :=
  let (first, steps) := path (fold name)
  let old := (Entries.find? layers first).getD (.table .header [])
  let new := match steps, value with
    | [], .table origin entries =>
      let add (table : Entries) (entry : String × Node) : Entries :=
        Entries.put table (fold entry.1) entry.2
      .table origin (entries.foldl add (entriesOf old))
    | steps, value => setAlong value steps old
  Entries.put layers first new

/-! ## Variables -/

/-- The value of a variable: a truth value, a whole number, a fractional number, or else a text. -/
def ofVariable (text : String) : Node :=
  if fold text = "true" then .boolean true
  else if fold text = "false" then .boolean false
  else match Text.signed? text.toList with
    | some n => .integer n
    | none => match Binary64.ofText? text.toList with
      | some x => .float x
      | none => .text text

/-- What the name of a variable says after its beginning, in small letters. -/
def settingName? (start name : String) : Option String :=
  let beginning := (fold (start ++ "_")).toList
  let folded := (fold name).toList
  if beginning.isPrefixOf folded then some (String.ofList (folded.drop beginning.length)) else none

/-- The named values of variables.  Of several variables for one name the last one counts. -/
def ofVariables (start : String) (environment : List (String × String)) : Entries :=
  let add (named : Entries) (entry : String × String) : Entries :=
    match settingName? start entry.1 with
    | none => named
    | some name => named.put name (ofVariable entry.2)
  environment.foldl add []

/-! ## Fields -/

/-- A value as a count. -/
def looseCountOf? : Node → Option Nat
  | .integer n => if 0 ≤ n then some n.toNat else none
  | .boolean b => some b.toNat
  | .float x => some x.toWord
  | .text s =>
    if ["true", "on", "yes"].contains (fold s) then some 1
    else if ["false", "off", "no"].contains (fold s) then some 0
    else Text.unsigned? Text.greatestWord s.toList
  | _ => none

/-- A text as a name in small letters, or a table with that name alone. -/
def looseNameOf? : Node → Option String
  | .text name => some (fold name)
  | .table _ [(name, _)] => some (fold name)
  | _ => none

/-! ## The library of the tool -/

/-- The named values of sources, put over each other name by name. -/
def layered (sources : List Entries) : Entries :=
  let add (layers : Entries) (entry : String × Node) : Entries :=
    putNamed layers entry.1 entry.2
  sources.flatten.foldl add []

/-- The library for sources that the tool runs with. -/
def sources : SourceLibrary where
  count? := looseCountOf?
  name? := looseNameOf?
  file? := fun text? => text?.bind Toml.parse?
  assigned := ofVariables
  merge := layered

/-- The settings of a file and of variables, checked. -/
def load (file : File) (environment : List (String × String)) : Except SettingsError Settings :=
  loadWith sources file environment

end HandleHeap.Settings
