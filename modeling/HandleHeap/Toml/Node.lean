import HandleHeap.Binary64

/-!
# Document trees

The value of a TOML document: named entries, each a scalar, a list or a table.  A table remembers
how it came about, because that decides what may still be added to it.

* `Entries.addPair`: adds a value under a path of dotted keys;
* `Entries.openTable`, `Entries.openItem`: begins a table or an item of a list of tables under a
  path of header keys.

All three refuse to define a name twice.
-/

namespace HandleHeap.Toml

/-- How a table came about. -/
inductive Origin where
  /-- By a header of its own, or as the document. -/
  | header
  /-- As a part of the path of a longer header. -/
  | implied
  /-- As a part of a dotted key. -/
  | dotted
  /-- In braces. -/
  | inline
deriving DecidableEq, Repr

/-- A value in a document. -/
inductive Node where
  | text (value : String)
  | integer (value : Int)
  | float (value : Binary64)
  | boolean (value : Bool)
  /-- A date, a time, or both, as written. -/
  | moment (value : String)
  | list (items : List Node)
  /-- The items begun by headers in double brackets. -/
  | tables (items : List (List (String × Node)))
  | table (origin : Origin) (entries : List (String × Node))
deriving Repr

/-- Named values in the order of their names' first mention. -/
abbrev Entries := List (String × Node)

namespace Entries

/-- The value of a name. -/
def find? (entries : Entries) (name : String) : Option Node := entries.lookup name

/-- Gives a name another value; a new name goes to the end. -/
def put (entries : Entries) (name : String) (node : Node) : Entries :=
  match entries with
  | [] => [(name, node)]
  | (other, old) :: rest =>
    if other = name then (name, node) :: rest else (other, old) :: put rest name node

/-- Applies a change inside the table at a path, which is made where it is missing.  With `dotted`
the path consists of dotted keys, which may not enter a table that has a header or braces.  The
change is told how the table came about. -/
def within (dotted : Bool) (change : Origin → Entries → Option Entries) :
    List String → Origin → Entries → Option Entries
  | [], origin, entries => change origin entries
  | name :: path, _, entries =>
    match entries.find? name with
    | none => do
      let origin := if dotted then Origin.dotted else Origin.implied
      return entries.put name (.table origin (← within dotted change path origin []))
    | some (.table origin inner) =>
      if origin = .inline ∨ (dotted ∧ origin = .header) then none
      else do return entries.put name (.table origin (← within dotted change path origin inner))
    | some (.tables items) => do
      let last ← within dotted change path .header (← items.getLast?)
      return entries.put name (.tables (items.dropLast ++ [last]))
    | some _ => none

/-- Adds a value under dotted keys.  A table made by dotted keys takes more of them, but a table
made otherwise only takes keys without dots of its own. -/
def addPair (path : List String) (name : String) (node : Node) :
    Origin → Entries → Option Entries :=
  within true (fun origin entries =>
    if (origin == .dotted) == path.isEmpty then none
    else if (entries.find? name).isSome then none
    else some (entries.put name node)) path

/-- Begins the table of a header.  An implied table becomes a table with a header. -/
def openTable (path : List String) (name : String) (entries : Entries) : Option Entries :=
  within false (fun _ entries =>
    match entries.find? name with
    | none => some (entries.put name (.table .header []))
    | some (.table .implied inner) => some (entries.put name (.table .header inner))
    | some _ => none) path .header entries

/-- Begins the next item of a list of tables. -/
def openItem (path : List String) (name : String) (entries : Entries) : Option Entries :=
  within false (fun _ entries =>
    match entries.find? name with
    | none => some (entries.put name (.tables [[]]))
    | some (.tables items) => some (entries.put name (.tables (items ++ [[]])))
    | some _ => none) path .header entries

/-- Adds a value in the table that the last header began. -/
def addUnder (header : List String) (path : List String) (name : String) (node : Node)
    (entries : Entries) : Option Entries :=
  within false (addPair path name node) header .header entries

end Entries

end HandleHeap.Toml
