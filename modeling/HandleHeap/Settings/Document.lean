import HandleHeap.Settings.Libraries
import HandleHeap.Toml.Document

/-!
# Settings documents

Settings as a document of named values, one for each field, with any library for documents.

* `Settings.toEntries`, `Settings.ofEntries`: settings as named values and back.  Fields that are
  left out keep their defaults, names that are not fields are ignored, and a field takes no value of
  another type;
* `Settings.textWith?`, `Settings.parseWith`: the document of settings, and the settings of one;
* `documents`, `Settings.text?`, `Settings.parse`: the same with the library of the tool.
-/

namespace HandleHeap.Settings

open Toml (Node Entries)

/-! ## Settings as named values -/

/-- The named values of settings. -/
def toEntries (settings : Settings) : Entries :=
  [("slab_buffer_size", .integer settings.slabBufferSize),
    ("chain_increment", .integer settings.chainIncrement),
    ("max_chain_length", .integer settings.maxChainLength),
    ("byte_order", .text settings.byteOrder.name)]

/-- A field of named values, its default where it is left out. -/
def fieldOr {α : Type} (entries : Entries) (name : String) (read : Node → Option α)
    (default : α) : Except SettingsError α :=
  match entries.find? name with
  | none => .ok default
  | some node => match read node with
    | none => .error .illTyped
    | some a => .ok a

/-- A value as a byte order. -/
def Decoder.order? (decoder : Decoder) (node : Node) : Option ByteOrder :=
  (decoder.name? node).bind ByteOrder.ofName?

/-- The settings that named values give. -/
def ofEntries (decoder : Decoder) (entries : Entries) : Except SettingsError Settings := do
  let default : Settings := {}
  return {
    slabBufferSize := ← fieldOr entries "slab_buffer_size" decoder.count? default.slabBufferSize
    chainIncrement := ← fieldOr entries "chain_increment" decoder.count? default.chainIncrement
    maxChainLength := ← fieldOr entries "max_chain_length" decoder.count? default.maxChainLength
    byteOrder := ← fieldOr entries "byte_order" decoder.order? default.byteOrder }

/-! ## Documents -/

/-- The document of settings, if a document can hold their numbers. -/
def textWith? (library : DocumentLibrary) (settings : Settings) : Except SettingsError String :=
  match library.write? settings.toEntries with
  | none => .error .unwritable
  | some text => .ok text

/-- The settings of a document, checked. -/
def parseWith (library : DocumentLibrary) (text : String) : Except SettingsError Settings :=
  match library.read? text with
  | none => .error .illTyped
  | some entries => do (← ofEntries library.toDecoder entries).validated

/-! ## The library of the tool -/

/-- A whole number without sign as a count. -/
def countOf? : Node → Option Nat
  | .integer n => if 0 ≤ n then some n.toNat else none
  | _ => none

/-- Whether a value is a table or list without contents. -/
def isEmptyNode : Node → Bool
  | .table _ entries => entries.isEmpty
  | .list items => items.isEmpty
  | .tables items => items.isEmpty
  | _ => false

/-- A text as a name, or an empty table or list under that name. -/
def nameOf? : Node → Option String
  | .text name => some name
  | .table _ [(name, node)] => if isEmptyNode node then some name else none
  | _ => none

/-- The library for documents that the tool runs with. -/
def documents : DocumentLibrary where
  count? := countOf?
  name? := nameOf?
  write? := Toml.print?
  read? := Toml.parse?

/-- The document of settings. -/
def text? (settings : Settings) : Except SettingsError String := settings.textWith? documents

/-- The settings of a document, checked. -/
def parse (text : String) : Except SettingsError Settings := parseWith documents text

end HandleHeap.Settings
