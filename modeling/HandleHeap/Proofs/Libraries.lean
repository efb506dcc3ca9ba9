import Mathlib
import HandleHeap.Proofs.Documents
import HandleHeap.Settings.Layers

/-!
# Laws of settings libraries

What settings rely on in the libraries that write, read and merge named values.

* `IsKey`, `LeadsInto`: names that stand for themselves, and names that are taken for one of them or
  for a part of its value;
* `numeral?`, `heard`: numbers in variables, and the variables for a name;
* `Decoder.Lawful`: whole numbers are counts, and text in small letters is a name;
* `DocumentLibrary.Lawful`: named numbers and texts are written as a document of them, and such a
  document is read as them;
* `SourceLibrary.Lawful`: values of variables, and later sources over earlier ones key by key;
  `SourceLibrary.ReadsDocuments`: files that are documents.
-/

namespace HandleHeap.Settings

open Toml (Node Entries Denotes)

/-! ### Names -/

/-- A name that stands for itself: it needs no quotes and has no capital letters. -/
structure IsKey (name : String) : Prop where
  ne_nil : name.toList ≠ []
  bare : ∀ c ∈ name.toList, Toml.isBareKey c = true
  fold_eq : fold name = name

/-- A name leads into the value of a key without being the key: it has capital letters, or goes on
to a part of the value. -/
def LeadsInto (name key : String) : Prop :=
  name ≠ key ∧ (fold name = key ∨ (key ++ ".").toList <+: (fold name).toList
    ∨ (key ++ "[").toList <+: (fold name).toList)

instance (name key : String) : Decidable (LeadsInto name key) := instDecidableAnd

/-- A value that is not a table. -/
def IsPlain (node : Node) : Prop := ∀ origin entries, node ≠ .table origin entries

/-- A source has at most one value for each name, a plain one for the key, and no name that leads
into it. -/
structure Apart (source : Entries) (key : String) : Prop where
  nodup : (source.map (·.1)).Nodup
  plain : ∀ node, source.find? key = some node → IsPlain node
  not_leadsInto : ∀ entry ∈ source, ¬ LeadsInto entry.1 key

/-! ### Variables -/

/-- The number that a text writes in decimal digits. -/
def numeral? (text : String) : Option Nat := Text.natOfDigits? 10 text.toList

/-- The texts of the variables for a name: those that are called so after their beginning, without
regard to case. -/
def heard (start : String) (environment : List (String × String)) (name : String) : List String :=
  (environment.filter fun entry => settingName? start entry.1 = some name).map (·.2)

/-! ### Laws -/

/-- A number is kept, or is too large for a signed 64-bit word and stays so. -/
def Close (n m : Nat) : Prop := m = n ∨ (0x8000000000000000 ≤ n ∧ 0x8000000000000000 ≤ m)

namespace Decoder

/-- Values are handed to fields as what they are. -/
structure Lawful (decoder : Decoder) : Prop where
  /-- A whole number without sign is a count. -/
  count_integer : ∀ n : Nat, decoder.count? (.integer n) = some n
  /-- A text without capital letters is a name. -/
  name_text : ∀ name, fold name = name → decoder.name? (.text name) = some name

/-- The value that the text of a variable stands for. -/
structure Understands (decoder : Decoder) (text : String) (node : Node) : Prop where
  /-- A number that fits a signed 64-bit word is kept; one that does not becomes another that is too
  large. -/
  number : ∀ n, numeral? text = some n → ∃ m, decoder.count? node = some m ∧ Close n m
  /-- The name of a byte order stays a text. -/
  order : ∀ order : ByteOrder, text = order.name → node = .text order.name
  /-- No text stands for a table. -/
  plain : IsPlain node

end Decoder

/-- Documents of numbers and texts are written and read as TOML prescribes. -/
structure DocumentLibrary.Lawful (library : DocumentLibrary) : Prop where
  decoder : library.toDecoder.Lawful
  /-- Named values of which there is a document are written as one. -/
  write : ∀ text entries, Denotes text entries →
    ∃ written, library.write? entries = some written ∧ Denotes written entries
  /-- A document is read as the named values it is a document of, in any order. -/
  read : ∀ text entries, Denotes text entries →
    ∃ read, library.read? text = some read ∧ read.Perm entries

namespace SourceLibrary

/-- Sources are put over each other key by key. -/
structure Lawful (library : SourceLibrary) : Prop where
  decoder : library.toDecoder.Lawful
  /-- No file has two values of one name. -/
  file_nodup : ∀ text? entries, library.file? text? = some entries → (entries.map (·.1)).Nodup
  /-- Variables are taken together by name. -/
  assigned_nodup : ∀ start environment,
    ((library.assigned start environment).map (·.1)).Nodup
  /-- A name that is given a value by variables has a variable. -/
  heard_ne_nil : ∀ start environment, ∀ entry ∈ library.assigned start environment,
    heard start environment entry.1 ≠ []
  /-- A single variable for a name gives it the value that its text stands for. -/
  exists_of_heard : ∀ start environment name text, heard start environment name = [text] →
    ∃ node, (library.assigned start environment).find? name = some node
      ∧ library.toDecoder.Understands text node
  /-- Later sources override earlier ones. -/
  find?_merge : ∀ sources key, IsKey key → (∀ source ∈ sources, Apart source key) →
    (library.merge sources).find? key = sources.reverse.findSome? fun source => source.find? key

end SourceLibrary

end HandleHeap.Settings
