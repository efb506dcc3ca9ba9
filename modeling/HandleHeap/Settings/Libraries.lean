import HandleHeap.Settings
import HandleHeap.Toml.Node

/-!
# Libraries for settings

Settings are written, read and put together by libraries.  Only what is asked of them is fixed here;
how they do it is not a matter of settings.

* `Decoder`: how named values become fields;
* `DocumentLibrary`: named values as documents;
* `SourceLibrary`: named values of a file and of variables, put over each other.
-/

namespace HandleHeap.Settings

open Toml (Node Entries)

/-- How a library hands a value to a field. -/
structure Decoder where
  /-- A value as a count. -/
  count? : Node → Option Nat
  /-- A value as one of several names. -/
  name? : Node → Option String

/-- A library that writes and reads documents. -/
structure DocumentLibrary extends Decoder where
  /-- The document of named values, if it can hold them. -/
  write? : Entries → Option String
  /-- The named values of a document. -/
  read? : String → Option Entries

/-- A library that puts settings together from sources. -/
structure SourceLibrary extends Decoder where
  /-- The named values of a required file, from its text; no text if there is no such file. -/
  file? : Option String → Option Entries
  /-- The named values of the variables whose names begin with a word. -/
  assigned : (start : String) → List (String × String) → Entries
  /-- The named values of sources put over each other, the last one on top. -/
  merge : List Entries → Entries

end HandleHeap.Settings
