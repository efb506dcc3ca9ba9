import HandleHeap.ChunkSize
import HandleHeap.Slab.Capacity

/-!
# The listing of slot counts

Slots per slab for every chunk size, with neighbouring sizes of one count taken together.

* `runsFrom`: the runs of equal counts over a range of sizes;
* `listing`: the runs as a table of two columns.
-/

namespace HandleHeap.CommandLine

/-- Neighbouring sizes with one count. -/
structure Run where
  /-- The smallest size. -/
  first : Nat
  /-- The largest size. -/
  last : Nat
  /-- Their count. -/
  slots : Nat
deriving DecidableEq, Repr

/-- The runs of `slots` from a run that reaches from `first` to `last` so far, over `more` further
sizes. -/
def runsFrom (slots : Nat → Nat) (first last : Nat) : (more : Nat) → List Run
  | 0 => [⟨first, last, slots first⟩]
  | more + 1 =>
    if slots (last + 1) = slots first then runsFrom slots first (last + 1) more
    else ⟨first, last, slots first⟩ :: runsFrom slots (last + 1) (last + 1) more

/-- The runs over all chunk sizes. -/
def capacityRuns (bufferSize : Nat) : List Run :=
  runsFrom (Slab.capacity · bufferSize) ChunkSize.least ChunkSize.least
    (ChunkSize.greatest - ChunkSize.least)

/-- A text moved to the right end of a column. -/
def alignRight (width : Nat) (text : String) : String :=
  String.ofList (List.replicate (width - text.length) ' ') ++ text

/-- A line of the table. -/
def row (sizes slots : String) : String := alignRight 12 sizes ++ "  " ++ alignRight 6 slots ++ "\n"

/-- A run as a line of the table. -/
def Run.text (run : Run) : String :=
  row (toString run.first ++ "..=" ++ toString run.last) (toString run.slots)

/-- The table for a slab size. -/
def listing (bufferSize : Nat) : String :=
  row "chunk size" "slots" ++ String.join ((capacityRuns bufferSize).map (·.text))

end HandleHeap.CommandLine
