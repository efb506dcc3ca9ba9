import HandleHeap.ByteOrder

/-!
# Settings

The four numbers and names that shape a heap, their defaults and the ranges they must lie in.

* `Settings.validate`: the first field out of its range, in the order of the fields.
-/

namespace HandleHeap

/-- What a heap can be told before it is made. -/
structure Settings where
  /-- The size that slabs aim for, in bytes. -/
  slabBufferSize : Nat := 4096
  /-- The positions by which a full chain becomes longer. -/
  chainIncrement : Nat := 8
  /-- The length beyond which no chain grows. -/
  maxChainLength : Nat := 1048568
  /-- The byte order of typed access. -/
  byteOrder : ByteOrder := .little
deriving DecidableEq, Repr, Inhabited

/-- Why settings were refused. -/
inductive SettingsError where
  /-- The settings file is missing or is not a document. -/
  | unreadable
  /-- A field has a value of another type. -/
  | illTyped
  /-- A field is too large to be written. -/
  | unwritable
  /-- The slab size is out of its range. -/
  | slabBufferSize (value : Nat)
  /-- The chain increment is out of its range. -/
  | chainIncrement (value : Nat)
  /-- The chain bound is out of the range that starts at the increment. -/
  | maxChainLength (increment value : Nat)
deriving DecidableEq, Repr

namespace Settings

/-- The smallest slab size. -/
def leastSlabBufferSize : Nat := 1024

/-- The largest slab size. -/
def greatestSlabBufferSize : Nat := 65536

/-- The largest chain increment. -/
def greatestChainIncrement : Nat := 1024

/-- The largest chain bound: eight positions fewer than a handle can name. -/
def greatestChainLength : Nat := 0x100000 - 8

/-- Accepts settings whose fields all lie in their ranges. -/
def validate (settings : Settings) : Except SettingsError Unit :=
  if ¬ (leastSlabBufferSize ≤ settings.slabBufferSize
      ∧ settings.slabBufferSize ≤ greatestSlabBufferSize) then
    .error (.slabBufferSize settings.slabBufferSize)
  else if ¬ (1 ≤ settings.chainIncrement
      ∧ settings.chainIncrement ≤ greatestChainIncrement) then
    .error (.chainIncrement settings.chainIncrement)
  else if ¬ (settings.chainIncrement ≤ settings.maxChainLength
      ∧ settings.maxChainLength ≤ greatestChainLength) then
    .error (.maxChainLength settings.chainIncrement settings.maxChainLength)
  else
    .ok ()

/-- The settings themselves if they are valid. -/
def validated (settings : Settings) : Except SettingsError Settings := do
  settings.validate
  return settings

end Settings

/-- The wording of a refusal. -/
def SettingsError.message (error : SettingsError) : String :=
  "Configuration error: " ++ match error with
    | unreadable => "Failed to load configuration"
    | illTyped => "Invalid configuration"
    | unwritable => "Failed to serialize configuration: out-of-range value for u64 type"
    | slabBufferSize value =>
      s!"slab_buffer_size must be within {Settings.leastSlabBufferSize}"
        ++ s!"..={Settings.greatestSlabBufferSize}, got {value}"
    | chainIncrement value =>
      s!"chain_increment must be within 1..={Settings.greatestChainIncrement}, got {value}"
    | maxChainLength increment value =>
      s!"max_chain_length must be within {increment}"
        ++ s!"..={Settings.greatestChainLength}, got {value}"

end HandleHeap
