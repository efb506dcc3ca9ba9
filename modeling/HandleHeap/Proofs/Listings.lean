import Mathlib
import HandleHeap.CommandLine.Run
import HandleHeap.Proofs.Numerals
import HandleHeap.Proofs.SlotCounts

/-!
# The listing of slot counts

The rows of the listing split the chunk sizes into runs of one count each, and none could be longer.

* `Splits`: a list of runs splits a range of sizes, with counts that fall from run to run;
* `Splits.cons`, `splits_runsFrom`: a run in front of others, and all the runs of a falling count;
* `Sweep`, `sweep`: the table printed in one pass over the sizes, which ends with a count of zero
  beyond the largest, and on words; `sweep_eq`, by which this is the listing;
* `Run.ofLine?`, `runsOf?`: the runs that a table shows; `runsOf?_listing`;
* `Tabulated`, `tabulated_capacityRuns`: all of this, for every buffer size that is a word.
-/

namespace HandleHeap.CommandLine

/-! ### Runs of equal counts -/

/-- The sizes of a run, in order. -/
def Run.sizes (run : Run) : List Nat := List.range' run.first (run.last + 1 - run.first)

/-- Runs split the sizes from `first` to `last` by their counts. -/
structure Splits (slots : Nat → Nat) (first last : Nat) (runs : List Run) : Prop where
  head_eq : runs.head?.map (·.first) = some first
  /-- A run starts where the one before it ended. -/
  next_eq : runs.IsChain fun run next => next.first = run.last + 1
  last_eq : runs.getLast?.map (·.last) = some last
  first_le : ∀ run ∈ runs, run.first ≤ run.last
  /-- Every size is in one run, once. -/
  sizes_eq : runs.flatMap Run.sizes = List.range' first (last + 1 - first)
  slots_eq : ∀ run ∈ runs, ∀ size, run.first ≤ size → size ≤ run.last → slots size = run.slots
  /-- No two neighbours have one count. -/
  falls : runs.IsChain fun run next => next.slots < run.slots

namespace Splits

variable {slots : Nat → Nat} {first last final : Nat} {runs : List Run}

theorem exists_eq_cons (h : Splits slots first last runs) :
    ∃ run rest, runs = run :: rest ∧ run.first = first ∧ run.slots = slots first := by
  obtain ⟨run, hrun, hfirst⟩ := Option.map_eq_some_iff.mp h.head_eq
  obtain ⟨rest, rfl⟩ := List.head?_eq_some_iff.mp hrun
  have hle := h.first_le run List.mem_cons_self
  have hslots := h.slots_eq run List.mem_cons_self run.first (Nat.le_refl _) hle
  exact ⟨run, rest, rfl, hfirst, by rw [← hslots, hfirst]⟩

/-- A single run. -/
theorem single (hle : first ≤ last)
    (hslots : ∀ size, first ≤ size → size ≤ last → slots size = slots first) :
    Splits slots first last [⟨first, last, slots first⟩] where
  head_eq := rfl
  next_eq := List.isChain_singleton _
  last_eq := rfl
  first_le := by
    intro run hrun
    rw [List.mem_singleton.mp hrun]
    exact hle
  sizes_eq := by rw [List.flatMap_singleton]; rfl
  slots_eq := by
    intro run hrun
    rw [List.mem_singleton.mp hrun]
    exact hslots
  falls := List.isChain_singleton _

/-- A run in front of runs with smaller counts. -/
theorem cons (h : Splits slots (last + 1) final runs) (hle : first ≤ last) (hlt : last < final)
    (hslots : ∀ size, first ≤ size → size ≤ last → slots size = slots first)
    (hfall : slots (last + 1) < slots first) :
    Splits slots first final (⟨first, last, slots first⟩ :: runs) := by
  obtain ⟨run, rest, rfl, hfirst, hrun⟩ := h.exists_eq_cons
  have hone := single hle hslots
  exact {
    head_eq := rfl
    next_eq := List.isChain_cons_cons.mpr ⟨hfirst, h.next_eq⟩
    last_eq := by rw [List.getLast?_cons_cons]; exact h.last_eq
    first_le := List.forall_mem_cons.mpr ⟨hle, h.first_le⟩
    sizes_eq := by
      rw [List.flatMap_cons, h.sizes_eq]
      show List.range' first (last + 1 - first) ++ List.range' (last + 1) (final + 1 - (last + 1))
        = List.range' first (final + 1 - first)
      have hstart : last + 1 = first + (last + 1 - first) := by omega
      have hcount : final + 1 - first = (last + 1 - first) + (final + 1 - (last + 1)) := by omega
      rw [hcount, ← List.range'_append_1, ← hstart]
    slots_eq := List.forall_mem_cons.mpr ⟨hslots, h.slots_eq⟩
    falls := List.isChain_cons_cons.mpr ⟨by rw [hrun]; exact hfall, h.falls⟩ }

end Splits

/-- **The runs of a falling count split the sizes by it.** -/
theorem splits_runsFrom {slots : Nat → Nat} (hanti : Antitone slots) :
    ∀ (more : Nat) {first last : Nat}, first ≤ last →
      (∀ size, first ≤ size → size ≤ last → slots size = slots first) →
      Splits slots first (last + more) (runsFrom slots first last more) := by
  intro more
  induction more with
  | zero => exact fun hle hslots => Splits.single hle hslots
  | succ more ih =>
    intro first last hle hslots
    unfold runsFrom
    rw [Nat.add_comm more 1, ← Nat.add_assoc]
    by_cases hsame : slots (last + 1) = slots first
    · -- the run under way takes the size
      rw [if_pos hsame]
      refine ih (Nat.le_succ_of_le hle) fun size hfirst hlast => ?_
      rcases Nat.lt_or_eq_of_le hlast with hlast | rfl
      · exact hslots size hfirst (Nat.lt_succ_iff.mp hlast)
      · exact hsame
    · -- the run under way ends, and the size begins the next
      rw [if_neg hsame]
      have hnext : Splits slots (last + 1) (last + 1 + more)
          (runsFrom slots (last + 1) (last + 1) more) :=
        ih (Nat.le_refl _) fun size hfirst hlast => by rw [Nat.le_antisymm hlast hfirst]
      have hfall : slots (last + 1) < slots first :=
        Nat.lt_of_le_of_ne (hanti (Nat.le_succ_of_le hle)) hsame
      exact hnext.cons hle (by omega) hslots hfall

/-! ### The pass over the sizes -/

/-- A pass over the sizes: the run under way, and what has been printed. -/
structure Sweep where
  /-- The first size of the run. -/
  start : Nat
  /-- The count of the run. -/
  current : Nat
  /-- The table so far. -/
  output : String

/-- Visits the next size.  If the count changes, the run under way is printed. -/
def Sweep.visit (sweep : Sweep) (size slots : Nat) : Sweep :=
  if slots = sweep.current then sweep
  else ⟨size, slots, sweep.output ++ Run.text ⟨sweep.start, size - 1, sweep.current⟩⟩

theorem Sweep.visit_of_eq {sweep : Sweep} {size slots : Nat} (h : slots = sweep.current) :
    sweep.visit size slots = sweep := if_pos h

theorem Sweep.visit_of_ne {sweep : Sweep} {size slots : Nat} (h : slots ≠ sweep.current) :
    sweep.visit size slots
      = ⟨size, slots, sweep.output ++ Run.text ⟨sweep.start, size - 1, sweep.current⟩⟩ := if_neg h

/-- The count at a size: zero beyond the chunks, where no run goes on. -/
def countChecked (bufferSize size : Nat) : Except Slip Nat :=
  if size ≤ ChunkSize.greatest then Slab.capacityChecked size bufferSize else return 0

/-- Visits a size, with its count. -/
def Sweep.visitChecked (bufferSize : Nat) (sweep : Sweep) (size : Nat) : Except Slip Sweep := do
  return sweep.visit size (← countChecked bufferSize size)

/-- The table, printed in one pass up to the size beyond the largest chunk. -/
def sweep (bufferSize : Nat) : Except Slip String := do
  let current ← Slab.capacityChecked ChunkSize.least bufferSize
  let start : Sweep := ⟨ChunkSize.least, current, row "chunk size" "slots"⟩
  let swept ← (List.range' (ChunkSize.least + 1) ChunkSize.greatest).foldlM
    (Sweep.visitChecked bufferSize) start
  return swept.output

/-- **A pass that ends with a count of zero prints all runs**, also the last. -/
theorem output_foldl_visit {slots : Nat → Nat} (hpos : ∀ size, 0 < slots size) :
    ∀ (more start last : Nat) (output : String),
      (((List.range' (last + 1) more).foldl (fun sweep size => sweep.visit size (slots size))
        (⟨start, slots start, output⟩ : Sweep)).visit (last + more + 1) 0).output
        = output ++ String.join ((runsFrom slots start last more).map (·.text)) := by
  intro more
  induction more with
  | zero =>
    intro start last output
    have hzero : 0 ≠ slots start := Nat.ne_of_lt (hpos start)
    rw [List.range'_zero, List.foldl_nil, Sweep.visit_of_ne hzero]
    simp [runsFrom]
  | succ more ih =>
    intro start last output
    unfold runsFrom
    rw [List.range'_succ, List.foldl_cons, Nat.add_comm more 1, ← Nat.add_assoc]
    by_cases hsame : slots (last + 1) = slots start
    · have hvisit : (⟨start, slots start, output⟩ : Sweep).visit (last + 1) (slots (last + 1))
          = ⟨start, slots start, output⟩ := Sweep.visit_of_eq hsame
      rw [if_pos hsame, hvisit]
      exact ih start (last + 1) output
    · have hvisit : (⟨start, slots start, output⟩ : Sweep).visit (last + 1) (slots (last + 1))
          = ⟨last + 1, slots (last + 1), output ++ Run.text ⟨start, last, slots start⟩⟩ :=
        Sweep.visit_of_ne hsame
      rw [if_neg hsame, hvisit, ih (last + 1) (last + 1), List.map_cons, String.join_cons,
        String.append_assoc]

section words
variable {bufferSize : Nat} (hword : bufferSize < 0x10000000000000000)
include hword

theorem visitChecked_of_le (sweep : Sweep) {size : Nat} (hle : size ≤ ChunkSize.greatest) :
    sweep.visitChecked bufferSize size
      = .ok (sweep.visit size (Slab.capacity size bufferSize)) := by
  unfold Sweep.visitChecked countChecked
  rw [if_pos hle, Slab.capacityChecked_eq hword]
  rfl

theorem foldlM_visitChecked {sizes : List Nat} (hle : ∀ size ∈ sizes, size ≤ ChunkSize.greatest)
    (sweep : Sweep) :
    sizes.foldlM (Sweep.visitChecked bufferSize) sweep
      = .ok (sizes.foldl (fun sweep size => sweep.visit size (Slab.capacity size bufferSize))
        sweep) := by
  induction sizes generalizing sweep with
  | nil => rfl
  | cons size sizes ih =>
    obtain ⟨hsize, hsizes⟩ := List.forall_mem_cons.mp hle
    rw [List.foldlM_cons, visitChecked_of_le hword sweep hsize, ok_bind, ih hsizes,
      List.foldl_cons]

/-- **The pass prints the listing**, and no sum or quotient in it fails. -/
theorem sweep_eq : sweep bufferSize = .ok (listing bufferSize) := by
  have hpos : ∀ size, 0 < Slab.capacity size bufferSize := fun size =>
    Nat.lt_of_lt_of_le (by decide) (Slab.capacity_mem_Icc size bufferSize).1
  have hsizes : ∀ size ∈ List.range' (ChunkSize.least + 1)
      (ChunkSize.greatest - ChunkSize.least), size ≤ ChunkSize.greatest := by
    intro size hsize
    obtain ⟨-, hlt⟩ := List.mem_range'_1.mp hsize
    have hlt : size < 1 + 1 + (1024 - 1) := hlt
    show size ≤ 1024
    omega
  -- the last size is visited with the count of zero
  have hrange : List.range' (ChunkSize.least + 1) ChunkSize.greatest
      = List.range' (ChunkSize.least + 1) (ChunkSize.greatest - ChunkSize.least)
        ++ [ChunkSize.greatest + 1] := List.range'_1_concat
  have hlast (swept : Sweep) : swept.visitChecked bufferSize (ChunkSize.greatest + 1)
      = .ok (swept.visit (ChunkSize.greatest + 1) 0) := by
    unfold Sweep.visitChecked countChecked
    rw [if_neg (by decide)]
    rfl
  unfold sweep
  rw [Slab.capacityChecked_eq hword, ok_bind]
  dsimp only
  rw [hrange, List.foldlM_append, foldlM_visitChecked hword hsizes, ok_bind, List.foldlM_cons,
    hlast, ok_bind, List.foldlM_nil]
  exact congrArg Except.ok (output_foldl_visit hpos (ChunkSize.greatest - ChunkSize.least)
    ChunkSize.least ChunkSize.least (row "chunk size" "slots"))

end words

/-! ### Reading the table -/

/-- A number in front of a text, with the text after it. -/
def number? (text : List Char) : Option (Nat × List Char) :=
  (Text.natOfDigits? 10 (text.takeWhile (Text.isDigit 10))).map
    (·, text.dropWhile (Text.isDigit 10))

/-- The text without the blanks in front. -/
def afterBlanks (text : List Char) : List Char := text.dropWhile (· == ' ')

/-- The run that a line of the table shows. -/
def Run.ofLine? (line : List Char) : Option Run := do
  let (first, rest) ← number? (afterBlanks line)
  let (last, rest) ← number? (← Toml.expect? ['.', '.', '='] rest)
  let (slots, rest) ← number? (afterBlanks rest)
  if rest.isEmpty then some ⟨first, last, slots⟩ else none

/-- The runs that a table shows, after the line with the names of the columns. -/
def runsOf? (table : String) : Option (List Run) :=
  (table.toList.splitOn '\n').tail.dropLast.mapM Run.ofLine?

theorem number?_append (n : Nat) {rest : List Char}
    (hrest : ∀ c ∈ rest.head?, Text.isDigit 10 c = false) :
    number? (Nat.toDigits 10 n ++ rest) = some (n, rest) := by
  have hdigits : ∀ c ∈ Nat.toDigits 10 n, Text.isDigit 10 c = true :=
    fun c => Text.isDigit_of_mem_toDigits
  have htake : rest.takeWhile (Text.isDigit 10) = [] := by
    cases rest with
    | nil => rfl
    | cons c rest => exact List.takeWhile_cons_of_neg (by simp [hrest c rfl])
  have hdrop : rest.dropWhile (Text.isDigit 10) = rest := by
    cases rest with
    | nil => rfl
    | cons c rest => exact List.dropWhile_cons_of_neg (by simp [hrest c rfl])
  unfold number?
  rw [List.takeWhile_append_of_pos hdigits, List.dropWhile_append_of_pos hdigits, htake, hdrop,
    List.append_nil, Text.natOfDigits?_toDigits]
  rfl

theorem afterBlanks_replicate (n : Nat) {rest : List Char} (hrest : ∀ c ∈ rest.head?, c ≠ ' ') :
    afterBlanks (List.replicate n ' ' ++ rest) = rest := by
  unfold afterBlanks
  rw [List.dropWhile_append_of_pos fun c hc => by rw [List.eq_of_mem_replicate hc]; rfl]
  cases rest with
  | nil => rfl
  | cons c rest => exact List.dropWhile_cons_of_neg (by simpa using hrest c rfl)

theorem head?_toDigits_append {n : Nat} {rest : List Char} {c : Char}
    (hc : c ∈ (Nat.toDigits 10 n ++ rest).head?) : Text.isDigit 10 c = true := by
  rw [List.head?_append_of_ne_nil _ Nat.toDigits_ne_nil] at hc
  exact Text.isDigit_of_mem_toDigits (List.mem_of_mem_head? hc)

/-- The line of the table that shows a run, without its end. -/
def Run.line (run : Run) : List Char :=
  List.replicate (12 - (toString run.first ++ "..=" ++ toString run.last).length) ' '
    ++ (Nat.toDigits 10 run.first ++ '.' :: '.' :: '=' :: (Nat.toDigits 10 run.last
      ++ (List.replicate (2 + (6 - (toString run.slots).length)) ' '
        ++ Nat.toDigits 10 run.slots)))

theorem Run.toList_text (run : Run) : run.text.toList = run.line ++ ['\n'] := by
  have hsep : "..=".toList = ['.', '.', '='] := rfl
  have hgap : "  ".toList = List.replicate 2 ' ' := rfl
  have hend : "\n".toList = ['\n'] := rfl
  unfold Run.text Run.line row alignRight
  simp only [String.toList_append, String.toList_ofList, Text.toList_toString, hsep, hgap, hend,
    List.replicate_add, List.append_assoc, List.cons_append, List.nil_append]

theorem Run.newline_not_mem_line (run : Run) : '\n' ∉ run.line := by
  have hdigits (n : Nat) : '\n' ∉ Nat.toDigits 10 n := fun hmem =>
    absurd (Text.isDigit_of_mem_toDigits hmem) (by decide)
  simp [Run.line, hdigits]

/-- **A line shows its run.** -/
theorem Run.ofLine?_line (run : Run) : Run.ofLine? run.line = some run := by
  have hblank {n : Nat} {rest : List Char} : ∀ c ∈ (Nat.toDigits 10 n ++ rest).head?, c ≠ ' ' := by
    rintro c hc rfl
    exact absurd (head?_toDigits_append hc) (by decide)
  have hslots : Nat.toDigits 10 run.slots = Nat.toDigits 10 run.slots ++ [] :=
    (List.append_nil _).symm
  unfold Run.ofLine? Run.line
  rw [afterBlanks_replicate _ hblank, number?_append run.first (by simp; decide)]
  simp only [Option.bind_eq_bind, Option.bind_some, Toml.expect?, if_true]
  rw [number?_append run.last (by rw [Nat.add_comm, List.replicate_succ]; simp; decide)]
  simp only [Option.bind_some]
  rw [hslots, afterBlanks_replicate _ hblank, number?_append run.slots (by simp)]
  rfl

/-- Lines with their ends are split into the lines. -/
theorem splitOn_lines {lines : List (List Char)} (h : ∀ line ∈ lines, '\n' ∉ line) :
    (lines.flatMap (· ++ ['\n'])).splitOn '\n' = lines ++ [[]] := by
  induction lines with
  | nil => rfl
  | cons line lines ih =>
    obtain ⟨hline, hlines⟩ := List.forall_mem_cons.mp h
    rw [List.flatMap_cons, List.append_assoc, List.singleton_append,
      List.splitOn_append_cons_self_of_not_mem hline, ih hlines, List.cons_append]

theorem mapM_ofLine?_line (runs : List Run) :
    (runs.map Run.line).mapM Run.ofLine? = some runs := by
  induction runs with
  | nil => rfl
  | cons run runs ih =>
    rw [List.map_cons, List.mapM_cons, Run.ofLine?_line, ih]
    rfl

/-- **The listing shows its runs.** -/
theorem runsOf?_listing (bufferSize : Nat) :
    runsOf? (listing bufferSize) = some (capacityRuns bufferSize) := by
  obtain ⟨heading, hheading, hmem⟩ : ∃ heading : List Char,
      (row "chunk size" "slots").toList = heading ++ ['\n'] ∧ '\n' ∉ heading :=
    ⟨"  chunk size   slots".toList, by decide, by decide⟩
  have hlines : (listing bufferSize).toList
      = (heading :: (capacityRuns bufferSize).map Run.line).flatMap (· ++ ['\n']) := by
    unfold listing
    rw [String.toList_append, hheading, String.toList_join, List.flatMap_cons, List.flatMap_map,
      List.flatMap_map]
    simp only [Run.toList_text]
  have hends : ∀ line ∈ heading :: (capacityRuns bufferSize).map Run.line, '\n' ∉ line := by
    refine List.forall_mem_cons.mpr ⟨hmem, fun line hline => ?_⟩
    obtain ⟨run, -, rfl⟩ := List.mem_map.mp hline
    exact run.newline_not_mem_line
  unfold runsOf?
  rw [hlines, splitOn_lines hends, List.cons_append, List.tail_cons, List.dropLast_concat,
    mapM_ofLine?_line]

/-! ### The listing -/

/-- The listing for a buffer size. -/
structure Tabulated (bufferSize : Nat) (runs : List Run) : Prop where
  /-- The command prints it, for a size that it is given -/
  given : ∀ settings given, given.value? "buffer-size" = some (toString bufferSize) →
    perform settings given .slotCounts = .success (listing bufferSize)
  /-- and for the size of the settings. -/
  configured : ∀ settings given, given.value? "buffer-size" = none →
    settings.slabBufferSize = bufferSize →
    perform settings given .slotCounts = .success (listing bufferSize)
  swept : sweep bufferSize = .ok (listing bufferSize)
  /-- It shows the runs, -/
  shown : runsOf? (listing bufferSize) = some runs
  /-- which split the chunk sizes by their numbers of slots. -/
  splits : Splits (Slab.capacity · bufferSize) 1 1024 runs

/-- **The listing splits the chunk sizes into runs of one count each**, whatever the buffer size. -/
theorem tabulated_capacityRuns {bufferSize : Nat} (hword : bufferSize < 0x10000000000000000) :
    Tabulated bufferSize (capacityRuns bufferSize) where
  given settings given hvalue := by
    have hread :
        Text.unsigned? Text.greatestWord (toString bufferSize).toList = some bufferSize := by
      rw [Text.toList_toString]
      exact Text.unsigned?_of_natOfDigits? (Text.natOfDigits?_toDigits bufferSize)
        (Nat.le_of_lt_succ hword)
    unfold perform countOf?
    rw [hvalue, Option.bind_some, hread]
    rfl
  configured settings given hvalue hsize := by
    unfold perform countOf?
    rw [hvalue, ← hsize]
    rfl
  swept := sweep_eq hword
  shown := runsOf?_listing bufferSize
  splits := splits_runsFrom (Slab.capacity_antitone bufferSize)
    (ChunkSize.greatest - ChunkSize.least) (Nat.le_refl ChunkSize.least)
    fun size hfirst hlast => by rw [Nat.le_antisymm hlast hfirst]

theorem tabulated_forty : 40 < 0x10000000000000000 ∧ Tabulated 40
    [⟨1, 1, 40⟩, ⟨2, 2, 20⟩, ⟨3, 3, 13⟩, ⟨4, 4, 10⟩, ⟨5, 5, 8⟩, ⟨6, 6, 6⟩, ⟨7, 8, 5⟩,
      ⟨9, 1024, 4⟩] := by
  have hruns : capacityRuns 40 = [⟨1, 1, 40⟩, ⟨2, 2, 20⟩, ⟨3, 3, 13⟩, ⟨4, 4, 10⟩, ⟨5, 5, 8⟩,
      ⟨6, 6, 6⟩, ⟨7, 8, 5⟩, ⟨9, 1024, 4⟩] := by decide +kernel
  have hword : 40 < 0x10000000000000000 := by decide
  exact ⟨hword, hruns ▸ tabulated_capacityRuns hword⟩

end HandleHeap.CommandLine
