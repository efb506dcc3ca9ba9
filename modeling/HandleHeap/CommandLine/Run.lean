import HandleHeap.CommandLine.Arguments
import HandleHeap.CommandLine.Listing
import HandleHeap.CommandLine.Stress
import HandleHeap.Settings.Layers

/-!
# Runs of the tool

What the tool prints and how it ends, as a function of its words, its environment and the files it
can read.

* `run`: the outcome of a run.  The settings are loaded before every command, also before those that
  do not need them.
-/

namespace HandleHeap.CommandLine

/-- How a run ends. -/
structure Outcome where
  /-- The exit code: 0 for success, 1 for a failure, 2 for words that do not fit together. -/
  code : Nat
  /-- What was printed. -/
  output : String
  /-- The failure and its cause. -/
  errors : List String
deriving DecidableEq, Repr

namespace Outcome

/-- A run that printed a text. -/
def success (output : String) : Outcome := ⟨0, output, []⟩

/-- A run that failed. -/
def failure (errors : List String) : Outcome := ⟨1, "", errors⟩

/-- A run that did not start. -/
def misuse : Outcome := ⟨2, "", []⟩

end Outcome

/-- The version of the tool. -/
def versionText : String := "3.0.0-alpha"

/-- The words that the tool understands. -/
def helpText : String :=
  "photonmem [--config PATH] COMMAND\n\n"
    ++ "  decode HANDLE\n  slot-counts [--buffer-size SIZE]\n"
    ++ "  stress [--size SIZE] [--count COUNT] [--keep]\n  config\n  version\n"

/-- Prints the parts of a handle. -/
def decodeOutcome (number : Int) : Outcome :=
  match Address.ofHandle (Int64.ofInt number) with
  | .ok address => .success (address.text ++ "\n")
  | .error e => .failure [s!"Cannot decode {number}", e.message]

/-- Prints the usage after a stress run. -/
def stressOutcome (settings : Settings) (size : Int) (count : Nat) (keep : Bool) : Outcome :=
  match stressUsage settings size count keep with
  | .ok usage => .success (usage.text ++ "\n")
  | .error e => .failure [e.message]

/-- An option's number without sign. -/
def countOf? (given : Given) (name : String) : Option Nat :=
  (given.value? name).bind fun word => Text.unsigned? Text.greatestWord word.toList

/-- An option's number. -/
def integerOf? (given : Given) (name : String) : Option Int :=
  (given.value? name).bind fun word => Text.signed? word.toList

/-- Runs a command under loaded settings. -/
def perform (settings : Settings) (given : Given) : Level → Outcome
  | .tool => .misuse
  | .decode => decodeOutcome ((given.operand.bind fun word => Text.signed? word.toList).getD 0)
  | .slotCounts =>
    .success (listing ((countOf? given "buffer-size").getD settings.slabBufferSize))
  | .stress =>
    stressOutcome settings ((integerOf? given "size").getD 64)
      ((countOf? given "count").getD 10000) (given.has "keep")
  | .config => match settings.text? with
    | .ok text => .success text
    | .error e => .failure [e.message]
  | .version => .success ("PhotonDB Memory " ++ versionText ++ "\n")

/-- The outcome of a run.  `file` gives what a path holds. -/
def run (file : String → Settings.File) (environment : List (String × String))
    (words : List String) : Outcome :=
  match readArguments environment words with
  | .error .misuse => .misuse
  | .error .help => .success helpText
  | .error .version => .success ("photonmem " ++ versionText ++ "\n")
  | .ok request =>
    let source := (request.settingsPath.map file).getD .absent
    match Settings.load source environment with
    | .error e => .failure ["Failed to load configuration", e.message]
    | .ok settings => perform settings request.given request.command

end HandleHeap.CommandLine
