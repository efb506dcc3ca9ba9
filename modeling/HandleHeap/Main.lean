import HandleHeap.CommandLine.Run

/-!
# The tool

Reads the process's words, environment and settings file, and prints the outcome of the run.
-/

open HandleHeap

/-- The environment of the process as names and values. -/
def readEnvironment : IO (List (String × String)) := do
  let text ← try IO.FS.readFile "/proc/self/environ" catch _ => pure ""
  return (text.splitOn "\x00").filterMap fun entry =>
    match entry.splitOn "=" with
    | name :: value :: rest => some (name, "=".intercalate (value :: rest))
    | _ => none

/-- What a path holds. -/
def readSettings (path : String) : IO Settings.File := do
  try
    return .holding (← IO.FS.readFile path)
  catch _ =>
    return .missing

/-- Runs the tool and gives its exit code. -/
def main (words : List String) : IO UInt32 := do
  let environment ← readEnvironment
  let path := match CommandLine.readArguments environment words with
    | .ok request => request.settingsPath
    | .error _ => none
  let file ← match path with
    | some path => readSettings path
    | none => pure .absent
  let outcome := CommandLine.run (fun _ => file) environment words
  IO.print outcome.output
  match outcome.errors with
  | [] => pure ()
  | first :: causes =>
    IO.eprintln ("Error: " ++ first)
    for cause in causes do
      IO.eprintln ("\nCaused by:\n    " ++ cause)
  return outcome.code.toUInt32
