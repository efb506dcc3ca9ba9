import HandleHeap.Text.Digits

/-!
# Arguments

How a list of words is read as a command with options.  There are two levels: the tool itself and
the command it is told to run.  Each level has its own options beside the common ones, and reads
words from left to right until the command's name hands over to the next level.

* `Level.scan`: reads the words of one level;
* `readArguments`: reads all words and says what is to be done.

An option that takes a value finds it after an equals sign or in the next word; a word that looks
like an option is no value.  An option may stand only once on a level.
-/

namespace HandleHeap.CommandLine

/-- The tool itself, and the commands it has. -/
inductive Level where
  | tool
  | decode
  | slotCounts
  | stress
  | config
  | version
deriving DecidableEq, Repr

/-- What an option's value has to be. -/
inductive Form where
  /-- A path, which is not empty. -/
  | path
  | text
  /-- A number without sign that fits a 64-bit word. -/
  | count
  /-- A number that fits a signed 64-bit word. -/
  | integer
deriving DecidableEq, Repr

/-- What an option does. -/
inductive Effect where
  /-- It has a value. -/
  | value (kind : Form)
  /-- It is set by its presence. -/
  | flag
  /-- It asks for an explanation instead of a run. -/
  | help
  /-- It asks for the version instead of a run. -/
  | version
deriving DecidableEq, Repr

/-- An option: its name, its letter if it has one, and what it does. -/
structure Choice where
  /-- The name after two dashes. -/
  name : String
  /-- The letter after one dash. -/
  letter : Option Char
  /-- What it does. -/
  effect : Effect
deriving DecidableEq, Repr

/-- Why the words are not a run of a command. -/
inductive Stop where
  /-- They do not fit together. -/
  | misuse
  /-- They ask for an explanation. -/
  | help
  /-- They ask for the version. -/
  | version
deriving DecidableEq, Repr

namespace Form

/-- Whether a word is a value of a kind. -/
def accepts (word : String) : Form → Bool
  | path => !word.isEmpty
  | text => true
  | count => (Text.unsigned? Text.greatestWord word.toList).isSome
  | integer => (Text.signed? word.toList).isSome

end Form

namespace Level

/-- The options of every level. -/
def common : List Choice :=
  [⟨"config", none, .value .path⟩, ⟨"log-dir", none, .value .path⟩,
    ⟨"log-level", none, .value .text⟩, ⟨"no-color", none, .flag⟩, ⟨"help", some 'h', .help⟩]

/-- The options of a level. -/
def choices : Level → List Choice
  | tool => common ++ [⟨"version", some 'V', .version⟩]
  | slotCounts => common ++ [⟨"buffer-size", none, .value .count⟩]
  | stress => common ++ [⟨"size", some 's', .value .integer⟩, ⟨"count", some 'c', .value .count⟩,
      ⟨"keep", none, .flag⟩]
  | decode | config | version => common

/-- The command of a name. -/
def ofName? : String → Option Level
  | "decode" => some decode
  | "slot-counts" => some slotCounts
  | "stress" => some stress
  | "config" => some config
  | "version" => some version
  | _ => none

/-- The option of a name. -/
def named? (level : Level) (name : String) : Option Choice :=
  level.choices.find? (·.name == name)

/-- The option of a letter. -/
def lettered? (level : Level) (letter : Char) : Option Choice :=
  level.choices.find? (·.letter == some letter)

end Level

/-- What has been read on one level. -/
structure Given where
  /-- Options and their values; flags have an empty one. -/
  options : List (String × String) := []
  /-- The word that is not an option, where the level takes one. -/
  operand : Option String := none
  /-- An option that waits for its value. -/
  pending : Option Choice := none
  /-- Whether two dashes have ended the options. -/
  ended : Bool := false
deriving Repr

namespace Given

/-- The value of an option. -/
def value? (given : Given) (name : String) : Option String := given.options.lookup name

/-- Whether an option stands among the words. -/
def has (given : Given) (name : String) : Bool := (given.value? name).isSome

/-- Notes an option that does not stand there yet. -/
def note (given : Given) (choice : Choice) (value : String) : Except Stop Given :=
  if given.has choice.name then .error .misuse
  else .ok { given with options := (choice.name, value) :: given.options, pending := none }

/-- Gives an option its value. -/
def assign (given : Given) (choice : Choice) (word : String) : Except Stop Given :=
  match choice.effect with
  | .value kind => if kind.accepts word then given.note choice word else .error .misuse
  | _ => .error .misuse

/-- Meets an option without a value of its own. -/
def meet (given : Given) (choice : Choice) : Except Stop Given :=
  match choice.effect with
  | .value _ => .ok { given with pending := some choice }
  | .flag => given.note choice ""
  | .help => .error .help
  | .version => .error .version

/-- Takes the word that is not an option. -/
def operate (given : Given) (level : Level) (word : String) : Except Stop Given :=
  if level = .decode ∧ given.operand.isNone ∧ Form.integer.accepts word then
    .ok { given with operand := some word }
  else .error .misuse

/-- Whether the level still waits for a word that may start with a dash. -/
def takesDashes (given : Given) (level : Level) : Bool :=
  level == .decode && given.operand.isNone

end Given

/-- The shape of a word. -/
inductive Word where
  /-- Two dashes alone. -/
  | separator
  /-- A name after two dashes, with what follows an equals sign. -/
  | long (name : String) (value : Option String)
  /-- Letters after one dash. -/
  | short (letters : List Char)
  /-- Anything else. -/
  | plain
deriving DecidableEq, Repr

/-- The shape of a word. -/
def Word.of (word : String) : Word :=
  match word.toList with
  | ['-', '-'] => separator
  | '-' :: '-' :: rest =>
    match rest.dropWhile (· ≠ '=') with
    | '=' :: value => long (String.ofList (rest.takeWhile (· ≠ '='))) (some (String.ofList value))
    | _ => long (String.ofList rest) none
  | '-' :: c :: rest => short (c :: rest)
  | _ => plain

namespace Level

/-- Whether a word starts with a dash without being an option of the level. -/
def isForeign (level : Level) : Word → Bool
  | .long name _ => (level.named? name).isNone
  | .short letters => letters.any fun letter => (level.lettered? letter).isNone
  | _ => false

/-- Reads letters after one dash.  What follows the letter of an option with a value is the value,
without an equals sign in front. -/
def readLetters (level : Level) (given : Given) : List Char → Except Stop Given
  | [] => .ok given
  | letter :: rest =>
    match level.lettered? letter with
    | none => .error .misuse
    | some choice =>
      match choice.effect with
      | .value _ =>
        match rest with
        | [] => given.meet choice
        | '=' :: value => given.assign choice (String.ofList value)
        | value => given.assign choice (String.ofList value)
      | _ =>
        match given.meet choice with
        | .error stop => .error stop
        | .ok given => readLetters level given rest

/-- Reads a word that is an option of the level or nothing else. -/
def readOption (level : Level) (given : Given) : Word → Except Stop Given
  | .long name value =>
    match level.named? name, value with
    | none, _ => .error .misuse
    | some choice, some value => given.assign choice value
    | some choice, none => given.meet choice
  | .short letters => level.readLetters given letters
  | _ => .error .misuse

/-- Reads the words of one level.  The command and the words after it are left to the next. -/
def scan (level : Level) (given : Given) :
    List String → Except Stop (Given × Option (Level × List String))
  | [] => if given.pending.isSome then .error .misuse else .ok (given, none)
  | word :: rest =>
    let dashed := given.takesDashes level && level.isForeign (Word.of word)
    if given.ended then do
      if given.pending.isSome then throw .misuse
      scan level (← given.operate level word) rest
    else match Word.of word, given.pending with
      | .separator, _ => scan level { given with ended := true } rest
      | .plain, some choice => do scan level (← given.assign choice word) rest
      | .plain, none =>
        match level, Level.ofName? word with
        | .tool, some command => .ok (given, some (command, rest))
        | .tool, none => .error (if word = "help" then .help else .misuse)
        | _, _ => do scan level (← given.operate level word) rest
      | _, some choice => do
        if dashed then scan level (← given.assign choice word) rest else throw .misuse
      | shape, none => do
        if dashed then scan level (← given.operate level word) rest
        else scan level (← level.readOption given shape) rest

end Level

/-- A run: the settings file, if one is named, and the command with its own words. -/
structure Request where
  /-- The path of the settings file. -/
  settingsPath : Option String
  /-- The command. -/
  command : Level
  /-- What was read after the command. -/
  given : Given
deriving Repr

/-- The options that a variable stands in for where the words leave them out. -/
def standIns : List (String × String) :=
  [("config", "PHOTONMEM_CONFIG"), ("log-dir", "PHOTONMEM_LOG_DIR"), ("log-level", "RUST_LOG")]

/-- Whether the variables that stand in on a level have values that the options accept. -/
def variablesFit (level : Level) (environment : List (String × String)) (given : Given) : Bool :=
  standIns.all fun (option, name) =>
    given.has option ||
      match level.named? option, environment.lookup name with
      | some ⟨_, _, .value kind⟩, some value => kind.accepts value
      | _, _ => true

/-- What the words ask for.  A common option after the command goes before one in front of it, and
both before a variable. -/
def readArguments (environment : List (String × String)) (words : List String) :
    Except Stop Request := do
  match ← Level.tool.scan {} words with
  | (_, none) => throw .misuse
  | (outer, some (command, rest)) =>
    let (inner, _) ← command.scan {} rest
    if command = .decode ∧ inner.operand.isNone then throw .misuse
    if ¬ (variablesFit command environment inner && variablesFit .tool environment outer) then
      throw .misuse
    return {
      settingsPath := inner.value? "config" <|> outer.value? "config"
        <|> environment.lookup "PHOTONMEM_CONFIG"
      command := command
      given := inner }

end HandleHeap.CommandLine
