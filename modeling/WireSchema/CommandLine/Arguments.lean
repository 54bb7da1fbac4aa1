import WireSchema.Schema.Basic

/-!
# Arguments of the command line

The first argument names a command, the others are its options. An option is given
once, as `--name value` or `--name=value`, or by its letter: letters may be run
together, and a value may follow its letter directly.
-/

namespace WireSchema.CommandLine

inductive Misuse where
  /-- They ask how to use the program. -/
  | help
  | invalid
deriving DecidableEq, Repr

inductive ValueKind where
  /-- The option is given or not. -/
  | flag
  | text
  /-- A text that is not empty. -/
  | path
deriving DecidableEq, Repr

structure OptionSpec where
  name : String
  letter : Option Char
  kind : ValueKind
deriving DecidableEq, Repr

/-- An option as given, with its value; that of a flag is empty. -/
structure Given where
  name : String
  value : String
deriving DecidableEq, Repr

def isOptionLike (argument : String) : Bool :=
  argument.startsWith "-" && argument != "-"

/-- Adds an option with its value to those given so far. It must not be one of them, and a
path must not be empty. -/
def record (given : List Given) (spec : OptionSpec) (value : String) :
    Except Misuse (List Given) :=
  if given.any (·.name == spec.name) || (spec.kind = .path && value.isEmpty) then .error .invalid
  else .ok (given ++ [⟨spec.name, value⟩])

def nextValue (rest : List String) : Except Misuse (String × List String) :=
  match rest with
  | [] => .error .invalid
  | value :: rest => if isOptionLike value then .error .invalid else .ok (value, rest)

def splitLong (argument : List Char) : String × Option String :=
  let name := argument.takeWhile (· != '=')
  match argument.dropWhile (· != '=') with
  | [] => (String.ofList name, none)
  | _ :: value => (String.ofList name, some (String.ofList value))

/-- The options given so far, and the arguments that are still to be read. -/
abbrev Reading := List Given × List String

def readLong (specs : List OptionSpec) (given : List Given) (argument : List Char)
    (rest : List String) : Except Misuse Reading :=
  let (name, value?) := splitLong argument
  match specs.find? (·.name == name), value? with
  | none, none => .error (if name = "help" then .help else .invalid)
  | none, some _ => .error .invalid
  | some spec, some value =>
    if spec.kind = .flag then .error .invalid
    else do return (← record given spec value, rest)
  | some spec, none =>
    if spec.kind = .flag then do return (← record given spec "", rest)
    else do
      let (value, rest) ← nextValue rest
      return (← record given spec value, rest)

def readLetters (specs : List OptionSpec) (given : List Given) (rest : List String) :
    List Char → Except Misuse Reading
  | [] => .ok (given, rest)
  | letter :: later =>
    match specs.find? (·.letter == some letter) with
    | none => .error (if letter = 'h' then .help else .invalid)
    | some spec =>
      match spec.kind, later with
      | .flag, _ => do readLetters specs (← record given spec "") rest later
      | _, [] => do
        let (value, rest) ← nextValue rest
        return (← record given spec value, rest)
      | _, '=' :: value => do return (← record given spec (String.ofList value), rest)
      | _, value => do return (← record given spec (String.ofList value), rest)

/-- Reads one argument that must be an option. Two hyphens alone may stand at the end. -/
def readOption (specs : List OptionSpec) (given : List Given) (argument : String)
    (rest : List String) : Except Misuse Reading :=
  match argument.toList with
  | ['-', '-'] => if rest.isEmpty then .ok (given, []) else .error .invalid
  | '-' :: '-' :: name => readLong specs given name rest
  | '-' :: letter :: letters => readLetters specs given rest (letter :: letters)
  | _ => .error .invalid

/-- Reads all options; `fuel` bounds their number. -/
def readOptionsWith (specs : List OptionSpec) :
    Nat → List Given → List String → Except Misuse (List Given)
  | _, given, [] => .ok given
  | 0, _, _ :: _ => .error .invalid
  | fuel + 1, given, argument :: rest => do
    let (given, rest) ← readOption specs given argument rest
    readOptionsWith specs fuel given rest

/-- Reads all options. Each argument is the start of one at most. -/
def readOptions (specs : List OptionSpec) (arguments : List String) :
    Except Misuse (List Given) :=
  readOptionsWith specs arguments.length [] arguments

/-! ## Commands -/

structure ExtractArguments where
  input : String
  output : String
  provider : String
  fallbackCase : String
  strict : Bool
deriving DecidableEq, Repr

structure GenerateArguments where
  input : String
  output : String
  language : String
  lead : String
  strict : Bool
deriving DecidableEq, Repr

inductive Command where
  | extract (arguments : ExtractArguments)
  | generate (arguments : GenerateArguments)
deriving DecidableEq, Repr

def extractSpecs : List OptionSpec :=
  [⟨"input", some 'i', .path⟩, ⟨"output", some 'o', .path⟩, ⟨"provider", some 'p', .text⟩,
    ⟨"fallback-case", none, .text⟩, ⟨"strict", none, .flag⟩, ⟨"verbose", some 'v', .flag⟩]

def generateSpecs : List OptionSpec :=
  [⟨"input", some 'i', .path⟩, ⟨"output", some 'o', .path⟩, ⟨"language", some 'l', .text⟩,
    ⟨"prefix", none, .text⟩, ⟨"strict", none, .flag⟩, ⟨"verbose", some 'v', .flag⟩]

def valueOf? (given : List Given) (name : String) : Option String :=
  (given.find? (·.name == name)).map Given.value

def requireValue (given : List Given) (name : String) : Except Misuse String :=
  match valueOf? given name with
  | some value => .ok value
  | none => .error .invalid

def readExtract (arguments : List String) : Except Misuse Command := do
  let given ← readOptions extractSpecs arguments
  let input ← requireValue given "input"
  let output ← requireValue given "output"
  let provider := (valueOf? given "provider").getD ""
  let fallbackCase := (valueOf? given "fallback-case").getD defaultFallbackCase
  return .extract ⟨input, output, provider, fallbackCase, (valueOf? given "strict").isSome⟩

def readGenerate (arguments : List String) : Except Misuse Command := do
  let given ← readOptions generateSpecs arguments
  let input ← requireValue given "input"
  let output ← requireValue given "output"
  let language := (valueOf? given "language").getD "swift"
  let lead := (valueOf? given "prefix").getD ""
  return .generate ⟨input, output, language, lead, (valueOf? given "strict").isSome⟩

/-- May help be asked for about these arguments? -/
def isHelpTopic : List String → Bool
  | [] => true
  | [topic] => ["extract", "generate", "help"].contains topic
  | _ => false

def readCommand : List String → Except Misuse Command
  | "extract" :: arguments => readExtract arguments
  | "generate" :: arguments => readGenerate arguments
  | "help" :: topics => .error (if isHelpTopic topics then .help else .invalid)
  | argument :: _ =>
    .error (if argument = "--help" || argument.startsWith "-h" then .help else .invalid)
  | [] => .error .invalid

end WireSchema.CommandLine
