import WireSchema.CommandLine.Arguments
import WireSchema.Files.Operations

/-!
# Running a command

A command reads and writes files on a disk and prints one line. Arguments that are
no command end with status 2, a command that fails with status 1.
-/

namespace WireSchema.CommandLine

open Files

structure Outcome where
  status : Nat
  stdout : String
  warnings : List Warning
  fault : Option Fault

variable {m : Type → Type} [Monad m]

def strictnessOf (strict : Bool) : Strictness :=
  if strict then .strict else .lenient

def extract (disk : Disk m) (arguments : ExtractArguments) : Job m String := do
  let options : Extraction.Options :=
    { provider := arguments.provider, fallbackCase := arguments.fallbackCase
      strictness := strictnessOf arguments.strict }
  let schema ← extractDirectory disk arguments.input "swift" options
  writeSchema disk arguments.output schema
  return "Extracted " ++ Number.decimal schema.types.size ++ " types → " ++ arguments.output ++ "\n"

def generate (disk : Disk m) (arguments : GenerateArguments) : Job m String := do
  match Generation.Language.ofName? arguments.language with
  | none => Job.ofLogged (.fail (.unsupportedLanguage arguments.language))
  | some language =>
    let schema ← readSchema disk arguments.input (strictnessOf arguments.strict)
    let written ← generateInto disk schema language arguments.lead arguments.output
    return "Generated " ++ Number.decimal written.length ++ " files → " ++ arguments.output ++ "\n"

def execute (disk : Disk m) : Command → Job m String
  | .extract arguments => extract disk arguments
  | .generate arguments => generate disk arguments

def usage : String :=
  "Usage: wirekit <COMMAND>\n\nCommands:\n" ++
    "  extract   Walk a directory of Swift sources and write the schema document\n" ++
    "  generate  Generate source files from a schema document\n"

def run (disk : Disk m) (arguments : List String) : m Outcome := do
  match readCommand arguments with
  | .error .help => return ⟨0, usage, [], none⟩
  | .error .invalid => return ⟨2, "", [], none⟩
  | .ok command =>
    let logged ← (execute disk command).run
    match logged.result with
    | .ok line => return ⟨0, line, logged.log, none⟩
    | .error fault => return ⟨1, "", logged.log, some fault⟩

end WireSchema.CommandLine
