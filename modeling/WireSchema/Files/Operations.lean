import WireSchema.Document.Reader
import WireSchema.Document.Writer
import WireSchema.Extraction.Extractor
import WireSchema.Files.Walk
import WireSchema.Generation.Generate

/-!
# Operations on files

Extracting a schema from all sources below a folder, keeping schemas as documents,
and writing generated code. What is done with the contents of files is pure; only
walking, reading and writing use the disk.
-/

namespace WireSchema.Files

/-! ## Extraction -/

def parseSource (contents : Except IoError ByteArray) : Except SourceError (List Swift.Decl) :=
  match contents with
  | .error error => .error (.access (.io error))
  | .ok bytes =>
    match String.fromUTF8? bytes with
    | none => .error (.access .notText)
    | some text => (Swift.parse text).mapError .parse

/-- The sources that can be read, in their order; a warning for each of the others. -/
def keepSources :
    List (String × Except SourceError (List Swift.Decl)) →
      Logged Warning Fault (List (List Swift.Decl))
  | [] => return []
  | (path, parsed) :: later =>
    match parsed with
    | .ok decls => do return decls :: (← keepSources later)
    | .error error => do
      Logged.warn (.skippedFile path error)
      keepSources later

def extractSources (options : Extraction.Options)
    (parsed : List (String × Except SourceError (List Swift.Decl))) :
    Logged Warning Fault Schema := do
  let sources ← keepSources parsed
  ((Extraction.extract options sources).mapLog .extraction).mapError .extraction

variable {m : Type → Type} [Monad m]

/-- The files below a root with the extension; a warning for each place that cannot be
visited. The root itself must be one that can. -/
def findSources (disk : Disk m) (root extension : String) : Job m (List Found) := do
  let visits ← Job.lift (walk disk root)
  match rootError? visits with
  | some error => Job.ofLogged (.fail (.visit error))
  | none => Job.ofLogged ⟨(visitErrors visits).map .skippedPlace, .ok (sourceFiles extension visits)⟩

def readSource (disk : Disk m) (found : Found) :
    m (String × Except SourceError (List Swift.Decl)) := do
  return (found.path, parseSource (← disk.read found.path))

/-- The schema of all sources below a root, which are read and parsed side by side. -/
def extractDirectory (disk : Disk m) (root extension : String) (options : Extraction.Options) :
    Job m Schema := do
  let sources ← findSources disk root extension
  let parsed ← Job.lift (runTasks disk (readSource disk) sources)
  Job.ofLogged (extractSources options parsed)

/-! ## Documents -/

def writeSchema (disk : Disk m) (path : String) (schema : Schema) : Job m Unit := do
  match parent? path with
  | some folder => Job.access (disk.createFolders folder)
  | none => pure ()
  Job.access (disk.write path (Document.emit schema).toUTF8)

def parseDocument (strictness : Strictness) (bytes : ByteArray) : Logged Warning Fault Schema :=
  match String.fromUTF8? bytes with
  | none => .fail (.access .notText)
  | some text => ((Document.parse strictness text).mapLog .document).mapError .document

def readSchema (disk : Disk m) (path : String) (strictness : Strictness) : Job m Schema := do
  let bytes ← Job.access (disk.read path)
  Job.ofLogged (parseDocument strictness bytes)

/-! ## Generated code -/

def ofGeneration : Generation.Fault → Fault
  | .violation violation => .violation violation
  | .invalidType fault => .invalidType fault

def writeFiles (disk : Disk m) (folder : String) :
    List Generation.GeneratedFile → Job m (List String)
  | [] => return []
  | file :: later => do
    let path := join folder file.fileName
    Job.access (disk.write path file.content.toUTF8)
    return path :: (← writeFiles disk folder later)

/-- Generates code into a folder. Nothing is created if the schema is not fit for it. -/
def generateInto (disk : Disk m) (schema : Schema) (language : Generation.Language)
    (lead folder : String) : Job m (List String) := do
  let generated := (Generation.generate schema language lead).mapError ofGeneration
  let files ← Job.ofLogged (.ofExcept generated)
  Job.access (disk.createFolders folder)
  writeFiles disk folder files

end WireSchema.Files
