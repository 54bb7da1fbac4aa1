import WireSchema.CommandLine.Run

/-!
# The program

The system's own files as a disk, and the program that runs on them. Everything it
decides is decided elsewhere; here operations are only carried out and lines
printed.
-/

namespace WireSchema

open Files

def ioErrorOf : IO.Error → IoError
  | .noFileOrDirectory .. => .notFound
  | .alreadyExists .. => .exists_
  | .inappropriateType _ 20 _ => .notFolder
  | .inappropriateType _ 21 _ => .isFolder
  | error => .other error.toString

def attempt {α : Type} (action : IO α) : IO (Except IoError α) := do
  match ← action.toBaseIO with
  | .ok a => return .ok a
  | .error error => return .error (ioErrorOf error)

/-- What stands at a path. A folder is known by its path without links. -/
def lookAt (path : String) : IO Standing := do
  let real ← IO.FS.realPath path
  match (← real.metadata).type with
  | .file => return .file
  | .dir => return .folder real.toString
  | _ => return .other

def isLinkAt (path : String) : IO Bool := do
  let folder ← IO.FS.realPath ((parent? path).getD ".")
  let entry := folder / fileName path
  return (← entry.symlinkMetadata).type == .symlink

def namesAt (path : String) : IO (List String) := do
  let real ← IO.FS.realPath path
  return (← real.readDir).toList.map (·.fileName)

/-- The longest path the system takes has no more parts than this. -/
def longestPath : Nat := 4096

def systemDisk : Disk IO where
  look path := attempt (lookAt path)
  isLink path := do return ((← attempt (isLinkAt path)).toOption).getD false
  names path := attempt (namesAt path)
  read path := attempt (IO.FS.readBinFile path)
  write path contents := attempt (IO.FS.writeBinFile path contents)
  createFolders path := attempt (IO.FS.createDirAll path)
  maxDepth := return longestPath
  schedule count := return .inOrder count

def reportLine (fault : Fault) : String :=
  "Error: " ++ fault.message?.getD "the document is not YAML"

end WireSchema

open WireSchema in
def main (arguments : List String) : IO UInt32 := do
  let outcome ← CommandLine.run systemDisk arguments
  for warning in outcome.warnings do
    IO.eprintln ("Warning: " ++ warning.message)
  if let some fault := outcome.fault then
    IO.eprintln (reportLine fault)
  IO.print outcome.stdout
  return outcome.status.toUInt32
