import WireSchema.Files.Disk
import WireSchema.Files.Path

/-!
# Walking a tree of folders

A walk visits everything below a root and follows links. A link to a folder that it
stands in is not followed, so the walk ends. What cannot be visited is reported in
its place.
-/

namespace WireSchema.Files

/-- A file, with the parts of its path below the root of the walk. -/
structure Found where
  path : String
  below : List String
deriving DecidableEq, Repr

inductive Visit where
  | file (found : Found)
  | failed (below : List String) (error : VisitError)
deriving DecidableEq, Repr

/-- A folder on the way from the root to the place being visited. -/
structure Ancestor where
  identity : String
  path : String

/-- The ancestor that a link to a folder leads back to. -/
def loopTo? (linked : Bool) (ancestors : List Ancestor) (identity : String) : Option Ancestor :=
  if linked then ancestors.find? fun ancestor => ancestor.identity == identity else none

/-- Visits a path and everything below it. The nearest of the `ancestors` comes first; `depth`
bounds how far down the walk may go. -/
def visit {m : Type → Type} [Monad m] (disk : Disk m) :
    Nat → List Ancestor → Found → m (List Visit)
  | 0, _, _ => return []
  | depth + 1, ancestors, place => do
    let linked ← disk.isLink place.path
    match ← disk.look place.path with
    | .error error => return [.failed place.below (.io place.path error)]
    | .ok .other => return []
    | .ok .file => return [.file place]
    | .ok (.folder identity) =>
      match loopTo? linked ancestors identity with
      | some ancestor => return [.failed place.below (.loop place.path ancestor.path)]
      | none =>
        match ← disk.names place.path with
        | .error error => return [.failed place.below (.io place.path error)]
        | .ok names =>
          let visits ← names.mapM fun name =>
            visit disk depth (⟨identity, place.path⟩ :: ancestors)
              ⟨join place.path name, place.below ++ [name]⟩
          return visits.flatten

def walk {m : Type → Type} [Monad m] (disk : Disk m) (root : String) : m (List Visit) := do
  visit disk (← disk.maxDepth) [] ⟨root, []⟩

/-! ## Source files -/

def rootError? (visits : List Visit) : Option VisitError :=
  visits.findSome? fun visit =>
    match visit with
    | .failed [] error => some error
    | _ => none

def visitErrors (visits : List Visit) : List VisitError :=
  visits.filterMap fun visit =>
    match visit with
    | .failed _ error => some error
    | .file _ => none

def foundFiles (visits : List Visit) : List Found :=
  visits.filterMap fun visit =>
    match visit with
    | .file found => some found
    | .failed .. => none

def sourceFiles (extension : String) (visits : List Visit) : List Found :=
  ((foundFiles visits).filter fun found => extension? (fileName found.path) == some extension).mergeSort
    fun a b => isBefore a.below b.below

end WireSchema.Files
