import WireSchema.Files.Disk
import WireSchema.Files.Path

/-!
# A tree of files as a value

A tree holds files, folders and links under their places: the names that lead down
to them from the root, through folders only. Paths are resolved as the system does
it: part by part, a link replaced by its target, and so many links at most. What
lies outside of the tree is not there.
-/

namespace WireSchema.Files

/-- The names that lead from the root to an item. -/
abbrev Place := List String

inductive Item where
  | file (contents : ByteArray)
  | folder
  | link (target : String)

/-- The items of a tree under their places; the root is a folder without being listed. -/
structure Tree where
  items : List (Place × Item)

namespace Tree

def empty : Tree := ⟨[]⟩

def item? (tree : Tree) (place : Place) : Option Item :=
  if place.isEmpty then some .folder
  else (tree.items.find? fun entry => entry.1 == place).map Prod.snd

def put (tree : Tree) (place : Place) (item : Item) : Tree :=
  ⟨(tree.items.filter fun entry => entry.1 != place) ++ [(place, item)]⟩

def namesIn (tree : Tree) (place : Place) : List String :=
  tree.items.filterMap fun entry =>
    if entry.1.dropLast == place then entry.1.getLast? else none

/-! ## Paths -/

def linkLimit : Nat := 40

/-- How far a path leads: to its end, or to a link with parts of the path left. -/
inductive Progress where
  | arrived (place : Place)
  | link (folder : Place) (target : String) (rest : List String)
  | refused (error : IoError)

def parentPlace? (place : Place) : Option Place :=
  if place.isEmpty then none else some place.dropLast

/-- Follows parts of a path from a place up to the first link. -/
def advance (tree : Tree) (place : Place) : List String → Progress
  | [] => .arrived place
  | segment :: rest =>
    match tree.item? place with
    | some .folder =>
      if isIdle segment then advance tree place rest
      else if segment == ".." then
        match parentPlace? place with
        | some parent => advance tree parent rest
        | none => .refused .notFound
      else
        match tree.item? (place ++ [segment]) with
        | none => .refused .notFound
        | some (.link target) => .link place target rest
        | some _ => advance tree (place ++ [segment]) rest
    | _ => .refused .notFolder

def isOutside (path : String) : Bool :=
  path.startsWith "/"

/-- The place that parts of a path lead to from another place, through `links` links. -/
def resolveFrom (tree : Tree) : Nat → Place → List String → Except IoError Place
  | links, place, parts =>
    match tree.advance place parts with
    | .arrived found => .ok found
    | .refused error => .error error
    | .link folder target rest =>
      match links with
      | 0 => .error .tooManyLinks
      | links + 1 =>
        if isOutside target then .error .notFound
        else resolveFrom tree links folder (segments target ++ rest)

def resolve (tree : Tree) (path : String) : Except IoError Place :=
  if isOutside path then .error .notFound else tree.resolveFrom linkLimit [] (segments path)

def lookup (tree : Tree) (path : String) : Except IoError (Place × Item) := do
  let place ← tree.resolve path
  match tree.item? place with
  | some item => return (place, item)
  | none => .error .notFound

/-- The last part of a path that is not idle, and the parts before it. A path that ends in an
idle part or in the way up names no entry. -/
def splitEntry? (path : String) : Option (List String × String) :=
  match (segments path).reverse with
  | name :: before => if isIdle name || name == ".." then none else some (before.reverse, name)
  | [] => none

/-! ## Operations -/

def look (tree : Tree) (path : String) : Except IoError Standing := do
  match ← tree.lookup path with
  | (_, .file _) => return .file
  | (place, .folder) => return .folder (String.intercalate "/" place)
  | (_, .link _) => return .other

def isLink (tree : Tree) (path : String) : Bool :=
  match splitEntry? path with
  | none => false
  | some (before, name) =>
    match tree.resolveFrom linkLimit [] before with
    | .error _ => false
    | .ok folder =>
      match tree.item? (folder ++ [name]) with
      | some (.link _) => true
      | _ => false

def names (tree : Tree) (path : String) : Except IoError (List String) := do
  match ← tree.lookup path with
  | (place, .folder) => return tree.namesIn place
  | _ => .error .notFolder

def read (tree : Tree) (path : String) : Except IoError ByteArray := do
  match ← tree.lookup path with
  | (_, .file contents) => return contents
  | (_, .folder) => .error .isFolder
  | (_, .link _) => .error .notFound

/-- Writes a file, through the link at its path if there is one; `links` may be followed. -/
def writeFrom (contents : ByteArray) (tree : Tree) : Nat → Place → String → Except IoError Tree
  | links, start, path => do
    if isOutside path then .error .notFound
    else
      match splitEntry? path with
      | none => .error .isFolder
      | some (before, name) =>
        let folder ← tree.resolveFrom linkLimit start before
        match tree.item? folder with
        | some .folder =>
          match tree.item? (folder ++ [name]) with
          | some .folder => .error .isFolder
          | some (.link target) =>
            match links with
            | 0 => .error .tooManyLinks
            | links + 1 => writeFrom contents tree links folder target
          | _ => return tree.put (folder ++ [name]) (.file contents)
        | _ => .error .notFolder

def write (tree : Tree) (path : String) (contents : ByteArray) : Except IoError Tree :=
  tree.writeFrom contents linkLimit [] path

/-- The folder that a part of a path leads to from another, created if it is missing. -/
def enterFolder (tree : Tree) (folder : Place) (segment : String) :
    Except IoError (Tree × Place) :=
  match tree.resolveFrom linkLimit folder [segment] with
  | .ok place =>
    match tree.item? place with
    | some .folder => .ok (tree, place)
    | _ => .error .exists_
  | .error error =>
    match error, tree.item? (folder ++ [segment]) with
    | .notFound, none =>
      if segment == ".." then .error .notFound
      else .ok (tree.put (folder ++ [segment]) .folder, folder ++ [segment])
    | .notFound, some _ => .error .exists_
    | error, _ => .error error

def createAlong (tree : Tree) (folder : Place) : List String → Except IoError Tree
  | [] => .ok tree
  | segment :: rest => do
    let (tree, place) ← tree.enterFolder folder segment
    createAlong tree place rest

def createFolders (tree : Tree) (path : String) : Except IoError Tree :=
  if isOutside path then .error .notFound else tree.createAlong [] (segments path)

end Tree

/-! ## The tree as a disk -/

def inspect {α : Type} (f : Tree → α) : StateM Tree α := fun tree => (f tree, tree)

def change (f : Tree → Except IoError Tree) : StateM Tree (Except IoError Unit) := fun tree =>
  match f tree with
  | .ok changed => (.ok (), changed)
  | .error error => (.error error, tree)

/-- A tree as a disk. Every link on a way down leads to a folder that is not on the way yet,
so no way is longer than the square of the number of items. -/
def treeDisk : Disk (StateM Tree) where
  look path := inspect (·.look path)
  isLink path := inspect (·.isLink path)
  names path := inspect (·.names path)
  read path := inspect (·.read path)
  write path contents := change (·.write path contents)
  createFolders path := change (·.createFolders path)
  maxDepth := inspect fun tree => (tree.items.length + 2) * (tree.items.length + 2)
  schedule count := return .inOrder count

end WireSchema.Files
