/-!
# Paths

Paths are texts with slashes between their parts. Paths below one folder are
compared part by part, so everything in a folder `a` stands before a file `a.b`.
-/

namespace WireSchema.Files

def segments (path : String) : List String :=
  (path.toList.splitOn '/').map String.ofList

/-- The path of an entry of a folder. The empty path is the folder all others start from. -/
def join (folder name : String) : String :=
  if name.startsWith "/" || folder.isEmpty then name
  else if folder.endsWith "/" then folder ++ name
  else folder ++ "/" ++ name

def fileName (path : String) : String :=
  (segments path).getLastD ""

/-- What follows the last dot, unless nothing stands before it. -/
def extension? (name : String) : Option String :=
  let cs := name.toList.reverse
  let after := cs.takeWhile (· != '.')
  match cs.drop after.length with
  | _ :: _ :: _ => some (String.ofList after.reverse)
  | _ => none

/-- Does the part only repeat the place it stands at? -/
def isIdle (segment : String) : Bool :=
  segment.isEmpty || segment == "."

def parent? (path : String) : Option String :=
  let named := ((segments path).reverse.dropWhile isIdle).reverse
  let before := String.intercalate "/" named.dropLast
  if before.isEmpty then none else some before

/-- Does the path of parts `a` stand before that of parts `b`, or are they the same? -/
def isBefore (a b : List String) : Bool :=
  !decide (b < a)

end WireSchema.Files
