import WireSchema.Document.Fault
import WireSchema.Extraction.Fault
import WireSchema.Verification.Violation

/-!
# Everything that can go wrong

The faults and warnings of all parts, and those that come from files.
-/

namespace WireSchema

/-! ## Files -/

inductive IoError where
  | notFound
  | exists_
  | notFolder
  | isFolder
  | tooManyLinks
  | other (text : String)
deriving DecidableEq, Repr

def IoError.message : IoError → String
  | notFound => "No such file or directory (os error 2)"
  | exists_ => "File exists (os error 17)"
  | notFolder => "Not a directory (os error 20)"
  | isFolder => "Is a directory (os error 21)"
  | tooManyLinks => "Too many levels of symbolic links (os error 40)"
  | other text => text

inductive AccessError where
  | io (error : IoError)
  | notText
deriving DecidableEq, Repr

def AccessError.message : AccessError → String
  | io error => "I/O error: " ++ error.message
  | notText => "I/O error: stream did not contain valid UTF-8"

inductive VisitError where
  | io (path : String) (error : IoError)
  /-- A link leads back to a folder that it stands in. -/
  | loop (path ancestor : String)
deriving DecidableEq, Repr

namespace VisitError

def path : VisitError → String
  | io path _ => path
  | loop path _ => path

def message : VisitError → String
  | io path error => "IO error for operation on " ++ path ++ ": " ++ error.message
  | loop path ancestor =>
    "File system loop found: " ++ path ++ " points to an ancestor " ++ ancestor

end VisitError

inductive SourceError where
  | access (error : AccessError)
  | parse (error : Swift.SyntaxError)
deriving DecidableEq, Repr

def SourceError.message : SourceError → String
  | access error => error.message
  | parse error => error.message

/-! ## Faults and warnings -/

inductive Fault where
  | document (fault : Document.Fault)
  | invalidType (fault : TypeExpr.Fault)
  | extraction (fault : Extraction.Fault)
  | violation (violation : Verification.Violation)
  | unsupportedLanguage (name : String)
  | access (error : AccessError)
  | visit (error : VisitError)
deriving DecidableEq, Repr

/-- The message of a fault; a document that is no YAML has none. -/
def Fault.message? : Fault → Option String
  | document fault => fault.message?
  | invalidType fault => some (TypeExpr.invalidMessage fault.message)
  | extraction fault => some fault.message
  | violation v => some ("Verifier error: " ++ v.message)
  | unsupportedLanguage name => some ("Unsupported target language \"" ++ name ++ "\"")
  | access error => some error.message
  | visit error => some ("Directory walk error: " ++ error.message)

inductive Warning where
  | document (warning : Document.Warning)
  | extraction (warning : Extraction.Warning)
  | skippedPlace (error : VisitError)
  | skippedFile (path : String) (error : SourceError)
deriving DecidableEq, Repr

def Warning.message : Warning → String
  | document warning => warning.message
  | extraction warning => warning.message
  | skippedPlace error => "Skipping " ++ error.path ++ ": " ++ error.message
  | skippedFile path error => "Skipping " ++ path ++ ": " ++ error.message

end WireSchema
