import WireSchema.Extraction.Switch
import WireSchema.Schema.Basic
import WireSchema.Swift.Literal

/-!
# Evidence for the wire form of a union

The bodies of hand-written initializers and encoders are searched for the shapes
in which tagged enums are usually written:

* `decode(String.self, forKey: .key)` reads the tag,
* `case "tag": self = .name` maps it to a case,
* `encode("tag", forKey: .key)` writes it,
* `from: decoder` and `to: encoder` show a payload next to the tag, and
  another `forKey:` one nested under a key.

Nothing is type-checked, and what has another shape counts for nothing.
`unionShape` puts the evidence together; what decoding shows wins over what
encoding shows.
-/

namespace WireSchema.Extraction

open Swift

/-! ## Shapes -/

/-- The first result of `shape?` on the tokens from some place on. -/
def firstShape? {α : Type} (shape? : List Token → Option α) : List Token → Option α
  | [] => shape? []
  | token :: rest => (shape? (token :: rest)).or (firstShape? shape? rest)

/-- The tokens after the given words, if they come next. -/
def passWords? : List String → List Token → Option (List Token)
  | [], tokens => some tokens
  | _ :: _, [] => none
  | word :: words, token :: rest => if token.isWord word then passWords? words rest else none

def identifierText? (tokens : List Token) : Option String :=
  (tokens.head?.filter Token.isIdentifier).map Token.text

/-- Do the given words stand in the tokens, one directly after the other? -/
def containsWords (words : List String) (tokens : List Token) : Bool :=
  (firstShape? (passWords? words) tokens).isSome

def containsWord (word : String) (tokens : List Token) : Bool :=
  tokens.any (·.isWord word)

/-- The case that `self = .name` assigns. -/
def assignedCase? (body : List Token) : Option String :=
  firstShape? (fun tokens => (passWords? ["self", "=", "."] tokens).bind identifierText?) body

def decodedKey? (body : List Token) : Option String :=
  let words := ["decode", "(", "String", ".", "self", ",", "forKey", ":", "."]
  firstShape? (fun tokens => (passWords? words tokens).bind identifierText?) body

/-- A string literal that is encoded and the key it is encoded for. -/
def tagEncoding? (tokens : List Token) : Option (String × String) :=
  match passWords? ["encode", "("] tokens with
  | some (tag :: rest) =>
    if tag.kind == .string then
      ((passWords? [",", "forKey", ":", "."] rest).bind identifierText?).map fun key =>
        (stringValue tag.text, key)
    else none
  | _ => none

def encodedTag? (body : List Token) : Option (String × String) :=
  firstShape? tagEncoding? body

/-- Is the value of a name encoded for a key here? -/
def isPayloadEncoding (tokens : List Token) : Bool :=
  match passWords? ["encode", "("] tokens with
  | some (value :: rest) => value.isIdentifier && (passWords? [",", "forKey"] rest).isSome
  | _ => false

def encodesPayload (body : List Token) : Bool :=
  (firstShape? (fun tokens => if isPayloadEncoding tokens then some () else none) body).isSome

/-- The texts of the names that stand after a dot. -/
def dottedNames : List Token → List String
  | dot :: name :: rest =>
    if dot.isWord "." && name.isIdentifier then name.text :: dottedNames (name :: rest)
    else dottedNames (name :: rest)
  | _ => []

def fromSwitch? (body : List Token) : Option (List Token) :=
  match body.dropWhile fun token => !token.isWord "switch" with
  | [] => none
  | tokens => some tokens

/-- The tokens before the body of the first switch; all of them if there is none. -/
def beforeSwitchBody (body : List Token) : List Token :=
  body.takeWhile (fun token => !token.isWord "switch") ++
    (body.dropWhile fun token => !token.isWord "switch").takeWhile fun token =>
      !token.isWord "\x7b"

/-! ## Decoding -/

/-- What an initializer shows. Tags come with their cases, in source order. -/
structure DecodeEvidence where
  tagKey : Option String
  tags : List (String × String)
  defaultCase : Option String
  /-- Cases whose payload is decoded from the whole value. -/
  inlineCases : NameSet
  /-- Cases whose payload is decoded from a key. -/
  wrappedCases : NameSet
  singleValue : Bool
  /-- A value that matches no case is refused. -/
  rejectsUnknown : Bool

namespace DecodeEvidence

def empty : DecodeEvidence :=
  { tagKey := none, tags := [], defaultCase := none, inlineCases := .empty, wrappedCases := .empty
    singleValue := false, rejectsUnknown := false }

end DecodeEvidence

/-- Is a payload decoded from the whole value in this arm? -/
def Arm.decodesInline (arm : Arm) : Bool :=
  containsWords ["from", ":", "decoder"] arm.body

/-- Is a payload decoded from a key in this arm? -/
def Arm.decodesWrapped (arm : Arm) : Bool :=
  !arm.decodesInline && containsWords ["forKey", ":"] arm.body

def Arm.decodedTags (arm : Arm) : List (String × String) :=
  match assignedCase? arm.body with
  | some case_ =>
    (arm.pattern.filter (·.kind == .string)).map fun token => (stringValue token.text, case_)
  | none => []

/-- Does the arm assign no case but throw? -/
def Arm.onlyThrows (arm : Arm) : Bool :=
  (assignedCase? arm.body).isNone && containsWord "throw" arm.body

def assignedCases (arms : List Arm) : NameSet :=
  .ofNames (arms.filterMap fun arm => assignedCase? arm.body)

def decodeEvidence (body : List Token) : DecodeEvidence :=
  let singleValue := containsWord "singleValueContainer" body
  let tagKey := decodedKey? (beforeSwitchBody body)
  match fromSwitch? body with
  | none =>
    { DecodeEvidence.empty with
      tagKey, singleValue, rejectsUnknown := singleValue && containsWord "throw" body }
  | some tokens =>
    let arms := switchArms tokens
    let tagged := arms.filter fun arm => !arm.isDefault
    let defaults := arms.filter Arm.isDefault
    { tagKey
      tags := tagged.flatMap Arm.decodedTags
      defaultCase := (defaults.filterMap fun arm => assignedCase? arm.body).getLast?
      inlineCases := assignedCases (tagged.filter Arm.decodesInline)
      wrappedCases := assignedCases (tagged.filter Arm.decodesWrapped)
      singleValue
      rejectsUnknown := defaults.any Arm.onlyThrows }

/-! ## Encoding -/

structure EncodeEvidence where
  tagKey : Option String
  tags : List (String × String)
  inlineCases : NameSet
  wrappedCases : NameSet

def EncodeEvidence.empty : EncodeEvidence :=
  { tagKey := none, tags := [], inlineCases := .empty, wrappedCases := .empty }

def Arm.patternCases (arm : Arm) : List String :=
  dottedNames arm.pattern

def Arm.encodesInline (arm : Arm) : Bool :=
  containsWords ["to", ":", "encoder"] arm.body

def Arm.encodesWrapped (arm : Arm) : Bool :=
  !arm.encodesInline && encodesPayload arm.body

def Arm.encodedTags (arm : Arm) : List (String × String) :=
  match encodedTag? arm.body with
  | some (tag, _) => arm.patternCases.map fun case_ => (tag, case_)
  | none => []

def encodeEvidence (body : List Token) : EncodeEvidence :=
  match fromSwitch? body with
  | none => .empty
  | some tokens =>
    let arms := (switchArms tokens).filter fun arm =>
      !arm.isDefault && (encodedTag? arm.body).isSome
    { tagKey := (arms.head?.bind fun arm => encodedTag? arm.body).map Prod.snd
      tags := arms.flatMap Arm.encodedTags
      inlineCases := .ofNames ((arms.filter Arm.encodesInline).flatMap Arm.patternCases)
      wrappedCases := .ofNames ((arms.filter Arm.encodesWrapped).flatMap Arm.patternCases) }

/-! ## Both together -/

/-- What is known of a union before its evidence is read. -/
structure UnionEvidence where
  cases : List String
  /-- The cases that carry one value of another type; only they show where payloads lie. -/
  payloadCases : NameSet
  fallback : Option String
  decodeBody : Option (List Token)
  encodeBody : Option (List Token)
  /-- The wire key of each coding key. -/
  codingKeys : NameMap String

structure UnionShape where
  discriminator : Option Discriminator
  /-- The wire tag of each case. -/
  tags : NameMap String
  /-- Cases of a tagged union, other than the fallback, for which no tag was found. -/
  unmatched : List String
  untagged : Bool
  rejectsUnknown : Bool

/-- Takes one tag for one of the `cases`, unless the case has a tag or the tag a case. -/
def claimTag (cases : List String) (tags : NameMap String) (tagged : String × String) :
    NameMap String :=
  if !cases.contains tagged.2 || tags.contains tagged.2 || tags.values.contains tagged.1 then tags
  else tags.insert tagged.2 tagged.1

/-- The tags of cases: of two claims that exclude each other the first counts. -/
def claimTags (cases : List String) (claims : List (String × String)) : NameMap String :=
  claims.foldl (claimTag cases) .empty

def anyIn (set : NameSet) (names : NameSet) : Bool :=
  names.names.any set.contains

/-- Where payloads lie: under a key if there is evidence for that alone. -/
def payloadStyle (payloadCases : NameSet) (decode : DecodeEvidence) (encode : EncodeEvidence) :
    DiscriminatorStyle :=
  let wrapped := anyIn payloadCases decode.wrappedCases || anyIn payloadCases encode.wrappedCases
  let inline_ := anyIn payloadCases decode.inlineCases || anyIn payloadCases encode.inlineCases
  if wrapped && !inline_ then .wrapped else .inline

/-- The shape of a union. Without a key for its tag it has no discriminator. -/
def unionShape (union : UnionEvidence) : UnionShape :=
  let decode := (union.decodeBody.map decodeEvidence).getD .empty
  let encode := (union.encodeBody.map encodeEvidence).getD .empty
  match decode.tagKey.or encode.tagKey with
  | none =>
    { discriminator := none, tags := .empty, unmatched := [], untagged := decode.singleValue
      rejectsUnknown := decode.rejectsUnknown }
  | some tagKey =>
    let tags := claimTags union.cases (decode.tags ++ encode.tags)
    { discriminator := some
        { field := (union.codingKeys.get? tagKey).getD tagKey
          style := payloadStyle union.payloadCases decode encode }
      tags
      unmatched := union.cases.filter fun case_ =>
        !tags.contains case_ && union.fallback != some case_
      untagged := false
      rejectsUnknown := decode.rejectsUnknown }

end WireSchema.Extraction
