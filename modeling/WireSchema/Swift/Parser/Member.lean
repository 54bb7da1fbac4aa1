import WireSchema.Swift.Literal
import WireSchema.Swift.Parser.Expression
import WireSchema.Swift.Parser.Heading
import WireSchema.Swift.Parser.TypeText

/-!
# Members without a body of members

Enum cases, properties, functions and type aliases. The body of a function is
taken as it is, and so are the values that functions and properties start from.
-/

namespace WireSchema.Swift

open Outcome (bind_eq_ok_iff)

/-! ## Enum cases -/

/-- The label of an associated value, if it has one, and the tokens after it. Of an outer
and an inner label the outer one counts. -/
def splitLabel : List Token → Option String × List Token
  | first :: second :: rest =>
    if first.isIdentifier && second.isWord ":" then (some first.text, rest)
    else if first.isIdentifier && second.isIdentifier && wordNext rest ":" then
      (some first.text, rest.drop 1)
    else (none, first :: second :: rest)
  | tokens => (none, tokens)

theorem splitLabel_suffix (tokens : List Token) : (splitLabel tokens).2 <:+ tokens := by
  fun_cases splitLabel tokens with
  | case1 => exact ProperSuffix.tail.cons.suffix
  | case2 first second rest =>
    exact (ProperSuffix.of_suffix (List.drop_suffix 1 rest)).cons.suffix
  | case3 => exact List.suffix_refl _
  | case4 => exact List.suffix_refl _

/-- One associated value; the label `_` is none. -/
def readAssociatedValue : Reader AssociatedValue := fun tokens => do
  let (label, afterLabel) := splitLabel tokens
  let (type, afterType) ← readTypeText afterLabel
  return (⟨label.filter (· != "_"), type⟩, (skipAssignment afterType).2)

theorem readAssociatedValue_advances : Advances readAssociatedValue := by
  intro tokens value rest h
  obtain ⟨⟨type, afterType⟩, htype, h⟩ := bind_eq_ok_iff.mp h
  cases h
  exact .suffix_trans (skipAssignment_suffix afterType)
    ((readTypeText_advances htype).trans_suffix (splitLabel_suffix tokens))

def readPayload : Reader (List AssociatedValue) := fun tokens =>
  match passWord? "(" tokens with
  | none => return ([], tokens)
  | some inside =>
    match passWord? ")" inside with
    | some rest => return ([], rest)
    | none => do
      let (values, afterValues) ← readList readAssociatedValue readAssociatedValue_advances inside
      let (_, rest) ← readWord ")" afterValues
      return (values, rest)

theorem readPayload_suffix {tokens rest : List Token} {values : List AssociatedValue}
    (h : readPayload tokens = .ok (values, rest)) : rest <:+ tokens := by
  unfold readPayload at h
  split at h
  · cases h
    exact List.suffix_refl _
  · next inside hopen =>
    have hinside := passWord?_properSuffix hopen
    split at h
    · next after hclose =>
      cases h
      exact ((passWord?_properSuffix hclose).trans hinside).suffix
    · obtain ⟨⟨found, afterValues⟩, hvalues, h⟩ := bind_eq_ok_iff.mp h
      obtain ⟨⟨close, after⟩, hclose, h⟩ := bind_eq_ok_iff.mp h
      cases h
      have hlist := readList_advances readAssociatedValue_advances hvalues
      exact (((readWord_advances ")" hclose).trans hlist).trans hinside).suffix

/-- A raw value, and the tokens after it. Anything but a string or a number is kept as one
token. -/
def splitRawLiteral : List Token → RawLiteral × List Token
  | [] => (.other "", [])
  | token :: after =>
    if token.kind == .string then (.string (stringValue token.text), after)
    else if token.isWord "-" && comesNext after (·.kind == .number) then
      (.number ("-" ++ headText after), after.drop 1)
    else if token.kind == .number then (.number token.text, after)
    else (.other token.text, after)

theorem splitRawLiteral_suffix (tokens : List Token) : (splitRawLiteral tokens).2 <:+ tokens := by
  fun_cases splitRawLiteral tokens with
  | case1 => exact List.suffix_refl _
  | case2 => exact ProperSuffix.tail.suffix
  | case3 token after => exact (ProperSuffix.of_suffix (List.drop_suffix 1 after)).suffix
  | case4 => exact ProperSuffix.tail.suffix
  | case5 => exact ProperSuffix.tail.suffix

def splitRawValue (tokens : List Token) : Option RawLiteral × List Token :=
  match passWord? "=" tokens with
  | some after => (some (splitRawLiteral after).1, (splitRawLiteral after).2)
  | none => (none, tokens)

theorem splitRawValue_suffix (tokens : List Token) : (splitRawValue tokens).2 <:+ tokens := by
  rw [splitRawValue]
  split
  · next after h => exact (splitRawLiteral_suffix after).trans (passWord?_properSuffix h).suffix
  · exact List.suffix_refl _

def readCase (docs : List String) : Reader EnumCase := fun tokens => do
  let (name, afterName) ← readIdentifier tokens
  let (associated, afterPayload) ← readPayload afterName
  let (rawValue, rest) := splitRawValue afterPayload
  return (⟨name.text, name.position, docs, rawValue, associated⟩, rest)

theorem readCase_advances (docs : List String) : Advances (readCase docs) := by
  intro tokens value rest h
  obtain ⟨⟨name, afterName⟩, hname, h⟩ := bind_eq_ok_iff.mp h
  obtain ⟨⟨associated, afterPayload⟩, hpayload, h⟩ := bind_eq_ok_iff.mp h
  cases h
  have hraw := splitRawValue_suffix afterPayload
  exact .suffix_trans (hraw.trans (readPayload_suffix hpayload)) (readIdentifier_advances hname)

/-- Cases with commas between them; all have the comments in front of the first. -/
def readCases (docs : List String) : Reader (List EnumCase) :=
  readList (readCase docs) (readCase_advances docs)

theorem readCases_advances (docs : List String) : Advances (readCases docs) :=
  readList_advances (readCase_advances docs)

/-! ## Properties -/

def holdsObservers (tokens : List Token) : Bool :=
  ["willSet", "didSet"].contains (headText (tokens.drop 1))

def computesValue (tokens : List Token) : Bool :=
  wordNext tokens "\x7b" && !holdsObservers tokens

/-- A property that binds the parts of a tuple declares none that could be on the wire. -/
def skipTupleProperty (tokens : List Token) : Except Failure (List Token) := do
  let (_, afterPattern) ← readGroup "(" ")" tokens
  let (_, afterType) ← readTypeClause afterPattern
  return (skipAssignment afterType).2

theorem skipTupleProperty_properSuffix {tokens rest : List Token}
    (h : skipTupleProperty tokens = .ok rest) : ProperSuffix rest tokens := by
  obtain ⟨⟨pattern, afterPattern⟩, hpattern, h⟩ := bind_eq_ok_iff.mp h
  obtain ⟨⟨type, afterType⟩, htype, h⟩ := bind_eq_ok_iff.mp h
  cases h
  have hvalue := skipAssignment_suffix afterType
  exact .suffix_trans (hvalue.trans (readTypeClause_suffix htype))
    (readGroup_advances "(" ")" hpattern)

def readNamedProperty (heading : Heading) (isLet : Bool) : Reader PropertyDecl := fun tokens => do
  let (name, afterName) ← readIdentifier tokens
  let (type, afterType) ← readTypeClause afterName
  let (hasInitializer, afterValue) := skipAssignment afterType
  let rest ← skipGroup "\x7b" "\x7d" afterValue
  let property : PropertyDecl :=
    { name := name.text, position := name.position, docs := heading.docs, type
      isStatic := heading.isStatic, isComputed := computesValue afterValue, isLet, hasInitializer }
  return (property, rest)

theorem readNamedProperty_advances (heading : Heading) (isLet : Bool) :
    Advances (readNamedProperty heading isLet) := by
  intro tokens property rest h
  obtain ⟨⟨name, afterName⟩, hname, h⟩ := bind_eq_ok_iff.mp h
  obtain ⟨⟨type, afterType⟩, htype, h⟩ := bind_eq_ok_iff.mp h
  obtain ⟨after, hblock, h⟩ := bind_eq_ok_iff.mp h
  cases h
  have hvalue := (skipGroup_suffix hblock).trans (skipAssignment_suffix afterType)
  exact .suffix_trans (hvalue.trans (readTypeClause_suffix htype)) (readIdentifier_advances hname)

def readProperty (heading : Heading) (isLet : Bool) : Reader (Option PropertyDecl) :=
  fun tokens =>
    if wordNext tokens "(" then do
      let rest ← skipTupleProperty tokens
      return (none, rest)
    else do
      let (property, rest) ← readNamedProperty heading isLet tokens
      return (some property, rest)

theorem readProperty_advances (heading : Heading) (isLet : Bool) :
    Advances (readProperty heading isLet) := by
  intro tokens property rest h
  unfold readProperty at h
  by_cases htuple : wordNext tokens "("
  · rw [if_pos htuple] at h
    obtain ⟨after, hproperty, h⟩ := bind_eq_ok_iff.mp h
    cases h
    exact skipTupleProperty_properSuffix hproperty
  · rw [if_neg htuple] at h
    obtain ⟨⟨found, after⟩, hproperty, h⟩ := bind_eq_ok_iff.mp h
    cases h
    exact readNamedProperty_advances heading isLet hproperty

def readProperties (heading : Heading) (isLet : Bool) : Reader (List PropertyDecl) :=
  fun tokens => do
    let (properties, rest) ←
      readList (readProperty heading isLet) (readProperty_advances heading isLet) tokens
    return (properties.filterMap id, rest)

theorem readProperties_advances (heading : Heading) (isLet : Bool) :
    Advances (readProperties heading isLet) := by
  intro tokens properties rest h
  obtain ⟨⟨found, after⟩, hlist, h⟩ := bind_eq_ok_iff.mp h
  cases h
  exact readList_advances (readProperty_advances heading isLet) hlist

/-! ## Functions -/

def firstLabel? : List Token → Option String
  | opener :: label :: rest =>
    if opener.isWord "(" && label.isIdentifier &&
        (wordNext rest ":" || comesNext rest Token.isIdentifier) then
      some label.text
    else none
  | _ => none

/-- The brackets of the group that may stand in front of the body of a function and starts
with the token. -/
def signatureGroup? (token : Token) : Option (String × String) :=
  if token.isWord "(" then some ("(", ")")
  else if token.isWord "[" then some ("[", "]")
  else none

/-- The body of a function: the first block in braces, before which its effects, its result
type and its constraints may stand. Before a closing brace or a declaration there is none. -/
def readFunctionBody (afterDot : Bool) (tokens : List Token) :
    Except Failure (List Token × List Token) :=
  match tokens with
  | [] => return ([], [])
  | token :: after =>
    if token.isWord "\x7b" then do
      let (block, rest) ← readGroup "\x7b" "\x7d" (token :: after)
      return (block.inner, rest)
    else if token.isWord "\x7d" || isDeclKeyword afterDot token then return ([], token :: after)
    else
      match signatureGroup? token with
      | some (opener, closer) => do
        let ⟨_, more, _hgroup⟩ ← (readGroup_advances opener closer).take (token :: after)
        readFunctionBody false more
      | none => readFunctionBody (token.isWord ".") after
termination_by tokens.length
decreasing_by
  · exact _hgroup.shorter
  · exact ProperSuffix.tail.shorter

/-- What `readFunctionBody` does, without the evidence of progress. -/
theorem readFunctionBody_cons (afterDot : Bool) (token : Token) (after : List Token) :
    readFunctionBody afterDot (token :: after) =
      if token.isWord "\x7b" then do
        let (block, rest) ← readGroup "\x7b" "\x7d" (token :: after)
        return (block.inner, rest)
      else if token.isWord "\x7d" || isDeclKeyword afterDot token then
        .ok ([], token :: after)
      else
        match signatureGroup? token with
        | some (opener, closer) => do
          let (_, more) ← readGroup opener closer (token :: after)
          readFunctionBody false more
        | none => readFunctionBody (token.isWord ".") after := by
  rw [readFunctionBody]
  by_cases hopen : token.isWord "\x7b"
  · rw [if_pos hopen, if_pos hopen]
  · rw [if_neg hopen, if_neg hopen]
    by_cases hend : token.isWord "\x7d" || isDeclKeyword afterDot token
    · rw [if_pos hend, if_pos hend]
      rfl
    · rw [if_neg hend, if_neg hend]
      cases signatureGroup? token with
      | none => rfl
      | some group => exact (readGroup_advances group.1 group.2).take_bind_congr fun _ => rfl

theorem readFunctionBody_suffix {afterDot : Bool} {tokens body rest : List Token}
    (h : readFunctionBody afterDot tokens = .ok (body, rest)) : rest <:+ tokens := by
  fun_induction readFunctionBody afterDot tokens with
  | case1 =>
    cases h
    exact List.suffix_refl _
  | case2 =>
    obtain ⟨⟨block, after⟩, hblock, h⟩ := bind_eq_ok_iff.mp h
    cases h
    exact (readGroup_advances "\x7b" "\x7d" hblock).suffix
  | case3 =>
    cases h
    exact List.suffix_refl _
  | case4 afterDot token after _ _ opener closer _ ih =>
    obtain ⟨⟨group, more, hgroup⟩, -, h⟩ := bind_eq_ok_iff.mp h
    exact (ih more hgroup h).trans hgroup.suffix
  | case5 afterDot token after _ _ _ ih => exact (ProperSuffix.of_suffix (ih h)).suffix

/-- The token that names a function, which is the keyword itself unless that is `func`, and
the tokens after it. -/
def splitFunctionName (keyword : Token) (after : List Token) : Option Token × List Token :=
  if keyword.text == "func" then (after.head?, after.drop 1) else (some keyword, after)

/-- The tokens after the mark of an initializer that may fail. -/
def dropInitMark (name : String) (tokens : List Token) : List Token :=
  if name == "init" && (wordNext tokens "?" || wordNext tokens "!") then tokens.drop 1 else tokens

theorem splitFunctionName_suffix (keyword : Token) (after : List Token) :
    (splitFunctionName keyword after).2 <:+ after := by
  rw [splitFunctionName]
  split
  · exact List.drop_suffix 1 after
  · exact List.suffix_refl _

theorem dropInitMark_suffix (name : String) (tokens : List Token) :
    dropInitMark name tokens <:+ tokens := by
  rw [dropInitMark]
  split
  · exact List.drop_suffix 1 tokens
  · exact List.suffix_refl _

def readFunction (isStatic : Bool) (keyword : Token) : Reader FunctionDecl := fun after => do
  let (name?, afterName) := splitFunctionName keyword after
  let name := (name?.map Token.text).getD ""
  let afterMark := dropInitMark name afterName
  let afterGenerics ← skipGroup "<" ">" afterMark
  let afterParameters ← skipGroup "(" ")" afterGenerics
  let bare := !wordNext afterMark "<" && !wordNext afterGenerics "("
  let afterDot := bare && name?.any (·.isWord ".")
  let (body, rest) ← readFunctionBody afterDot afterParameters
  return (⟨name, keyword.position, isStatic, firstLabel? afterGenerics, body⟩, rest)

theorem readFunction_suffix {isStatic : Bool} {keyword : Token} {after rest : List Token}
    {function : FunctionDecl} (h : readFunction isStatic keyword after = .ok (function, rest)) :
    rest <:+ after := by
  have hname := splitFunctionName_suffix keyword after
  unfold readFunction at h
  generalize splitFunctionName keyword after = named at h hname
  obtain ⟨name?, afterName⟩ := named
  obtain ⟨afterGenerics, hgenerics, h⟩ := bind_eq_ok_iff.mp h
  obtain ⟨afterParameters, hparameters, h⟩ := bind_eq_ok_iff.mp h
  obtain ⟨⟨body, afterBody⟩, hbody, h⟩ := bind_eq_ok_iff.mp h
  cases h
  have hsignature := (skipGroup_suffix hparameters).trans (skipGroup_suffix hgenerics)
  have hbody' := (readFunctionBody_suffix hbody).trans hsignature
  exact (hbody'.trans (dropInitMark_suffix _ afterName)).trans hname

/-! ## Type aliases -/

def readTypealias (heading : Heading) : Reader AliasDecl := fun tokens => do
  let (name, afterName) ← readIdentifier tokens
  let afterGenerics ← skipGroup "<" ">" afterName
  let (_, afterEquals) ← readWord "=" afterGenerics
  let (target, rest) ← readTypeText afterEquals
  let decl : AliasDecl :=
    { name := name.text, position := name.position, docs := heading.docs
      attributes := heading.attributes, isGeneric := wordNext afterName "<", target }
  return (decl, rest)

theorem readTypealias_advances (heading : Heading) : Advances (readTypealias heading) := by
  intro tokens decl rest h
  obtain ⟨⟨name, afterName⟩, hname, h⟩ := bind_eq_ok_iff.mp h
  obtain ⟨afterGenerics, hgenerics, h⟩ := bind_eq_ok_iff.mp h
  obtain ⟨⟨equals, afterEquals⟩, hequals, h⟩ := bind_eq_ok_iff.mp h
  obtain ⟨⟨target, afterTarget⟩, htarget, h⟩ := bind_eq_ok_iff.mp h
  cases h
  have hequals' := (readWord_advances "=" hequals).trans_suffix (skipGroup_suffix hgenerics)
  exact ((readTypeText_advances htarget).trans hequals').trans (readIdentifier_advances hname)

end WireSchema.Swift
