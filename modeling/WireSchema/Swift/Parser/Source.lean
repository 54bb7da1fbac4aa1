import WireSchema.Swift.Parser.Member

/-!
# Bodies and whole sources

A body is a run of members up to a closing brace; a source is a run of
declarations up to its end. Both are read item by item: an item is complete, or
it opens the body of a type or of an extension. Whatever is no declaration is
passed over.
-/

namespace WireSchema.Swift

open Outcome (attach attach_bind_congr bind_eq_ok_iff)

/-! ## Headers -/

def readInheritance : Reader (List String) := fun tokens =>
  match passWord? ":" tokens with
  | none => return ([], tokens)
  | some after => readList readTypeText readTypeText_advances after

theorem readInheritance_suffix {tokens rest : List Token} {types : List String}
    (h : readInheritance tokens = .ok (types, rest)) : rest <:+ tokens := by
  unfold readInheritance at h
  split at h
  · cases h
    exact List.suffix_refl _
  · next after hcolon =>
    have hlist := readList_advances readTypeText_advances h
    exact (hlist.trans (passWord?_properSuffix hcolon)).suffix

def dropConstraints (tokens : List Token) : List Token :=
  if wordNext tokens "where" then tokens.dropWhile fun token => !token.isWord "\x7b" else tokens

theorem dropConstraints_suffix (tokens : List Token) : dropConstraints tokens <:+ tokens := by
  rw [dropConstraints]
  split
  · exact List.dropWhile_suffix _
  · exact List.suffix_refl _

/-- The inherited types of a declaration; the opening brace of its body is passed. -/
def readBodyStart : Reader (List String) := fun tokens => do
  let (inherited, afterInherited) ← readInheritance tokens
  let (_, body) ← readWord "\x7b" (dropConstraints afterInherited)
  return (inherited, body)

theorem readBodyStart_advances : Advances readBodyStart := by
  intro tokens types rest h
  obtain ⟨⟨inherited, afterInherited⟩, hinherited, h⟩ := bind_eq_ok_iff.mp h
  obtain ⟨⟨brace, body⟩, hbody, h⟩ := bind_eq_ok_iff.mp h
  cases h
  have hconstraints := dropConstraints_suffix afterInherited
  exact (readWord_advances "\x7b" hbody).trans_suffix
    (hconstraints.trans (readInheritance_suffix hinherited))

/-- A type declaration up to its body; its keyword has been passed. -/
def readTypeHeader (heading : Heading) (kind : DeclKind) : Reader TypeHeader := fun tokens => do
  let (name, afterName) ← readIdentifier tokens
  let afterGenerics ← skipGroup "<" ">" afterName
  let (inherited, body) ← readBodyStart afterGenerics
  let header : TypeHeader :=
    { kind, name := name.text, position := name.position, docs := heading.docs
      attributes := heading.attributes, isGeneric := wordNext afterName "<", inherited }
  return (header, body)

theorem readTypeHeader_advances (heading : Heading) (kind : DeclKind) :
    Advances (readTypeHeader heading kind) := by
  intro tokens header rest h
  obtain ⟨⟨name, afterName⟩, hname, h⟩ := bind_eq_ok_iff.mp h
  obtain ⟨afterGenerics, hgenerics, h⟩ := bind_eq_ok_iff.mp h
  obtain ⟨⟨inherited, body⟩, hbody, h⟩ := bind_eq_ok_iff.mp h
  cases h
  have hstart := (readBodyStart_advances hbody).trans_suffix (skipGroup_suffix hgenerics)
  exact hstart.trans (readIdentifier_advances hname)

/-- The parts of a dotted name after its first one, as text, and the tokens after them. -/
def splitDottedTail : List Token → String × List Token
  | dot :: part :: rest =>
    if dot.isWord "." && part.isIdentifier then
      ("." ++ part.text ++ (splitDottedTail rest).1, (splitDottedTail rest).2)
    else ("", dot :: part :: rest)
  | tokens => ("", tokens)

theorem splitDottedTail_suffix (tokens : List Token) : (splitDottedTail tokens).2 <:+ tokens := by
  fun_induction splitDottedTail tokens with
  | case1 dot part rest _ ih => exact (ProperSuffix.of_suffix ih).cons.suffix
  | case2 => exact List.suffix_refl _
  | case3 => exact List.suffix_refl _

def readExtensionHeader : Reader ExtensionHeader := fun tokens => do
  let (name, afterName) ← readIdentifier tokens
  let (inherited, body) ← readBodyStart (splitDottedTail afterName).2
  let header : ExtensionHeader :=
    { name := name.text ++ (splitDottedTail afterName).1, position := name.position, inherited }
  return (header, body)

theorem readExtensionHeader_advances : Advances readExtensionHeader := by
  intro tokens header rest h
  obtain ⟨⟨name, afterName⟩, hname, h⟩ := bind_eq_ok_iff.mp h
  obtain ⟨⟨inherited, body⟩, hbody, h⟩ := bind_eq_ok_iff.mp h
  cases h
  have hstart := (readBodyStart_advances hbody).trans_suffix (splitDottedTail_suffix afterName)
  exact hstart.trans (readIdentifier_advances hname)

/-! ## Bodies -/

inductive BodyItem where
  /-- The closing brace. -/
  | close
  /-- Members that are complete; none if a token was passed over. -/
  | members (members : List Member)
  /-- A type whose body comes next. -/
  | type (header : TypeHeader)
  /-- An extension, which has no meaning inside a body, whose own body comes next. -/
  | extension

/-- The item of a body that starts with a keyword, after its heading. Any other name is passed
over. -/
def readKeywordItem (heading : Heading) (token : Token) : Reader BodyItem := fun after =>
  if token.text == "case" then do
    let (cases, rest) ← readCases heading.docs after
    return (.members [.cases cases], rest)
  else if token.text == "var" || token.text == "let" then do
    let (properties, rest) ← readProperties heading (token.text == "let") after
    return (.members (properties.map .property), rest)
  else if token.text == "func" || token.text == "init" then do
    let (function, rest) ← readFunction heading.isStatic token after
    return (.members [.function function], rest)
  else if token.text == "deinit" || token.text == "subscript" then do
    let (_, rest) ← readFunction heading.isStatic token after
    return (.members [], rest)
  else if token.text == "typealias" then do
    let (decl, rest) ← readTypealias heading after
    return (.members [.typealias decl], rest)
  else if token.text == "extension" then do
    let (_, rest) ← readExtensionHeader after
    return (.extension, rest)
  else
    match DeclKind.ofKeyword? token.text with
    | some kind => do
      let (header, rest) ← readTypeHeader heading kind after
      return (.type header, rest)
    | none => return (.members [], after)

theorem readKeywordItem_suffix {heading : Heading} {token : Token} {after rest : List Token}
    {item : BodyItem} (h : readKeywordItem heading token after = .ok (item, rest)) :
    rest <:+ after := by
  unfold readKeywordItem at h
  split at h
  · obtain ⟨⟨cases', rest'⟩, hcases, h⟩ := bind_eq_ok_iff.mp h
    cases h
    exact (readCases_advances heading.docs hcases).suffix
  split at h
  · obtain ⟨⟨properties, rest'⟩, hproperties, h⟩ := bind_eq_ok_iff.mp h
    cases h
    exact (readProperties_advances heading _ hproperties).suffix
  split at h
  · obtain ⟨⟨function, rest'⟩, hfunction, h⟩ := bind_eq_ok_iff.mp h
    cases h
    exact readFunction_suffix hfunction
  split at h
  · obtain ⟨⟨function, rest'⟩, hfunction, h⟩ := bind_eq_ok_iff.mp h
    cases h
    exact readFunction_suffix hfunction
  split at h
  · obtain ⟨⟨decl, rest'⟩, hdecl, h⟩ := bind_eq_ok_iff.mp h
    cases h
    exact (readTypealias_advances heading hdecl).suffix
  split at h
  · obtain ⟨⟨header, rest'⟩, hheader, h⟩ := bind_eq_ok_iff.mp h
    cases h
    exact (readExtensionHeader_advances hheader).suffix
  split at h
  · next kind _ =>
    obtain ⟨⟨header, rest'⟩, hheader, h⟩ := bind_eq_ok_iff.mp h
    cases h
    exact (readTypeHeader_advances heading kind hheader).suffix
  · cases h
    exact List.suffix_refl _

def readBodyItem (heading : Heading) (token : Token) : Reader BodyItem := fun after =>
  if token.isWord "\x7d" then return (.close, after)
  else if token.isIdentifier then readKeywordItem heading token after
  else return (.members [], after)

theorem readBodyItem_suffix {heading : Heading} {token : Token} {after rest : List Token}
    {item : BodyItem} (h : readBodyItem heading token after = .ok (item, rest)) :
    rest <:+ after := by
  unfold readBodyItem at h
  by_cases hclose : token.isWord "\x7d"
  · rw [if_pos hclose] at h
    cases h
    exact List.suffix_refl _
  · rw [if_neg hclose] at h
    by_cases hname : token.isIdentifier
    · rw [if_pos hname] at h
      exact readKeywordItem_suffix h
    · rw [if_neg hname] at h
      cases h
      exact List.suffix_refl _

def nextBodyItem : Reader BodyItem := fun tokens => do
  let (heading, afterHeading) ← readHeading tokens
  match afterHeading with
  | [] => .error ⟨.unexpected "", []⟩
  | token :: after => readBodyItem heading token after

theorem nextBodyItem_advances : Advances nextBodyItem := by
  intro tokens item rest h
  obtain ⟨⟨heading, afterHeading⟩, hheading, h⟩ := bind_eq_ok_iff.mp h
  cases afterHeading with
  | nil => cases h
  | cons token after =>
    exact (ProperSuffix.of_suffix (readBodyItem_suffix h)).trans_suffix (readHeading_suffix hheading)

/-- The members of a body, up to its closing brace, which is passed, with the progress on
which the recursion rests. -/
def takeBody (tokens : List Token) : Except Failure (Taken (List Member) tokens) := do
  let ⟨item, afterItem, h₁⟩ ← nextBodyItem_advances.take tokens
  match item with
  | .close => return ⟨[], afterItem, h₁⟩
  | .members members =>
    let ⟨later, rest, h₂⟩ ← takeBody afterItem
    return ⟨members ++ later, rest, h₂.trans h₁⟩
  | .type header =>
    let ⟨members, afterBody, h₂⟩ ← takeBody afterItem
    let ⟨later, rest, h₃⟩ ← takeBody afterBody
    return ⟨.type header members :: later, rest, h₃.trans_trans h₂ h₁⟩
  | .extension =>
    let ⟨_, afterBody, h₂⟩ ← takeBody afterItem
    let ⟨later, rest, h₃⟩ ← takeBody afterBody
    return ⟨later, rest, h₃.trans_trans h₂ h₁⟩
termination_by tokens.length
decreasing_by
  · exact h₁.shorter
  · exact h₁.shorter
  · exact (h₂.trans h₁).shorter
  · exact h₁.shorter
  · exact (h₂.trans h₁).shorter

def readBody : Reader (List Member) := fun tokens =>
  Taken.pair <$> takeBody tokens

/-- What `readBody` does, without the evidence of progress. -/
theorem readBody_eq (tokens : List Token) :
    readBody tokens = do
      let (item, afterItem) ← nextBodyItem tokens
      match item with
      | .close => return ([], afterItem)
      | .members members =>
        let (later, rest) ← readBody afterItem
        return (members ++ later, rest)
      | .type header =>
        let (members, afterBody) ← readBody afterItem
        let (later, rest) ← readBody afterBody
        return (.type header members :: later, rest)
      | .extension =>
        let (_, afterBody) ← readBody afterItem
        let (later, rest) ← readBody afterBody
        return (later, rest) := by
  rw [readBody, takeBody, map_bind]
  refine nextBodyItem_advances.take_bind_congr fun taken => ?_
  obtain ⟨item, afterItem, h₁⟩ := taken
  dsimp only [Taken.pair]
  cases item with
  | close => rfl
  | members members =>
    dsimp only
    rw [map_bind, readBody, bind_map_left]
    rfl
  | type header =>
    dsimp only
    rw [map_bind, readBody, bind_map_left]
    refine bind_congr fun body => ?_
    dsimp only [Taken.pair]
    rw [map_bind, readBody, bind_map_left]
    rfl
  | extension =>
    dsimp only
    rw [map_bind, readBody, bind_map_left]
    refine bind_congr fun body => ?_
    dsimp only [Taken.pair]
    rw [map_bind, readBody, bind_map_left]
    rfl

theorem readBody_advances : Advances readBody := by
  intro tokens members rest h
  rw [readBody] at h
  cases hbody : takeBody tokens with
  | error failure =>
    rw [hbody] at h
    cases h
  | ok taken =>
    rw [hbody] at h
    cases h
    exact taken.proper

/-! ## Sources -/

def skipImport (tokens : List Token) : Except Failure (List Token) := do
  let (_, afterName) ← readIdentifier tokens
  return (splitDottedTail afterName).2

theorem skipImport_suffix {tokens rest : List Token} (h : skipImport tokens = .ok rest) :
    rest <:+ tokens := by
  obtain ⟨⟨name, afterName⟩, hname, h⟩ := bind_eq_ok_iff.mp h
  cases h
  exact (splitDottedTail_suffix afterName).trans (readIdentifier_advances hname).suffix

/-- The declarations that start with the given token, after its heading. A free function
or variable must have a correct form but declares nothing. -/
def readSourceItem (heading : Heading) (token : Token) : Reader (List Decl) := fun after =>
  if !token.isIdentifier then return ([], after)
  else if token.text == "extension" then do
    let (header, body) ← readExtensionHeader after
    let (members, rest) ← readBody body
    return ([.extension { header with members }], rest)
  else if token.text == "typealias" then do
    let (decl, rest) ← readTypealias heading after
    return ([.typealias decl], rest)
  else if token.text == "import" then do
    let rest ← skipImport after
    return ([], rest)
  else if token.text == "func" || token.text == "init" then do
    let (_, rest) ← readFunction heading.isStatic token after
    return ([], rest)
  else if token.text == "var" || token.text == "let" then do
    let (_, rest) ← readProperties heading (token.text == "let") after
    return ([], rest)
  else
    match DeclKind.ofKeyword? token.text with
    | some kind => do
      let (header, body) ← readTypeHeader heading kind after
      let (members, rest) ← readBody body
      return ([.type { header with members }], rest)
    | none => return ([], after)

theorem readSourceItem_suffix {heading : Heading} {token : Token} {after rest : List Token}
    {decls : List Decl} (h : readSourceItem heading token after = .ok (decls, rest)) :
    rest <:+ after := by
  unfold readSourceItem at h
  split at h
  · cases h
    exact List.suffix_refl _
  split at h
  · obtain ⟨⟨header, body⟩, hheader, h⟩ := bind_eq_ok_iff.mp h
    obtain ⟨⟨members, rest'⟩, hbody, h⟩ := bind_eq_ok_iff.mp h
    cases h
    exact ((readBody_advances hbody).trans (readExtensionHeader_advances hheader)).suffix
  split at h
  · obtain ⟨⟨decl, rest'⟩, hdecl, h⟩ := bind_eq_ok_iff.mp h
    cases h
    exact (readTypealias_advances heading hdecl).suffix
  split at h
  · obtain ⟨rest', himport, h⟩ := bind_eq_ok_iff.mp h
    cases h
    exact skipImport_suffix himport
  split at h
  · obtain ⟨⟨function, rest'⟩, hfunction, h⟩ := bind_eq_ok_iff.mp h
    cases h
    exact readFunction_suffix hfunction
  split at h
  · obtain ⟨⟨properties, rest'⟩, hproperties, h⟩ := bind_eq_ok_iff.mp h
    cases h
    exact (readProperties_advances heading _ hproperties).suffix
  split at h
  · next kind _ =>
    obtain ⟨⟨header, body⟩, hheader, h⟩ := bind_eq_ok_iff.mp h
    obtain ⟨⟨members, rest'⟩, hbody, h⟩ := bind_eq_ok_iff.mp h
    cases h
    exact ((readBody_advances hbody).trans (readTypeHeader_advances heading kind hheader)).suffix
  · cases h
    exact List.suffix_refl _

def nextDecls? (tokens : List Token) : Except Failure (Option (List Decl × List Token)) := do
  let (heading, afterHeading) ← readHeading tokens
  match afterHeading with
  | [] => return none
  | token :: after => some <$> readSourceItem heading token after

theorem nextDecls?_properSuffix {tokens rest : List Token} {decls : List Decl}
    (h : nextDecls? tokens = .ok (some (decls, rest))) : ProperSuffix rest tokens := by
  obtain ⟨⟨heading, afterHeading⟩, hheading, h⟩ := bind_eq_ok_iff.mp h
  cases afterHeading with
  | nil => cases h
  | cons token after =>
    dsimp only at h
    cases hitem : readSourceItem heading token after with
    | error failure =>
      rw [hitem] at h
      cases h
    | ok found =>
      rw [hitem] at h
      cases h
      exact (ProperSuffix.of_suffix (readSourceItem_suffix hitem)).trans_suffix
        (readHeading_suffix hheading)

def readDecls (tokens : List Token) : Except Failure (List Decl) := do
  match ← attach (nextDecls? tokens) with
  | ⟨none, _⟩ => return []
  | ⟨some (decls, rest), _hdecls⟩ => return decls ++ (← readDecls rest)
termination_by tokens.length
decreasing_by exact (nextDecls?_properSuffix _hdecls).shorter

/-- What `readDecls` does, without the evidence of progress. -/
theorem readDecls_eq (tokens : List Token) :
    readDecls tokens = do
      match ← nextDecls? tokens with
      | none => return []
      | some (decls, rest) => return decls ++ (← readDecls rest) := by
  rw [readDecls]
  refine attach_bind_congr fun found _ => ?_
  cases found with
  | none => rfl
  | some next => rfl

/-- The declarations that a stream of tokens holds. A failure has the position of the token
at which it happened, or of the end. -/
def parseTokens (stream : TokenStream) : Except SyntaxError (List Decl) :=
  (readDecls stream.tokens).mapError fun failure =>
    ⟨failure.fault, (failure.rest.head?.map Token.position).getD stream.stop⟩

def parse (text : String) : Except SyntaxError (List Decl) :=
  (tokenize text).bind parseTokens

end WireSchema.Swift
