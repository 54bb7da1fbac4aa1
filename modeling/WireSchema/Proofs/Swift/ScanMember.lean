import WireSchema.Proofs.Swift.ScanType
import WireSchema.Swift.Parser.Member

/-!
# The courses of headings and members

One scanner for each of these readers. A keyword, which the readers find passed, is passed inside
of the call that reads what it declares.
-/

namespace WireSchema.Swift

open Outcome (bind_eq_ok_iff)
open Scanner

variable {rank : Nat} {α : Type} {start : List Token}

/-! ## Lists -/

/-- One value; the loop goes on behind a comma. -/
def listPass (item : Scanner rank α) (_ : Unit) : Scanner rank (Pass Unit α (List α)) := do
  let value ← item
  if ← eat "," then return .more value ()
  else return .done [value]

theorem read_listPass (item : Scanner rank α) (start : List Token) :
    (listPass item ()).read start = do
      let (value, after) ← item.read start
      match passWord? "," after with
      | some more => return (.more value (), more)
      | none => return (.done [value], after) := by
  rw [listPass, read_bind]
  refine bind_congr fun found => ?_
  obtain ⟨value, after⟩ := found
  dsimp only
  rw [read_eat_bind]
  cases passWord? "," after with
  | none => rfl
  | some more => rfl

theorem moves_listPass (item : Scanner rank α) (state : Unit) (start : List Token) :
    Moves ((listPass item state).read start) start := by
  intro value next rest h
  rw [read_listPass] at h
  obtain ⟨⟨value', after⟩, hitem, h⟩ := bind_eq_ok_iff.mp h
  dsimp only at h
  split at h
  · next more hcomma =>
    cases h
    exact (passWord?_properSuffix hcomma).trans_suffix (Scan.suffix_of_ok hitem)
  · cases h

def scanList (item : Scanner rank α) : Scanner rank (List α) :=
  loop (listPass item) (moves_listPass item) List.cons ()

theorem read_scanList {item : Scanner rank α} {read : Reader α} (advances : Advances read)
    (hitem : item.read = read) : (scanList item).read = readList read advances := by
  refine read_loop (fun _ => readList read advances) ?_ ()
  intro state start
  rw [read_listPass, hitem, readList_eq, bind_assoc]
  refine bind_congr fun found => ?_
  obtain ⟨value, after⟩ := found
  dsimp only
  cases passWord? "," after with
  | none => rfl
  | some more =>
    change _ = _ <$> readList read advances more
    dsimp only
    cases readList read advances more with
    | error failure => rfl
    | ok later => rfl

/-! ## Headings -/

def scanAttributeArguments : Scanner (rank + 1) (List String) := do
  if ← look (wordNext · "(") then
    let group ← scanGroup "(" ")"
    return group.inner.map Token.text
  else return []

theorem read_scanAttributeArguments :
    (scanAttributeArguments : Scanner (rank + 1) (List String)).read =
      readAttributeArguments := by
  funext start
  rw [scanAttributeArguments, read_look_bind, readAttributeArguments, read_ite, read_bind,
    read_scanGroup]
  rfl

def nameBehind? (tokens : List Token) : Option Token :=
  (tokens.drop 1).head?.filter Token.isIdentifier

theorem steps_dropModifierArgument (start : List Token) :
    Steps start (dropModifierArgument start) := by
  rw [dropModifierArgument.eq_def]
  split
  · split
    · exact ⟨3, Nat.le_refl 3, rfl⟩
    · exact .refl _
  · exact .refl _

def headingPass (_ : Unit) : Scanner (rank + 1) (Pass Unit HeadingPart Heading) := do
  match ← peek with
  | none => return .done .empty
  | some token =>
    if token.kind == .doc then
      advance
      return .more (.doc token.text) ()
    else if token.isWord "@" then
      match ← look nameBehind? with
      | none => return .done .empty
      | some name =>
        advance
        advance
        let arguments ← scanAttributeArguments
        return .more (.marker ⟨name.text, arguments⟩) ()
    else if token.isIdentifier && modifiers.contains token.text then
      advance
      split (fun tokens => ((), dropModifierArgument tokens)) steps_dropModifierArgument
      return .more (.modifier (token.text == "static")) ()
    else
      let behind ← look fun tokens => headText (tokens.drop 1)
      if token.isWord "class" && classModified.contains behind then
        advance
        return .more (.modifier true) ()
      else return .done .empty

theorem read_headingPass (start : List Token) :
    (headingPass () : Scanner (rank + 1) _).read start = do
      match ← readHeadingPart? start with
      | none => return (.done .empty, start)
      | some (part, after) => return (.more part (), after) := by
  cases start with
  | nil => rfl
  | cons token after =>
    rw [headingPass, read_peek_bind_cons, readHeadingPart?]
    dsimp only
    rw [read_ite]
    split
    · rfl
    · rw [read_ite]
      split
      · rw [read_look_bind]
        cases after with
        | nil => rfl
        | cons name afterName =>
          rw [readAttribute?]
          cases hname : name.isIdentifier with
          | false =>
            have hbehind : nameBehind? (token :: name :: afterName) = none := by
              simp [nameBehind?, hname]
            rw [hbehind]
            rfl
          | true =>
            have hbehind : nameBehind? (token :: name :: afterName) = some name := by
              simp [nameBehind?, hname]
            rw [hbehind]
            change (scanAttributeArguments >>= _).read afterName = _
            rw [read_bind, read_scanAttributeArguments]
            cases readAttributeArguments afterName with
            | error failure => rfl
            | ok arguments => rfl
      · rw [read_ite]
        split
        · rfl
        · rw [read_look_bind, read_ite, List.drop_succ_cons, List.drop_zero]
          split
          · rfl
          · rfl

theorem moves_headingPass (state : Unit) (start : List Token) :
    Moves ((headingPass state : Scanner (rank + 1) _).read start) start := by
  intro part next rest h
  rw [read_headingPass] at h
  obtain ⟨found, hfound, h⟩ := bind_eq_ok_iff.mp h
  cases found with
  | none => cases h
  | some found =>
    cases h
    exact readHeadingPart?_properSuffix hfound

def scanHeading : Scanner (rank + 2) Heading :=
  call (loop headingPass moves_headingPass (fun part heading => heading.withPart part) ())

theorem read_scanHeading : (scanHeading : Scanner (rank + 2) Heading).read = readHeading := by
  refine read_loop (fun _ => readHeading) ?_ ()
  intro state start
  rw [read_headingPass, readHeading_eq, bind_assoc]
  refine bind_congr fun found => ?_
  cases found with
  | none => rfl
  | some found =>
    change _ = _ <$> readHeading found.2
    dsimp only
    cases readHeading found.2 with
    | error failure => rfl
    | ok later => rfl

/-! ## Enum cases -/

theorem steps_splitLabel (start : List Token) : Steps start (splitLabel start).2 := by
  rw [splitLabel.eq_def]
  split
  · next first second rest =>
    split
    · exact ⟨2, by omega, rfl⟩
    · split
      · exact ⟨3, Nat.le_refl 3, rfl⟩
      · exact .refl _
  · exact .refl _

def scanAssociatedValue : Scanner (rank + 3) AssociatedValue := do
  let label ← split splitLabel steps_splitLabel
  let type ← scanTypeText
  let _ ← scanAssignment
  return ⟨label.filter (· != "_"), type⟩

theorem read_scanAssociatedValue :
    (scanAssociatedValue : Scanner (rank + 3) AssociatedValue).read = readAssociatedValue := by
  funext start
  rw [scanAssociatedValue, read_split_bind, read_bind, read_scanTypeText]
  refine bind_congr fun found => ?_
  exact read_bind_of_ok read_scanAssignment

def scanPayload : Scanner (rank + 4) (List AssociatedValue) := do
  if ← look (wordNext · "(") then
    call do
      let _ ← word "("
      if ← eat ")" then return []
      else
        let values ← scanList scanAssociatedValue
        let _ ← word ")"
        return values
  else return []

theorem read_scanPayload :
    (scanPayload : Scanner (rank + 4) (List AssociatedValue)).read = readPayload := by
  funext start
  rw [scanPayload, read_look_bind, readPayload]
  cases start with
  | nil => rfl
  | cons token inside =>
    rw [passWord?, read_ite, read_call]
    by_cases hopen : token.isWord "("
    · rw [if_pos hopen, if_pos (show wordNext (token :: inside) "(" = true from hopen)]
      have hword : (word "(" : Scanner (rank + 3) Token).read (token :: inside) =
          .ok (token, inside) := by
        rw [read_word, readWord, if_pos hopen]
      rw [read_bind_of_ok hword, read_eat_bind]
      dsimp only
      cases passWord? ")" inside with
      | some rest => rfl
      | none =>
        change (scanList scanAssociatedValue >>= _).read inside = _
        rw [read_bind, read_scanList readAssociatedValue_advances read_scanAssociatedValue]
        refine bind_congr fun values => ?_
        rw [read_bind, read_word]
        rfl
    · rw [if_neg hopen, if_neg (show ¬wordNext (token :: inside) "(" = true from hopen)]
      rfl

theorem steps_splitRawLiteral (start : List Token) : Steps start (splitRawLiteral start).2 := by
  cases start with
  | nil => exact .refl _
  | cons token after =>
    rw [splitRawLiteral]
    split
    · exact .tail token after
    · split
      · exact ⟨2, by omega, rfl⟩
      · split
        · exact .tail token after
        · exact .tail token after

def scanRawValue : Scanner (rank + 1) (Option RawLiteral) := do
  if ← eat "=" then
    let value ← call (split splitRawLiteral steps_splitRawLiteral)
    return some value
  else return none

theorem read_scanRawValue :
    (scanRawValue : Scanner (rank + 1) (Option RawLiteral)).read start =
      .ok (splitRawValue start) := by
  rw [scanRawValue, read_eat_bind, splitRawValue]
  cases passWord? "=" start with
  | none => rfl
  | some after => rfl

def scanCase (docs : List String) : Scanner (rank + 4) EnumCase := do
  let name ← identifier
  let associated ← scanPayload
  let rawValue ← scanRawValue
  return ⟨name.text, name.position, docs, rawValue, associated⟩

theorem read_scanCase (docs : List String) :
    (scanCase docs : Scanner (rank + 4) EnumCase).read = readCase docs := by
  funext start
  rw [scanCase, read_bind, read_identifier, readCase]
  refine bind_congr fun name => ?_
  rw [read_bind, read_scanPayload]
  refine bind_congr fun associated => ?_
  exact read_bind_of_ok read_scanRawValue

def scanCases (docs : List String) : Scanner (rank + 5) (List EnumCase) :=
  call do
    advance
    scanList (scanCase docs)

theorem read_scanCases (docs : List String) (keyword : Token) (after : List Token) :
    (scanCases docs : Scanner (rank + 5) _).read (keyword :: after) = readCases docs after := by
  rw [scanCases, read_call, read_advance_bind,
    read_scanList (readCase_advances docs) (read_scanCase docs)]
  rfl

/-! ## Properties -/

def scanTupleProperty : Scanner (rank + 3) Unit := do
  let _ ← scanGroup "(" ")"
  let _ ← scanTypeClause
  let _ ← scanAssignment

theorem read_scanTupleProperty :
    (scanTupleProperty : Scanner (rank + 3) Unit).read start =
      (fun rest => ((), rest)) <$> skipTupleProperty start := by
  rw [scanTupleProperty, read_bind, read_scanGroup, skipTupleProperty, map_bind]
  refine bind_congr fun pattern => ?_
  rw [read_bind, read_scanTypeClause, map_bind]
  refine bind_congr fun type => ?_
  exact read_bind_of_ok read_scanAssignment

def scanNamedProperty (heading : Heading) (isLet : Bool) : Scanner (rank + 3) PropertyDecl := do
  let name ← identifier
  let type ← scanTypeClause
  let hasInitializer ← scanAssignment
  let isComputed ← look computesValue
  scanGroup? "\x7b" "\x7d"
  return { name := name.text, position := name.position, docs := heading.docs, type
           isStatic := heading.isStatic, isComputed, isLet, hasInitializer }

theorem read_scanNamedProperty (heading : Heading) (isLet : Bool) :
    (scanNamedProperty heading isLet : Scanner (rank + 3) PropertyDecl).read =
      readNamedProperty heading isLet := by
  funext start
  rw [scanNamedProperty, read_bind, read_identifier, readNamedProperty]
  refine bind_congr fun name => ?_
  rw [read_bind, read_scanTypeClause]
  refine bind_congr fun type => ?_
  rw [read_bind_of_ok read_scanAssignment, read_look_bind, read_bind, read_scanGroup?,
    bind_map_left]
  rfl

def scanProperty (heading : Heading) (isLet : Bool) :
    Scanner (rank + 3) (Option PropertyDecl) := do
  if ← look (wordNext · "(") then
    scanTupleProperty
    return none
  else
    let property ← scanNamedProperty heading isLet
    return some property

theorem read_scanProperty (heading : Heading) (isLet : Bool) :
    (scanProperty heading isLet : Scanner (rank + 3) _).read = readProperty heading isLet := by
  funext start
  rw [scanProperty, read_look_bind, readProperty, read_ite, read_bind, read_scanTupleProperty,
    read_bind, read_scanNamedProperty, bind_map_left]
  rfl

def scanProperties (heading : Heading) (isLet : Bool) : Scanner (rank + 4) (List PropertyDecl) :=
  call do
    advance
    let properties ← scanList (scanProperty heading isLet)
    return properties.filterMap id

theorem read_scanProperties (heading : Heading) (isLet : Bool) (keyword : Token)
    (after : List Token) :
    (scanProperties heading isLet : Scanner (rank + 4) _).read (keyword :: after) =
      readProperties heading isLet after := by
  rw [scanProperties, read_call, read_advance_bind, read_bind,
    read_scanList (readProperty_advances heading isLet) (read_scanProperty heading isLet)]
  rfl

/-! ## Functions -/

theorem steps_splitFunctionName (keyword : Token) (start : List Token) :
    Steps start (splitFunctionName keyword start).2 := by
  rw [splitFunctionName]
  split
  · exact ⟨1, by omega, rfl⟩
  · exact .refl _

theorem steps_dropInitMark (name : String) (start : List Token) :
    Steps start (dropInitMark name start) := by
  rw [dropInitMark]
  split
  · exact ⟨1, by omega, rfl⟩
  · exact .refl _

def functionBodyPass (afterDot : Bool) : Scanner (rank + 1) (Pass Bool Unit (List Token)) := do
  match ← peek with
  | none => return .done []
  | some token =>
    if token.isWord "\x7b" then
      let block ← scanGroup "\x7b" "\x7d"
      return .done block.inner
    else if token.isWord "\x7d" || isDeclKeyword afterDot token then return .done []
    else
      match signatureGroup? token with
      | some (opener, closer) =>
        let _ ← scanGroup opener closer
        return .more () false
      | none =>
        advance
        return .more () (token.isWord ".")

theorem read_functionBodyPass (afterDot : Bool) (token : Token) (after : List Token) :
    (functionBodyPass afterDot : Scanner (rank + 1) _).read (token :: after) =
      if token.isWord "\x7b" then do
        let (block, rest) ← readGroup "\x7b" "\x7d" (token :: after)
        return (.done block.inner, rest)
      else if token.isWord "\x7d" || isDeclKeyword afterDot token then
        .ok (.done [], token :: after)
      else
        match signatureGroup? token with
        | some (opener, closer) => do
          let (_, more) ← readGroup opener closer (token :: after)
          return (.more () false, more)
        | none => .ok (.more () (token.isWord "."), after) := by
  rw [functionBodyPass, read_peek_bind_cons]
  dsimp only
  rw [read_ite, read_ite, read_bind, read_scanGroup]
  congr 2
  cases signatureGroup? token with
  | none => rfl
  | some brackets =>
    dsimp only
    rw [read_bind, read_scanGroup]
    rfl

theorem moves_functionBodyPass (afterDot : Bool) (start : List Token) :
    Moves ((functionBodyPass afterDot : Scanner (rank + 1) _).read start) start := by
  intro item next rest h
  cases start with
  | nil => cases h
  | cons token after =>
    rw [read_functionBodyPass] at h
    split at h
    · obtain ⟨block, -, h⟩ := bind_eq_ok_iff.mp h
      cases h
    · split at h
      · cases h
      · split at h
        · obtain ⟨group, hgroup, h⟩ := bind_eq_ok_iff.mp h
          cases h
          exact readGroup_advances _ _ hgroup
        · cases h
          exact .tail

theorem read_functionBody (afterDot : Bool) :
    (loop functionBodyPass moves_functionBodyPass (fun _ last => last) afterDot :
      Scanner (rank + 1) (List Token)).read = readFunctionBody afterDot := by
  refine read_loop readFunctionBody ?_ afterDot
  intro afterDot start
  cases start with
  | nil =>
    rw [readFunctionBody]
    rfl
  | cons token after =>
    rw [read_functionBodyPass, readFunctionBody_cons]
    split
    · rw [bind_assoc]
      rfl
    · split
      · rfl
      · cases signatureGroup? token with
        | none => exact (Pass.goOn_more readFunctionBody ()).symm
        | some brackets =>
          dsimp only
          rw [bind_assoc]
          exact bind_congr fun group => (Pass.goOn_more readFunctionBody ()).symm

def scanFunction (isStatic : Bool) (keyword : Token) : Scanner (rank + 2) FunctionDecl :=
  call do
    advance
    let name? ← split (splitFunctionName keyword) (steps_splitFunctionName keyword)
    let name := (name?.map Token.text).getD ""
    split (fun tokens => ((), dropInitMark name tokens)) (steps_dropInitMark name)
    let isGeneric ← look (wordNext · "<")
    scanGroup? "<" ">"
    let hasParameters ← look (wordNext · "(")
    let firstLabel ← look firstLabel?
    scanGroup? "(" ")"
    let afterDot := !isGeneric && !hasParameters && name?.any (·.isWord ".")
    let body ← loop functionBodyPass moves_functionBodyPass (fun _ last => last) afterDot
    return ⟨name, keyword.position, isStatic, firstLabel, body⟩

theorem read_scanFunction (isStatic : Bool) (keyword : Token) (after : List Token) :
    (scanFunction isStatic keyword : Scanner (rank + 2) _).read (keyword :: after) =
      readFunction isStatic keyword after := by
  rw [scanFunction, read_call, read_advance_bind, read_split_bind, readFunction]
  dsimp only
  rw [read_split_bind, read_look_bind, read_bind, read_scanGroup?, bind_map_left]
  refine bind_congr fun afterGenerics => ?_
  rw [read_look_bind, read_look_bind, read_bind, read_scanGroup?, bind_map_left]
  refine bind_congr fun afterParameters => ?_
  rw [read_bind, read_functionBody]
  rfl

/-! ## Type aliases -/

def scanTypealias (heading : Heading) : Scanner (rank + 4) AliasDecl :=
  call do
    advance
    let name ← identifier
    let isGeneric ← look (wordNext · "<")
    scanGroup? "<" ">"
    let _ ← word "="
    let target ← scanTypeText
    return { name := name.text, position := name.position, docs := heading.docs
             attributes := heading.attributes, isGeneric, target }

theorem read_scanTypealias (heading : Heading) (keyword : Token) (after : List Token) :
    (scanTypealias heading : Scanner (rank + 4) _).read (keyword :: after) =
      readTypealias heading after := by
  rw [scanTypealias, read_call, read_advance_bind, read_bind, read_identifier, readTypealias]
  refine bind_congr fun name => ?_
  rw [read_look_bind, read_bind, read_scanGroup?, bind_map_left]
  refine bind_congr fun afterGenerics => ?_
  rw [read_bind, read_word]
  refine bind_congr fun equals => ?_
  rw [read_bind, read_scanTypeText]
  rfl

end WireSchema.Swift
