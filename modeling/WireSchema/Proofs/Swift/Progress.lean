import WireSchema.Proofs.Swift.ScanMember
import WireSchema.Swift.Parser.Source

/-!
# The course of the parser

The scanner of a whole source reads what the parser reads. `parseTokens_progresses` says what its
course tells of the parser: the cursor only moves forward, no pass of a loop that is not the last
one leaves it where it was, and the calls that are open at the same time are not many.
-/

namespace WireSchema.Swift

open Outcome (bind_eq_ok_iff)
open Scanner

variable {rank : Nat} {start : List Token}

/-! ## Headers -/

def scanInheritance : Scanner (rank + 4) (List String) := do
  if ← eat ":" then call (scanList scanTypeText)
  else return []

theorem read_scanInheritance :
    (scanInheritance : Scanner (rank + 4) (List String)).read = readInheritance := by
  funext start
  rw [scanInheritance, read_eat_bind, readInheritance]
  cases passWord? ":" start with
  | none => rfl
  | some after =>
    exact congrFun (read_scanList readTypeText_advances read_scanTypeText) after

def scanConstraints : Scanner (rank + 1) Unit :=
  call do
    if ← look (wordNext · "where") then
      walkWhile fun token => !token.isWord "\x7b"

theorem read_scanConstraints :
    (scanConstraints : Scanner (rank + 1) Unit).read start =
      .ok ((), dropConstraints start) := by
  rw [scanConstraints, read_call, read_look_bind, read_ite, dropConstraints, read_walkWhile]
  split
  · rfl
  · rfl

def scanBodyStart : Scanner (rank + 4) (List String) := do
  let inherited ← scanInheritance
  scanConstraints
  let _ ← word "\x7b"
  return inherited

theorem read_scanBodyStart :
    (scanBodyStart : Scanner (rank + 4) (List String)).read = readBodyStart := by
  funext start
  rw [scanBodyStart, read_bind, read_scanInheritance, readBodyStart]
  refine bind_congr fun inherited => ?_
  rw [read_bind_of_ok read_scanConstraints, read_bind, read_word]
  rfl

def scanTypeHeader (heading : Heading) (kind : DeclKind) : Scanner (rank + 4) TypeHeader := do
  advance
  let name ← identifier
  let isGeneric ← look (wordNext · "<")
  scanGroup? "<" ">"
  let inherited ← scanBodyStart
  return { kind, name := name.text, position := name.position, docs := heading.docs
           attributes := heading.attributes, isGeneric, inherited }

theorem read_scanTypeHeader (heading : Heading) (kind : DeclKind) (keyword : Token)
    (after : List Token) :
    (scanTypeHeader heading kind : Scanner (rank + 4) _).read (keyword :: after) =
      readTypeHeader heading kind after := by
  rw [scanTypeHeader, read_advance_bind, read_bind, read_identifier, readTypeHeader]
  refine bind_congr fun name => ?_
  rw [read_look_bind, read_bind, read_scanGroup?, bind_map_left]
  refine bind_congr fun afterGenerics => ?_
  rw [read_bind, read_scanBodyStart]
  rfl

def splitDottedPart? (_ : Unit) : List Token → Option (String × Unit × List Token)
  | dot :: part :: rest =>
    if dot.isWord "." && part.isIdentifier then some ("." ++ part.text, (), rest) else none
  | _ => none

theorem splits_splitDottedPart? : Splits splitDottedPart? := by
  intro state start item next rest h
  rcases start with _ | ⟨dot, _ | ⟨part, after⟩⟩
  · cases h
  · cases h
  · rw [splitDottedPart?] at h
    split at h
    · cases h
      exact ⟨⟨2, by omega, rfl⟩, ProperSuffix.tail.cons⟩
    · cases h

def scanDottedTail : Scanner rank String :=
  splitEach splitDottedPart? splits_splitDottedPart? (fun part tail => part ++ tail) "" ()

theorem read_scanDottedTail :
    (scanDottedTail : Scanner rank String).read start = .ok (splitDottedTail start) := by
  refine read_splitEach (fun _ => splitDottedTail) ?_ ()
  intro state start
  rcases start with _ | ⟨dot, _ | ⟨part, after⟩⟩
  · rfl
  · rfl
  · rw [splitDottedTail, splitDottedPart?]
    split
    · rfl
    · rfl

def scanExtensionHeader : Scanner (rank + 4) ExtensionHeader := do
  advance
  let name ← identifier
  let tail ← scanDottedTail
  let inherited ← scanBodyStart
  return { name := name.text ++ tail, position := name.position, inherited }

theorem read_scanExtensionHeader (keyword : Token) (after : List Token) :
    (scanExtensionHeader : Scanner (rank + 4) _).read (keyword :: after) =
      readExtensionHeader after := by
  rw [scanExtensionHeader, read_advance_bind, read_bind, read_identifier, readExtensionHeader]
  refine bind_congr fun name => ?_
  rw [read_bind_of_ok read_scanDottedTail, read_bind, read_scanBodyStart]
  rfl

/-! ## Bodies -/

def scanKeywordItem (heading : Heading) (token : Token) : Scanner (rank + 5) BodyItem :=
  if token.text == "case" then do
    let cases ← scanCases heading.docs
    return .members [.cases cases]
  else if token.text == "var" || token.text == "let" then do
    let properties ← scanProperties heading (token.text == "let")
    return .members (properties.map .property)
  else if token.text == "func" || token.text == "init" then do
    let function ← scanFunction heading.isStatic token
    return .members [.function function]
  else if token.text == "deinit" || token.text == "subscript" then do
    let _ ← scanFunction heading.isStatic token
    return .members []
  else if token.text == "typealias" then do
    let decl ← scanTypealias heading
    return .members [.typealias decl]
  else if token.text == "extension" then do
    let _ ← call scanExtensionHeader
    return .extension
  else
    match DeclKind.ofKeyword? token.text with
    | some kind => do
      let header ← call (scanTypeHeader heading kind)
      return .type header
    | none => do
      advance
      return .members []

theorem read_scanKeywordItem (heading : Heading) (token : Token) (after : List Token) :
    (scanKeywordItem heading token : Scanner (rank + 5) _).read (token :: after) =
      readKeywordItem heading token after := by
  rw [scanKeywordItem, readKeywordItem]
  simp only [read_ite, read_bind, read_call, read_scanCases, read_scanProperties,
    read_scanFunction, read_scanTypealias, read_scanExtensionHeader]
  cases DeclKind.ofKeyword? token.text with
  | none => rfl
  | some kind =>
    dsimp only
    rw [read_bind, read_call, read_scanTypeHeader]
    rfl

def scanBodyItem : Scanner (rank + 5) BodyItem := do
  let heading ← scanHeading
  match ← peek with
  | none => fail (.unexpected "")
  | some token =>
    if token.isWord "\x7d" then
      advance
      return .close
    else if token.isIdentifier then scanKeywordItem heading token
    else
      advance
      return .members []

theorem read_scanBodyItem : (scanBodyItem : Scanner (rank + 5) BodyItem).read = nextBodyItem := by
  funext start
  rw [scanBodyItem, read_bind, read_scanHeading, nextBodyItem]
  refine bind_congr fun found => ?_
  obtain ⟨heading, after⟩ := found
  cases after with
  | nil => rfl
  | cons token later =>
    dsimp only
    rw [read_peek_bind_cons, readBodyItem]
    dsimp only
    rw [read_ite, read_ite, read_scanKeywordItem]
    rfl

theorem scanBodyItem_advances {item : BodyItem} {rest : List Token}
    (h : (scanBodyItem start : Scan (rank + 5) BodyItem start).outcome = .ok (item, rest)) :
    ProperSuffix rest start :=
  nextBodyItem_advances ((congrFun read_scanBodyItem start).symm.trans h)

section

variable {whole : List Token}

/-- One item. The `body` of a type or of an extension is scanned in the call that has read what
stands before it. -/
def bodyPass (body : ∀ inner, inner.length < whole.length → Scan (rank + 6) (List Member) inner)
    (start : List Token) (h : start <:+ whole) :
    Scan (rank + 5) (Pass Unit (List Member) (List Member)) start :=
  Scan.andThen (scanBodyItem start)
    (fun item after hitem =>
      have hafter := ((scanBodyItem_advances hitem).trans_suffix h).shorter
      match item with
      | .close => .pure (.done []) after
      | .members members => .pure (.more members ()) after
      | .type header => (body after hafter).call.map fun members => .more [.type header members] ()
      | .extension => (body after hafter).call.map fun _ => .more [] ())
    fun _ _ hitem => (.of_properSuffix (scanBodyItem_advances hitem) (Nat.le_refl _))

variable {body : ∀ inner, inner.length < whole.length → Scan (rank + 6) (List Member) inner}

theorem moves_bodyPass (start : List Token) (h : start <:+ whole) :
    Moves (bodyPass body start h).outcome start := by
  intro members next rest hpass
  exact Scan.andThen_advances (fun item after hitem => scanBodyItem_advances hitem) hpass

def passOfItem (found : BodyItem × List Token) :
    Except Failure (Pass Unit (List Member) (List Member) × List Token) :=
  match found.1 with
  | .close => .ok (.done [], found.2)
  | .members members => .ok (.more members (), found.2)
  | .type header =>
    (fun inner => (.more [.type header inner.1] (), inner.2)) <$> readBody found.2
  | .extension => (fun inner => (.more [] (), inner.2)) <$> readBody found.2

theorem outcome_bodyPass (hbody : ∀ inner h, (body inner h).outcome = readBody inner)
    (start : List Token) (h : start <:+ whole) :
    (bodyPass body start h).outcome = nextBodyItem start >>= passOfItem := by
  refine (Scan.outcome_andThen passOfItem fun item after hitem => ?_).trans ?_
  · cases item with
    | close => rfl
    | members members => rfl
    | type header =>
      dsimp only
      rw [Scan.outcome_map, Scan.outcome_call, hbody]
      rfl
    | extension =>
      dsimp only
      rw [Scan.outcome_map, Scan.outcome_call, hbody]
      rfl
  · exact congrArg (· >>= passOfItem) (congrFun read_scanBodyItem start)

theorem readBody_eq_goOn (start : List Token) :
    readBody start =
      nextBodyItem start >>= passOfItem >>= Pass.goOn (· ++ ·) fun _ => readBody := by
  rw [readBody_eq, bind_assoc]
  refine bind_congr fun found => ?_
  obtain ⟨item, after⟩ := found
  cases item with
  | close => rfl
  | members members => exact bind_pure_comp _ _
  | type header =>
    dsimp only [passOfItem]
    rw [bind_map_left]
    exact bind_congr fun inner => bind_pure_comp _ _
  | extension =>
    dsimp only [passOfItem]
    rw [bind_map_left]
    exact bind_congr fun inner => bind_pure_comp _ _

end

/-- Each body inside of the whole one is shorter than the whole one, wherever in it it starts. -/
def scanBodyFrom (whole : List Token) : Scan (rank + 6) (List Member) whole :=
  let passes : Loop (rank + 5) Unit (List Member) (List Member) whole :=
    { pass := fun _ => bodyPass fun inner _ => scanBodyFrom inner
      moves := fun _ => moves_bodyPass
      combine := (· ++ ·) }
  (passes.passes () whole (List.suffix_refl whole)).close.call
termination_by whole.length

theorem outcome_scanBodyFrom (whole : List Token) :
    (scanBodyFrom whole : Scan (rank + 6) (List Member) whole).outcome = readBody whole := by
  rw [scanBodyFrom, Scan.outcome_call, Passes.outcome_close]
  refine Loop.outcome_passes _ (fun _ => readBody) (fun _ start h => ?_) () whole _
  rw [outcome_bodyPass fun inner hinner => outcome_scanBodyFrom inner]
  exact readBody_eq_goOn start
termination_by whole.length

def scanBody : Scanner (rank + 6) (List Member) :=
  scanBodyFrom

theorem read_scanBody : (scanBody : Scanner (rank + 6) (List Member)).read = readBody :=
  funext outcome_scanBodyFrom

/-! ## Sources -/

def scanImport : Scanner rank Unit := do
  advance
  let _ ← identifier
  let _ ← scanDottedTail

theorem read_scanImport (keyword : Token) (after : List Token) :
    (scanImport : Scanner rank Unit).read (keyword :: after) =
      (fun rest => ((), rest)) <$> skipImport after := by
  rw [scanImport, read_advance_bind, read_bind, read_identifier, skipImport, map_bind]
  exact bind_congr fun name => read_bind_of_ok read_scanDottedTail

def scanSourceItem (heading : Heading) (token : Token) : Scanner (rank + 7) (List Decl) :=
  if !token.isIdentifier then do
    advance
    return []
  else if token.text == "extension" then
    call do
      let header ← scanExtensionHeader
      let members ← scanBody
      return [.extension { header with members }]
  else if token.text == "typealias" then do
    let decl ← scanTypealias heading
    return [.typealias decl]
  else if token.text == "import" then do
    scanImport
    return []
  else if token.text == "func" || token.text == "init" then do
    let _ ← scanFunction heading.isStatic token
    return []
  else if token.text == "var" || token.text == "let" then do
    let _ ← scanProperties heading (token.text == "let")
    return []
  else
    match DeclKind.ofKeyword? token.text with
    | some kind =>
      call do
        let header ← scanTypeHeader heading kind
        let members ← scanBody
        return [.type { header with members }]
    | none => do
      advance
      return []

theorem read_scanSourceItem (heading : Heading) (token : Token) (after : List Token) :
    (scanSourceItem heading token : Scanner (rank + 7) _).read (token :: after) =
      readSourceItem heading token after := by
  rw [scanSourceItem, readSourceItem]
  simp only [read_ite, read_bind, read_call, read_scanBody, read_scanTypealias, read_scanFunction,
    read_scanProperties, read_scanExtensionHeader, read_scanImport, bind_map_left]
  cases DeclKind.ofKeyword? token.text with
  | none => rfl
  | some kind =>
    dsimp only
    rw [read_call, read_bind, read_scanTypeHeader]
    simp only [read_bind, read_scanBody]
    rfl

def sourcePass (_ : Unit) : Scanner (rank + 7) (Pass Unit (List Decl) (List Decl)) := do
  let heading ← scanHeading
  match ← peek with
  | none => return .done []
  | some token =>
    let decls ← scanSourceItem heading token
    return .more decls ()

theorem read_sourcePass (start : List Token) :
    (sourcePass () : Scanner (rank + 7) _).read start = do
      match ← nextDecls? start with
      | none => return (.done [], [])
      | some (decls, rest) => return (.more decls (), rest) := by
  rw [sourcePass, read_bind, read_scanHeading, nextDecls?, bind_assoc]
  refine bind_congr fun found => ?_
  obtain ⟨heading, after⟩ := found
  cases after with
  | nil => rfl
  | cons token later =>
    dsimp only
    rw [read_peek_bind_cons, bind_map_left]
    dsimp only
    rw [read_bind, read_scanSourceItem]
    rfl

theorem moves_sourcePass (state : Unit) (start : List Token) :
    Moves ((sourcePass state : Scanner (rank + 7) _).read start) start := by
  intro decls next rest h
  rw [read_sourcePass] at h
  obtain ⟨found, hfound, h⟩ := bind_eq_ok_iff.mp h
  cases found with
  | none => cases h
  | some found =>
    cases h
    exact nextDecls?_properSuffix hfound

def scanSource : Scanner (rank + 8) (List Decl) :=
  call (loop sourcePass moves_sourcePass (· ++ ·) ())

/-- A source is read to its end. -/
theorem read_scanSource :
    (scanSource : Scanner (rank + 8) (List Decl)).read start =
      (fun decls => (decls, [])) <$> readDecls start := by
  refine congrFun (read_loop (fun _ start => (fun decls => (decls, [])) <$> readDecls start)
    (fun _ start => ?_) ()) start
  rw [read_sourcePass, readDecls_eq, map_bind, bind_assoc]
  refine bind_congr fun found => ?_
  cases found with
  | none => rfl
  | some found =>
    dsimp only
    rw [pure_bind, Pass.goOn]
    cases readDecls found.2 with
    | error failure => rfl
    | ok later => rfl

/-! ## The parser -/

def parserRun (stream : TokenStream) : Scan 8 (List Decl) stream.tokens :=
  scanSource stream.tokens

/-- A course that stays between the first of the tokens and their end. -/
structure Course.InBounds (tokens : List Token) (course : Course) : Prop where
  onward : course.visits.Pairwise fun earlier later => later.rest <:+ earlier.rest
  inside : ∀ visit ∈ course.visits, visit.rest <:+ tokens
  shallow : ∀ visit ∈ course.visits, visit.depth ≤ 2 * tokens.length + 8
  slices : ∀ slice ∈ course.slices, slice.stop <:+ slice.start ∧ slice.start <:+ tokens
  loops : ∀ starts ∈ course.loops, Forward starts ∧ starts.length ≤ tokens.length + 1

theorem Course.Within.inBounds {stop : List Token} {course : Course}
    (h : course.Within 8 start stop) : course.InBounds start where
  onward := h.leads.pairwise
  inside := fun visit hvisit => (h.leads.between hvisit).1
  shallow := by
    intro visit hvisit
    have hallows := h.shallow visit hvisit
    rw [Allows] at hallows
    omega
  slices := h.slices
  loops := by
    intro starts hstarts
    obtain ⟨hforward, hinside⟩ := h.loops starts hstarts
    exact ⟨hforward, hforward.length_le hinside⟩

/-- The parser ends with declarations, or with a fault that it found before one of the tokens or
at their end. The cursor gets there from the first token in single steps, within bounds: it never
moves back, what is cut out lies between two places that it passes, and each pass of a loop but the
last moves it forward. So no loop makes more passes than there are tokens and one more, and the
calls that are open at any place are at most two for each token and eight more. -/
theorem parseTokens_progresses (stream : TokenStream) :
    ((∃ decls, parseTokens stream = .ok decls ∧ (parserRun stream).outcome = .ok (decls, [])) ∨
      ∃ failure, (parserRun stream).outcome = .error failure ∧ failure.rest <:+ stream.tokens ∧
        parseTokens stream =
          .error ⟨failure.fault, (failure.rest.head?.map Token.position).getD stream.stop⟩) ∧
    Leads stream.tokens (parserRun stream).course.visits (stopOf (parserRun stream).outcome) ∧
    (parserRun stream).course.InBounds stream.tokens := by
  have hwithin := (parserRun stream).within
  refine ⟨?_, hwithin.leads, hwithin.inBounds⟩
  have hread : (parserRun stream).outcome =
      (fun decls => (decls, [])) <$> readDecls stream.tokens := read_scanSource
  have hsuffix := hwithin.leads.suffix
  rw [hread] at hsuffix ⊢
  rw [parseTokens]
  cases hdecls : readDecls stream.tokens with
  | ok decls => exact .inl ⟨decls, rfl, rfl⟩
  | error failure =>
    rw [hdecls] at hsuffix
    exact .inr ⟨failure, rfl, hsuffix, rfl⟩

def importTokens : List Token :=
  [⟨.identifier, "import", ⟨1, 1⟩⟩, ⟨.identifier, "a", ⟨1, 8⟩⟩, ⟨.punctuation, ".", ⟨1, 9⟩⟩,
    ⟨.identifier, "b", ⟨1, 10⟩⟩, ⟨.punctuation, ".", ⟨1, 11⟩⟩, ⟨.identifier, "c", ⟨1, 12⟩⟩]

-- How many tokens are left where the passes start. A loop is noted when it is left: first that over
-- the heading, then those over the parts of the name, over the next heading and over the source.
example : (parserRun ⟨importTokens, ⟨1, 13⟩⟩).course.loops.map (·.map List.length) =
    [[6], [4, 2, 0], [0], [6, 0]] := by
  decide +kernel

end WireSchema.Swift
