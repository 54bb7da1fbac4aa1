import WireSchema.Outcome
import WireSchema.ProperSuffix
import WireSchema.Text.Blank
import WireSchema.Text.Identifier
import WireSchema.TypeExpr.Basic

/-!
# Reading type expressions

The grammar is `Type ::= Base "?"*` with
`Base ::= list [ Type ] | map [ Type , Type ] | Name`. A name is an ASCII letter
or underscore followed by letters, digits, underscores and dots; white space may
stand between any two tokens. `TypeExpr.parse` splits the text into tokens, each
as long as possible, and then reads one type that must use them all.
-/

namespace WireSchema.TypeExpr

open Outcome (attach attach_bind_congr)

inductive Token where
  | name (text : String)
  | openBracket
  | closeBracket
  | comma
  | question
deriving DecidableEq, Repr

def Token.text : Token → String
  | name text => text
  | openBracket => "["
  | closeBracket => "]"
  | comma => ","
  | question => "?"

/-- Why a text is not a type expression; `source` is the whole text. -/
inductive Fault where
  | unexpected (found source : String)
  | expectedName (found source : String)
  | unexpectedEnd (source : String)
  | expectedToken (wanted found source : String)
  | missingToken (wanted source : String)
deriving DecidableEq, Repr

def Fault.message : Fault → String
  | unexpected found source => "unexpected \"" ++ found ++ "\" in \"" ++ source ++ "\""
  | expectedName found source =>
    "expected a type name but found \"" ++ found ++ "\" in \"" ++ source ++ "\""
  | unexpectedEnd source => "unexpected end of \"" ++ source ++ "\""
  | expectedToken wanted found source =>
    "expected \"" ++ wanted ++ "\" but found \"" ++ found ++ "\" in \"" ++ source ++ "\""
  | missingToken wanted source => "expected \"" ++ wanted ++ "\" at end of \"" ++ source ++ "\""

/-! ## Tokens -/

def isNameRest (c : Char) : Bool :=
  Text.isIdentRest c || c == '.'

def symbol? : Char → Option Token
  | '[' => some .openBracket
  | ']' => some .closeBracket
  | ',' => some .comma
  | '?' => some .question
  | _ => none

/-- May a token or white space start with this character? -/
def startsToken (c : Char) : Bool :=
  Text.isIdentStart c || (symbol? c).isSome || Text.isBlank c

/-- The token (or the white space, which is none) at the front, and what follows it. -/
def splitToken? : List Char → Option (Option Token × List Char)
  | [] => none
  | c :: rest =>
    if Text.isIdentStart c then
      some (some (.name (String.ofList (c :: rest.takeWhile isNameRest))),
        rest.dropWhile isNameRest)
    else
      match symbol? c with
      | some token => some (some token, rest)
      | none => if Text.isBlank c then some (none, rest.dropWhile Text.isBlank) else none

theorem dropWhile_length_le {α : Type} (p : α → Bool) (xs : List α) :
    (xs.dropWhile p).length ≤ xs.length :=
  (List.dropWhile_sublist p).length_le

theorem splitToken?_shorter {cs rest : List Char} {token : Option Token}
    (h : splitToken? cs = some (token, rest)) : rest.length < cs.length := by
  unfold splitToken? at h
  split at h
  · cases h
  · next c after =>
    have blanks := dropWhile_length_le Text.isBlank after
    have names := dropWhile_length_le isNameRest after
    split at h
    · cases h
      simp only [List.length_cons]
      omega
    · split at h
      · cases h
        simp
      · split at h
        · cases h
          simp only [List.length_cons]
          omega
        · cases h

def strayRun (cs : List Char) : List Char :=
  cs.takeWhile fun c => !startsToken c

/-- The tokens of a text, or the first run of characters that starts none. -/
def tokenize (cs : List Char) : Except (List Char) (List Token) :=
  match _step : splitToken? cs with
  | some (token, rest) =>
    match tokenize rest with
    | .ok tokens => .ok (token.toList ++ tokens)
    | .error stray => .error stray
  | none => if cs.isEmpty then .ok [] else .error (strayRun cs)
termination_by cs.length
decreasing_by exact splitToken?_shorter _step

/-! ## The grammar -/

def expect (source : String) (wanted : Token) : List Token → Except Fault (List Token)
  | [] => .error (.missingToken wanted.text source)
  | token :: rest =>
    if token = wanted then .ok rest
    else .error (.expectedToken wanted.text token.text source)

theorem expect_properSuffix {source : String} {wanted : Token} {tokens rest : List Token}
    (h : expect source wanted tokens = .ok rest) : ProperSuffix rest tokens := by
  cases tokens with
  | nil => cases h
  | cons token after =>
    rw [expect] at h
    by_cases hwanted : token = wanted
    · rw [if_pos hwanted] at h
      cases h
      exact ProperSuffix.tail
    · rw [if_neg hwanted] at h
      cases h

def ofName (name : String) : TypeExpr :=
  match Primitive.ofName? name with
  | some p => primitive p
  | none => custom name

/-- The type with the question marks after it taken in, and the tokens after those: any
number of them makes it optional once. -/
def closeType (base : TypeExpr) (after : List Token) : TypeExpr × List Token :=
  (if after.head? = some .question then base.asOptional else base,
    after.dropWhile (· = .question))

theorem closeType_suffix (base : TypeExpr) (after : List Token) :
    (closeType base after).2 <:+ after :=
  List.dropWhile_suffix _

theorem list_properSuffix {source : String} {element : TypeExpr} {opener bracket : Token}
    {inner afterElement after : List Token} (h₁ : ProperSuffix afterElement inner)
    (h₂ : expect source .closeBracket afterElement = .ok after) :
    ProperSuffix (closeType (.list element) after).2 (opener :: bracket :: inner) :=
  .suffix_trans (closeType_suffix _ after) ((expect_properSuffix h₂).trans h₁.cons.cons)

theorem map_properSuffix {source : String} {key value : TypeExpr} {opener bracket : Token}
    {inner afterKey values afterValue after : List Token} (h₁ : ProperSuffix afterKey inner)
    (h₂ : expect source .comma afterKey = .ok values) (h₃ : ProperSuffix afterValue values)
    (h₄ : expect source .closeBracket afterValue = .ok after) :
    ProperSuffix (closeType (.map key value) after).2 (opener :: bracket :: inner) :=
  have hvalue := (expect_properSuffix h₄).trans h₃
  have hkey := (expect_properSuffix h₂).trans h₁
  .suffix_trans (closeType_suffix _ after) (hvalue.trans hkey.cons.cons)

theorem name_properSuffix {name : String} {token : Token} {after : List Token} :
    ProperSuffix (closeType (ofName name) after).2 (token :: after) :=
  .of_suffix (closeType_suffix _ after)

/-- Reads one type from the front of the tokens and shows the progress on which the
recursion rests. -/
def takeType (source : String) (tokens : List Token) : Except Fault (Taken TypeExpr tokens) :=
  match tokens with
  | [] => .error (.unexpectedEnd source)
  | .name name :: .openBracket :: inner =>
    if name = "list" then do
      let ⟨element, afterElement, h₁⟩ ← takeType source inner
      let ⟨after, h₂⟩ ← attach (expect source .closeBracket afterElement)
      return .ofPair (closeType (.list element) after) (list_properSuffix h₁ h₂)
    else if name = "map" then do
      let ⟨key, afterKey, h₁⟩ ← takeType source inner
      let ⟨values, h₂⟩ ← attach (expect source .comma afterKey)
      let ⟨value, afterValue, h₃⟩ ← takeType source values
      let ⟨after, h₄⟩ ← attach (expect source .closeBracket afterValue)
      return .ofPair (closeType (.map key value) after) (map_properSuffix h₁ h₂ h₃ h₄)
    else return .ofPair (closeType (ofName name) (.openBracket :: inner)) name_properSuffix
  | .name name :: after => return .ofPair (closeType (ofName name) after) name_properSuffix
  | token :: _ => .error (.expectedName token.text source)
termination_by tokens.length
decreasing_by
  · exact ProperSuffix.tail.cons.shorter
  · exact ProperSuffix.tail.cons.shorter
  · exact ((expect_properSuffix h₂).trans h₁).cons.cons.shorter

def parseTokens (source : String) (tokens : List Token) :
    Except Fault (TypeExpr × List Token) :=
  Taken.pair <$> takeType source tokens

theorem parseTokens_properSuffix {source : String} {tokens rest : List Token} {t : TypeExpr}
    (h : parseTokens source tokens = .ok (t, rest)) : ProperSuffix rest tokens := by
  rw [parseTokens] at h
  cases hread : takeType source tokens with
  | error fault =>
    rw [hread] at h
    cases h
  | ok taken =>
    rw [hread] at h
    cases h
    exact taken.proper

/-- What `parseTokens` does, without the evidence of progress. -/
theorem parseTokens_eq (source : String) (tokens : List Token) :
    parseTokens source tokens =
      match tokens with
      | [] => .error (.unexpectedEnd source)
      | .name name :: .openBracket :: inner =>
        if name = "list" then do
          let (element, afterElement) ← parseTokens source inner
          let after ← expect source .closeBracket afterElement
          return closeType (.list element) after
        else if name = "map" then do
          let (key, afterKey) ← parseTokens source inner
          let values ← expect source .comma afterKey
          let (value, afterValue) ← parseTokens source values
          let after ← expect source .closeBracket afterValue
          return closeType (.map key value) after
        else .ok (closeType (ofName name) (.openBracket :: inner))
      | .name name :: after => .ok (closeType (ofName name) after)
      | token :: _ => .error (.expectedName token.text source) := by
  rw [parseTokens, takeType.eq_def]
  split
  · rfl
  · next name inner =>
    by_cases hlist : name = "list"
    · rw [if_pos hlist, if_pos hlist, parseTokens, map_bind, bind_map_left]
      refine bind_congr fun element => ?_
      rw [map_bind]
      exact attach_bind_congr fun _ _ => rfl
    · rw [if_neg hlist, if_neg hlist]
      by_cases hmap : name = "map"
      · rw [if_pos hmap, if_pos hmap, parseTokens, map_bind, bind_map_left]
        refine bind_congr fun key => ?_
        rw [map_bind]
        refine attach_bind_congr fun values _ => ?_
        rw [parseTokens, map_bind, bind_map_left]
        refine bind_congr fun value => ?_
        rw [map_bind]
        exact attach_bind_congr fun _ _ => rfl
      · rw [if_neg hmap, if_neg hmap]
        rfl
  · rfl
  · rfl

def parse (source : String) : Except Fault TypeExpr :=
  match tokenize source.toList with
  | .error stray => .error (.unexpected (String.ofList stray) source)
  | .ok tokens =>
    match parseTokens source tokens with
    | .error fault => .error fault
    | .ok (value, []) => .ok value
    | .ok (_, token :: _) => .error (.unexpected token.text source)

def canonicalize (source : String) : Except Fault String :=
  (parse source).map text

end WireSchema.TypeExpr
