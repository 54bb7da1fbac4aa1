import WireSchema.Swift.Reading
import WireSchema.TypeExpr.Basic

/-!
# Types as written in Swift

`typeText` writes a type expression in Swift and `readType` reads one. Several
spellings mean the same type: `Array<T>` is `[T]`, `Optional<T>` is `T?`, and all
integer types are one. Tuples, functions and other generic types mean none.
-/

namespace WireSchema.Swift

open Outcome (attach attach_bind_congr)

/-! ## Writing -/

def primitiveText : Primitive → String
  | .string => "String"
  | .int => "Int"
  | .float => "Double"
  | .bool => "Bool"
  | .any => "JSONValue"

/-- A type expression in Swift. Two optional layers, one directly in the other, are written
as one. -/
def typeText : TypeExpr → String
  | .primitive p => primitiveText p
  | .list t => "[" ++ typeText t ++ "]"
  | .map key value => "[" ++ typeText key ++ ": " ++ typeText value ++ "]"
  | .optional (.optional t) => typeText t ++ "?"
  | .optional t => typeText t ++ "?"
  | .custom name => name

/-! ## Reading -/

def intTypes : List String :=
  ["Int", "Int8", "Int16", "Int32", "Int64", "UInt", "UInt8", "UInt16", "UInt32", "UInt64"]

def floatTypes : List String :=
  ["Double", "Float", "Float32", "Float64", "CGFloat", "Decimal"]

def anyTypes : List String :=
  ["JSONValue", "AnyCodable"]

def primitiveOf? (name : String) : Option Primitive :=
  if name = "String" then some .string
  else if name = "Bool" then some .bool
  else if intTypes.contains name then some .int
  else if floatTypes.contains name then some .float
  else if anyTypes.contains name then some .any
  else none

inductive TypeFault where
  | unexpected (found : String)
  | expected (wanted found : String)
  | functionType
  | genericType (name : String)
deriving DecidableEq, Repr

def TypeFault.message : TypeFault → String
  | unexpected found => "unexpected \"" ++ found ++ "\""
  | expected wanted found => "expected \"" ++ wanted ++ "\" but found \"" ++ found ++ "\""
  | functionType => "function types are not supported"
  | genericType name => "generic type \"" ++ name ++ "\" is not supported"

inductive TypeError where
  /-- The text is not made of tokens. -/
  | lexical (error : SyntaxError)
  /-- The tokens are no type that has a meaning; `source` is the whole text. -/
  | unsupported (source : String) (fault : TypeFault)
deriving DecidableEq, Repr

def unsupportedMessage (source : String) (fault : TypeFault) : String :=
  "cannot map Swift type \"" ++ source ++ "\": " ++ fault.message

def TypeError.message : TypeError → String
  | lexical error => error.message
  | unsupported source fault => TypeExpr.invalidMessage (unsupportedMessage source fault)

def expectWord (wanted : String) (tokens : List Token) : Except TypeFault (List Token) :=
  match passWord? wanted tokens with
  | some rest => .ok rest
  | none => .error (.expected wanted (headText tokens))

theorem expectWord_properSuffix {wanted : String} {tokens rest : List Token}
    (h : expectWord wanted tokens = .ok rest) : ProperSuffix rest tokens := by
  rw [expectWord] at h
  cases hword : passWord? wanted tokens with
  | none =>
    rw [hword] at h
    cases h
  | some after =>
    rw [hword] at h
    cases h
    exact passWord?_properSuffix hword

/-- The name continued by the parts after it, each behind a dot. -/
def qualifiedName (name : String) : List Token → String × List Token
  | dot :: part :: rest =>
    if dot.isWord "." && part.isIdentifier then qualifiedName (name ++ "." ++ part.text) rest
    else (name, dot :: part :: rest)
  | tokens => (name, tokens)

theorem qualifiedName_suffix (name : String) (tokens : List Token) :
    (qualifiedName name tokens).2 <:+ tokens := by
  fun_induction qualifiedName name tokens with
  | case1 name dot part rest _ ih => exact (ProperSuffix.of_suffix ih).cons.suffix
  | case2 => exact List.suffix_refl _
  | case3 => exact List.suffix_refl _

/-- The name without the module that declares the basic types. -/
def localName (name : String) : String :=
  String.ofList ((Text.stripStart? "Swift.".toList name.toList).getD name.toList)

def namedType (name : String) (arguments : List TypeExpr) : Except TypeFault TypeExpr :=
  match arguments with
  | [] => .ok ((primitiveOf? name).elim (.custom name) .primitive)
  | [t] =>
    if name = "Array" then .ok (.list t)
    else if name = "Optional" then .ok t.asOptional
    else .error (.genericType name)
  | [key, value] =>
    if name = "Dictionary" then .ok (.map key value) else .error (.genericType name)
  | _ => .error (.genericType name)

def isOptionalMark (token : Token) : Bool :=
  token.isWord "?" || token.isWord "!" || token.isWord "??"

/-- The type with the marks after it taken in, and the tokens after those: any number of
marks makes it optional once. -/
def closeType (base : TypeExpr) (after : List Token) : TypeExpr × List Token :=
  (if comesNext after isOptionalMark then base.asOptional else base,
    after.dropWhile isOptionalMark)

theorem closeType_suffix (base : TypeExpr) (after : List Token) :
    (closeType base after).2 <:+ after :=
  List.dropWhile_suffix _

theorem list_properSuffix {element : TypeExpr} {token : Token} {after afterElement rest : List Token}
    (h₁ : ProperSuffix afterElement after) (h₂ : expectWord "]" afterElement = .ok rest) :
    ProperSuffix (closeType (.list element) rest).2 (token :: after) :=
  .suffix_trans (closeType_suffix _ rest) ((expectWord_properSuffix h₂).trans h₁.cons)

theorem map_properSuffix {key value : TypeExpr} {token : Token}
    {after afterKey values afterValue rest : List Token} (h₁ : ProperSuffix afterKey after)
    (h₂ : passWord? ":" afterKey = some values) (h₃ : ProperSuffix afterValue values)
    (h₄ : expectWord "]" afterValue = .ok rest) :
    ProperSuffix (closeType (.map key value) rest).2 (token :: after) :=
  have hvalue := (expectWord_properSuffix h₄).trans h₃
  have hkey := (passWord?_properSuffix h₂).trans h₁
  .suffix_trans (closeType_suffix _ rest) (hvalue.trans hkey.cons)

theorem inner_properSuffix {inner : TypeExpr} {token : Token}
    {after afterInner rest : List Token} (h₁ : ProperSuffix afterInner after)
    (h₂ : expectWord ")" afterInner = .ok rest) :
    ProperSuffix (closeType inner rest).2 (token :: after) :=
  .suffix_trans (closeType_suffix _ rest) ((expectWord_properSuffix h₂).trans h₁.cons)

theorem name_properSuffix {value : TypeExpr} {token : Token} {after : List Token} :
    ProperSuffix (closeType value (qualifiedName token.text after).2).2 (token :: after) :=
  .of_suffix ((closeType_suffix _ _).trans (qualifiedName_suffix token.text after))

theorem inside_properSuffix {token : Token} {after inside : List Token}
    (h : passWord? "<" (qualifiedName token.text after).2 = some inside) :
    ProperSuffix inside after :=
  (passWord?_properSuffix h).trans_suffix (qualifiedName_suffix token.text after)

theorem generic_properSuffix {value : TypeExpr} {token : Token}
    {after inside afterArguments rest : List Token}
    (h₁ : passWord? "<" (qualifiedName token.text after).2 = some inside)
    (h₂ : ProperSuffix afterArguments inside) (h₃ : expectWord ">" afterArguments = .ok rest) :
    ProperSuffix (closeType value rest).2 (token :: after) :=
  have hrest := (expectWord_properSuffix h₃).trans (h₂.trans (inside_properSuffix h₁))
  .suffix_trans (closeType_suffix _ rest) hrest.cons

theorem arguments_properSuffix {tokens afterFirst more rest : List Token}
    (h₁ : ProperSuffix afterFirst tokens) (h₂ : passWord? "," afterFirst = some more)
    (h₃ : ProperSuffix rest more) : ProperSuffix rest tokens :=
  h₃.trans ((passWord?_properSuffix h₂).trans h₁)

mutual

/-- Reads one type from the front of the tokens and shows the progress on which the
recursion rests. -/
def takeType (tokens : List Token) : Except TypeFault (Taken TypeExpr tokens) :=
  match tokens with
  | [] => .error (.unexpected "")
  | token :: after =>
    if token.isWord "[" then do
      let ⟨element, afterElement, h₁⟩ ← takeType after
      match h₂ : passWord? ":" afterElement with
      | some values =>
        let ⟨value, afterValue, h₃⟩ ← takeType values
        let ⟨rest, h₄⟩ ← attach (expectWord "]" afterValue)
        return .ofPair (closeType (.map element value) rest) (map_properSuffix h₁ h₂ h₃ h₄)
      | none =>
        let ⟨rest, h₂⟩ ← attach (expectWord "]" afterElement)
        return .ofPair (closeType (.list element) rest) (list_properSuffix h₁ h₂)
    else if token.isWord "(" then do
      let ⟨inner, afterInner, h₁⟩ ← takeType after
      let ⟨rest, h₂⟩ ← attach (expectWord ")" afterInner)
      if wordNext rest "->" then .error .functionType
      else return .ofPair (closeType inner rest) (inner_properSuffix h₁ h₂)
    else if token.isIdentifier then
      match h₁ : passWord? "<" (qualifiedName token.text after).2 with
      | some inside => do
        let ⟨arguments, afterArguments, h₂⟩ ← takeArguments inside
        let ⟨rest, h₃⟩ ← attach (expectWord ">" afterArguments)
        let value ← namedType (localName (qualifiedName token.text after).1) arguments
        return .ofPair (closeType value rest) (generic_properSuffix h₁ h₂ h₃)
      | none => do
        let value ← namedType (localName (qualifiedName token.text after).1) []
        return .ofPair (closeType value (qualifiedName token.text after).2) name_properSuffix
    else .error (.unexpected token.text)
termination_by 2 * tokens.length
decreasing_by
  · have step : ProperSuffix after (token :: after) := .tail
    have shorter := step.shorter
    omega
  · have step : ProperSuffix values (token :: after) := ((passWord?_properSuffix h₂).trans h₁).cons
    have shorter := step.shorter
    omega
  · have step : ProperSuffix after (token :: after) := .tail
    have shorter := step.shorter
    omega
  · have step : ProperSuffix inside (token :: after) := (inside_properSuffix h₁).cons
    have shorter := step.shorter
    omega

def takeArguments (tokens : List Token) : Except TypeFault (Taken (List TypeExpr) tokens) := do
  let ⟨value, rest, h₁⟩ ← takeType tokens
  match h₂ : passWord? "," rest with
  | some more =>
    let ⟨values, afterValues, h₃⟩ ← takeArguments more
    return ⟨value :: values, afterValues, arguments_properSuffix h₁ h₂ h₃⟩
  | none => return ⟨[value], rest, h₁⟩
termination_by 2 * tokens.length + 1
decreasing_by
  · exact Nat.lt_succ_self _
  · have shorter := ((passWord?_properSuffix h₂).trans h₁).shorter
    omega

end

def readTypeTokens (tokens : List Token) : Except TypeFault (TypeExpr × List Token) :=
  Taken.pair <$> takeType tokens

def readArguments (tokens : List Token) : Except TypeFault (List TypeExpr × List Token) :=
  Taken.pair <$> takeArguments tokens

/-- What `readTypeTokens` does, without the evidence of progress. -/
theorem readTypeTokens_eq (tokens : List Token) :
    readTypeTokens tokens =
      match tokens with
      | [] => .error (.unexpected "")
      | token :: after =>
        if token.isWord "[" then do
          let (element, afterElement) ← readTypeTokens after
          match passWord? ":" afterElement with
          | some values =>
            let (value, afterValue) ← readTypeTokens values
            let rest ← expectWord "]" afterValue
            return closeType (.map element value) rest
          | none =>
            let rest ← expectWord "]" afterElement
            return closeType (.list element) rest
        else if token.isWord "(" then do
          let (inner, afterInner) ← readTypeTokens after
          let rest ← expectWord ")" afterInner
          if wordNext rest "->" then .error .functionType
          else return closeType inner rest
        else if token.isIdentifier then
          let (name, afterName) := qualifiedName token.text after
          match passWord? "<" afterName with
          | some inside => do
            let (arguments, afterArguments) ← readArguments inside
            let rest ← expectWord ">" afterArguments
            let value ← namedType (localName name) arguments
            return closeType value rest
          | none => do
            let value ← namedType (localName name) []
            return closeType value afterName
        else .error (.unexpected token.text) := by
  rw [readTypeTokens, takeType.eq_def]
  cases tokens with
  | nil => rfl
  | cons token after =>
    dsimp only
    by_cases hbracket : token.isWord "["
    · rw [if_pos hbracket, if_pos hbracket, readTypeTokens, map_bind, bind_map_left]
      refine bind_congr fun element => ?_
      dsimp only [Taken.pair]
      split
      · next values h =>
        simp only [h]
        rw [map_bind, readTypeTokens, bind_map_left]
        refine bind_congr fun value => ?_
        rw [map_bind]
        exact attach_bind_congr fun _ _ => rfl
      · next h =>
        simp only [h]
        rw [map_bind]
        exact attach_bind_congr fun _ _ => rfl
    · rw [if_neg hbracket, if_neg hbracket]
      by_cases hparen : token.isWord "("
      · rw [if_pos hparen, if_pos hparen, readTypeTokens, map_bind, bind_map_left]
        refine bind_congr fun inner => ?_
        rw [map_bind]
        refine attach_bind_congr fun rest _ => ?_
        dsimp only
        by_cases harrow : wordNext rest "->"
        · rw [if_pos harrow, if_pos harrow]
          rfl
        · rw [if_neg harrow, if_neg harrow]
          rfl
      · rw [if_neg hparen, if_neg hparen]
        by_cases hname : token.isIdentifier
        · rw [if_pos hname, if_pos hname]
          split
          · next inside h =>
            simp only [h]
            rw [map_bind, readArguments, bind_map_left]
            refine bind_congr fun arguments => ?_
            rw [map_bind]
            refine attach_bind_congr fun rest _ => ?_
            dsimp only
            rw [map_bind]
            rfl
          · next h =>
            simp only [h]
            rw [map_bind]
            rfl
        · rw [if_neg hname, if_neg hname]
          rfl

/-- What `readArguments` does, without the evidence of progress. -/
theorem readArguments_eq (tokens : List Token) :
    readArguments tokens = do
      let (value, rest) ← readTypeTokens tokens
      match passWord? "," rest with
      | some more =>
        let (values, afterValues) ← readArguments more
        return (value :: values, afterValues)
      | none => return ([value], rest) := by
  rw [readArguments, takeArguments, readTypeTokens, map_bind, bind_map_left]
  refine bind_congr fun value => ?_
  dsimp only [Taken.pair]
  split
  · next more h =>
    simp only [h]
    rw [map_bind, readArguments, bind_map_left]
    rfl
  · next h =>
    simp only [h]
    rfl

def readType (source : String) : Except TypeError TypeExpr :=
  match tokenize source with
  | .error error => .error (.lexical error)
  | .ok stream =>
    match readTypeTokens stream.tokens with
    | .error fault => .error (.unsupported source fault)
    | .ok (value, []) => .ok value
    | .ok (_, token :: _) => .error (.unsupported source (.unexpected token.text))

end WireSchema.Swift
