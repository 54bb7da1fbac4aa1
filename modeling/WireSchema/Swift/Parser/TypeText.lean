import WireSchema.Swift.Reading
import WireSchema.Text.Blank

/-!
# Types inside declarations

The parser keeps types as text. `readTypeRun` takes the tokens of a type and
`readTypeText` writes them with regular spacing, so that `[String:Int] ?` becomes
`[String: Int]?`. The meaning of the type is no concern
of the parser.
-/

namespace WireSchema.Swift

open Outcome (attach attach_bind_congr bind_eq_ok_iff)

/-- Words that may stand in front of a type without being part of it. -/
def typePrefixes : List String :=
  ["some", "any", "inout", "borrowing", "consuming", "sending"]

def splitQualifiers : List Token → List Token × List Token
  | first :: second :: rest =>
    if first.isWord "@" && second.isIdentifier then
      (first :: second :: (splitQualifiers rest).1, (splitQualifiers rest).2)
    else if first.isIdentifier && typePrefixes.contains first.text &&
        (second.isIdentifier || second.isWord "[" || second.isWord "(") then
      (first :: (splitQualifiers (second :: rest)).1, (splitQualifiers (second :: rest)).2)
    else ([], first :: second :: rest)
  | tokens => ([], tokens)

theorem splitQualifiers_append (tokens : List Token) :
    (splitQualifiers tokens).1 ++ (splitQualifiers tokens).2 = tokens := by
  fun_induction splitQualifiers tokens with
  | case1 first second rest _ ih => exact congrArg (first :: second :: ·) ih
  | case2 first second rest _ _ ih => exact congrArg (first :: ·) ih
  | case3 => rfl
  | case4 => rfl

def readTypeArguments : Reader (List Token) := fun tokens =>
  if wordNext tokens "<" then do
    let (group, rest) ← readGroup "<" ">" tokens
    return (group.tokens, rest)
  else return ([], tokens)

theorem readTypeArguments_append {tokens run rest : List Token}
    (h : readTypeArguments tokens = .ok (run, rest)) : run ++ rest = tokens := by
  unfold readTypeArguments at h
  by_cases hopener : wordNext tokens "<"
  · rw [if_pos hopener] at h
    obtain ⟨⟨group, after⟩, hgroup, h⟩ := bind_eq_ok_iff.mp h
    cases h
    exact readGroup_append hgroup
  · rw [if_neg hopener] at h
    cases h
    rfl

def splitMember? : List Token → Option (List Token × List Token)
  | dot :: part :: rest =>
    if dot.isWord "." && part.isIdentifier then some ([dot, part], rest) else none
  | _ => none

theorem splitMember?_append {tokens run rest : List Token}
    (h : splitMember? tokens = some (run, rest)) : run ++ rest = tokens := by
  unfold splitMember? at h
  split at h
  · next dot part after =>
    by_cases hmember : dot.isWord "." && part.isIdentifier
    · rw [if_pos hmember] at h
      cases h
      rfl
    · rw [if_neg hmember] at h
      cases h
  · cases h

theorem splitMember?_properSuffix {tokens run rest : List Token}
    (h : splitMember? tokens = some (run, rest)) : ProperSuffix rest tokens := by
  refine .of_append (splitMember?_append h) ?_
  rintro rfl
  unfold splitMember? at h
  split at h
  · split at h
    · cases h
    · cases h
  · cases h

/-- What may follow the first part of a type name: arguments, and further parts with theirs. -/
def readTypePath (tokens : List Token) : Except Failure (List Token × List Token) := do
  let ⟨(arguments, afterArguments), _harguments⟩ ← attach (readTypeArguments tokens)
  match _hmember : splitMember? afterArguments with
  | some (member, after) =>
    let (path, rest) ← readTypePath after
    return (arguments ++ (member ++ path), rest)
  | none => return (arguments, afterArguments)
termination_by tokens.length
decreasing_by
  have harguments := List.suffix_append arguments afterArguments
  rw [readTypeArguments_append _harguments] at harguments
  exact ((splitMember?_properSuffix _hmember).trans_suffix harguments).shorter

/-- What `readTypePath` does, without the evidence of progress. -/
theorem readTypePath_eq (tokens : List Token) :
    readTypePath tokens = do
      let (arguments, afterArguments) ← readTypeArguments tokens
      match splitMember? afterArguments with
      | some (member, after) =>
        let (path, rest) ← readTypePath after
        return (arguments ++ (member ++ path), rest)
      | none => return (arguments, afterArguments) := by
  rw [readTypePath]
  refine attach_bind_congr fun found _ => ?_
  obtain ⟨arguments, afterArguments⟩ := found
  dsimp only
  split
  · next h => rw [h]
  · next h => rw [h]

theorem readTypePath_append {tokens run rest : List Token}
    (h : readTypePath tokens = .ok (run, rest)) : run ++ rest = tokens := by
  fun_induction readTypePath tokens generalizing run with
  | case1 tokens ih =>
    obtain ⟨⟨⟨arguments, afterArguments⟩, harguments⟩, -, h⟩ := bind_eq_ok_iff.mp h
    dsimp only at h
    split at h
    · next member after hmember =>
      obtain ⟨⟨path, rest'⟩, hpath, h⟩ := bind_eq_ok_iff.mp h
      cases h
      have hafter := ih arguments afterArguments harguments member after hmember hpath
      rw [← readTypeArguments_append harguments, ← splitMember?_append hmember, ← hafter]
      simp only [List.append_assoc]
    · cases h
      exact readTypeArguments_append harguments

def readTypeCore : Reader (List Token)
  | [] => .error ⟨.expectedType "", []⟩
  | token :: after =>
    if token.isWord "[" then do
      let (group, rest) ← readGroup "[" "]" (token :: after)
      return (group.tokens, rest)
    else if token.isWord "(" then do
      let (group, rest) ← readGroup "(" ")" (token :: after)
      return (group.tokens, rest)
    else if token.isIdentifier then do
      let (path, rest) ← readTypePath after
      return (token :: path, rest)
    else .error ⟨.expectedType token.text, token :: after⟩

theorem readTypeCore_append {tokens run rest : List Token}
    (h : readTypeCore tokens = .ok (run, rest)) : run ++ rest = tokens ∧ run ≠ [] := by
  cases tokens with
  | nil => cases h
  | cons token after =>
    rw [readTypeCore] at h
    by_cases hbracket : token.isWord "["
    · rw [if_pos hbracket] at h
      obtain ⟨⟨group, rest'⟩, hgroup, h⟩ := bind_eq_ok_iff.mp h
      cases h
      exact ⟨readGroup_append hgroup, List.cons_ne_nil _ _⟩
    · rw [if_neg hbracket] at h
      by_cases hparen : token.isWord "("
      · rw [if_pos hparen] at h
        obtain ⟨⟨group, rest'⟩, hgroup, h⟩ := bind_eq_ok_iff.mp h
        cases h
        exact ⟨readGroup_append hgroup, List.cons_ne_nil _ _⟩
      · rw [if_neg hparen] at h
        by_cases hname : token.isIdentifier
        · rw [if_pos hname] at h
          obtain ⟨⟨path, rest'⟩, hpath, h⟩ := bind_eq_ok_iff.mp h
          cases h
          exact ⟨congrArg (token :: ·) (readTypePath_append hpath), List.cons_ne_nil _ _⟩
        · rw [if_neg hname] at h
          cases h

def isTypeMark (token : Token) : Bool :=
  token.isWord "?" || token.isWord "!" || token.isWord "..."

/-- Does the token say what a function type may do? -/
def isEffect (token : Token) : Bool :=
  token.isIdentifier && (token.text == "async" || token.text == "throws")

/-- The marks and then the effects that follow the core of a type, and the tokens after
them. -/
def splitTypeMarks (tokens : List Token) : List Token × List Token :=
  let afterMarks := tokens.dropWhile isTypeMark
  (tokens.takeWhile isTypeMark ++ afterMarks.takeWhile isEffect, afterMarks.dropWhile isEffect)

/-- One type without an arrow or an ampersand, with all that stands around its core. -/
def readTypeOperand : Reader (List Token) := fun tokens => do
  let (core, afterCore) ← readTypeCore (splitQualifiers tokens).2
  let (marks, rest) := splitTypeMarks afterCore
  return ((splitQualifiers tokens).1 ++ (core ++ marks), rest)

theorem readTypeOperand_append {tokens run rest : List Token}
    (h : readTypeOperand tokens = .ok (run, rest)) : run ++ rest = tokens ∧ run ≠ [] := by
  obtain ⟨⟨core, afterCore⟩, hcore, h⟩ := bind_eq_ok_iff.mp h
  cases h
  obtain ⟨happend, hne⟩ := readTypeCore_append hcore
  constructor
  · simp only [List.append_assoc, List.takeWhile_append_dropWhile, happend, splitQualifiers_append]
  · simp only [ne_eq, List.append_eq_nil_iff, not_and]
    intro _ hnil
    exact absurd hnil hne

theorem readTypeOperand_advances : Advances readTypeOperand := by
  intro tokens run rest h
  exact .of_append (readTypeOperand_append h).1 (readTypeOperand_append h).2

def splitTypeOperator? : List Token → Option (Token × List Token)
  | [] => none
  | token :: rest => if token.isWord "->" || token.isWord "&" then some (token, rest) else none

theorem splitTypeOperator?_append {tokens rest : List Token} {token : Token}
    (h : splitTypeOperator? tokens = some (token, rest)) : token :: rest = tokens := by
  cases tokens with
  | nil => cases h
  | cons first after =>
    rw [splitTypeOperator?] at h
    split at h
    · cases h
      rfl
    · cases h

theorem splitTypeOperator?_properSuffix {tokens rest : List Token} {token : Token}
    (h : splitTypeOperator? tokens = some (token, rest)) : ProperSuffix rest tokens := by
  rw [← splitTypeOperator?_append h]
  exact .tail

def readTypeRun (tokens : List Token) : Except Failure (List Token × List Token) := do
  let ⟨(operand, afterOperand), _hoperand⟩ ← attach (readTypeOperand tokens)
  match _hoperator : splitTypeOperator? afterOperand with
  | some (operator, after) =>
    let (more, rest) ← readTypeRun after
    return (operand ++ operator :: more, rest)
  | none => return (operand, afterOperand)
termination_by tokens.length
decreasing_by
  exact ((splitTypeOperator?_properSuffix _hoperator).trans
    (readTypeOperand_advances _hoperand)).shorter

/-- What `readTypeRun` does, without the evidence of progress. -/
theorem readTypeRun_eq (tokens : List Token) :
    readTypeRun tokens = do
      let (operand, afterOperand) ← readTypeOperand tokens
      match splitTypeOperator? afterOperand with
      | some (operator, after) =>
        let (more, rest) ← readTypeRun after
        return (operand ++ operator :: more, rest)
      | none => return (operand, afterOperand) := by
  rw [readTypeRun]
  refine attach_bind_congr fun found _ => ?_
  obtain ⟨operand, afterOperand⟩ := found
  dsimp only
  split
  · next h => rw [h]
  · next h => rw [h]

/-- A type is read as a run of tokens that is not empty and stands at the front. -/
theorem readTypeRun_append {tokens run rest : List Token}
    (h : readTypeRun tokens = .ok (run, rest)) : run ++ rest = tokens ∧ run ≠ [] := by
  fun_induction readTypeRun tokens generalizing run with
  | case1 tokens ih =>
    obtain ⟨⟨⟨operand, afterOperand⟩, hoperand⟩, -, h⟩ := bind_eq_ok_iff.mp h
    obtain ⟨happend, hne⟩ := readTypeOperand_append hoperand
    dsimp only at h
    split at h
    · next operator after hoperator =>
      obtain ⟨⟨more, rest'⟩, hmore, h⟩ := bind_eq_ok_iff.mp h
      cases h
      obtain ⟨hafter, -⟩ := ih operand afterOperand hoperand operator after hoperator hmore
      constructor
      · rw [← happend, ← splitTypeOperator?_append hoperator, ← hafter]
        simp only [List.append_assoc, List.cons_append]
      · exact List.append_ne_nil_of_left_ne_nil hne _
    · cases h
      exact ⟨happend, hne⟩

theorem readTypeRun_advances : Advances readTypeRun := by
  intro tokens run rest h
  exact .of_append (readTypeRun_append h).1 (readTypeRun_append h).2

def spaceBetween (left right : Token) : Bool :=
  left.isWord ":" || left.isWord "," || (left.isIdentifier && right.isIdentifier)

def typeTokenChars (token : Token) : List Char :=
  if token.isWord "->" || token.isWord "&" then ' ' :: (token.text.toList ++ [' '])
  else token.text.toList

def typeRunChars : List Token → List Char
  | [] => []
  | [token] => typeTokenChars token
  | token :: next :: later =>
    typeTokenChars token ++ (if spaceBetween token next then [' '] else []) ++
      typeRunChars (next :: later)

def readTypeText : Reader String := fun tokens => do
  let (run, rest) ← readTypeRun tokens
  return (String.ofList (Text.trimChars (typeRunChars run)), rest)

theorem readTypeText_advances : Advances readTypeText := by
  intro tokens type rest h
  obtain ⟨⟨run, after⟩, hrun, h⟩ := bind_eq_ok_iff.mp h
  cases h
  exact readTypeRun_advances hrun

def readTypeClause : Reader (Option String) := fun tokens =>
  match passWord? ":" tokens with
  | none => return (none, tokens)
  | some after => do
    let (type, rest) ← readTypeText after
    return (some type, rest)

theorem readTypeClause_suffix {tokens rest : List Token} {type : Option String}
    (h : readTypeClause tokens = .ok (type, rest)) : rest <:+ tokens := by
  unfold readTypeClause at h
  split at h
  · cases h
    exact List.suffix_refl _
  · next after hcolon =>
    obtain ⟨⟨found, afterType⟩, htype, h⟩ := bind_eq_ok_iff.mp h
    cases h
    exact ((readTypeText_advances htype).trans (passWord?_properSuffix hcolon)).suffix

end WireSchema.Swift
