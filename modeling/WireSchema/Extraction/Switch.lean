import WireSchema.Swift.Reading

/-!
# Arms of a switch

`switchArms` cuts the body of a switch into what stands before the first arm and
the arms themselves. Every token lands in exactly one place. An arm ends where
the next one starts or where the body is closed; inside brackets no arm starts.
-/

namespace WireSchema.Extraction

open Swift

/-- An arm of a switch. The colon is missing if the tokens end before it. -/
structure Arm where
  keyword : Token
  pattern : List Token
  colon? : Option Token
  body : List Token
deriving DecidableEq, Repr

namespace Arm

def isDefault (arm : Arm) : Bool :=
  arm.keyword.isWord "default"

def tokens (arm : Arm) : List Token :=
  arm.keyword :: (arm.pattern ++ arm.colon?.toList ++ arm.body)

end Arm

def opensBracket (token : Token) : Bool :=
  token.isWord "\x7b" || token.isWord "(" || token.isWord "["

def closesBracket (token : Token) : Bool :=
  token.isWord "\x7d" || token.isWord ")" || token.isWord "]"

structure PatternSplit where
  pattern : List Token
  colon? : Option Token
  rest : List Token

/-- Cuts the tokens at the first colon outside parentheses and square brackets, of which
`nested` are open. -/
def splitPattern (nested : Nat) : List Token → PatternSplit
  | [] => ⟨[], none, []⟩
  | token :: rest =>
    let onward (nested : Nat) :=
      let split := splitPattern nested rest
      { split with pattern := token :: split.pattern }
    if token.isWord "(" || token.isWord "[" then onward (nested + 1)
    else if token.isWord ")" || token.isWord "]" then onward (nested - 1)
    else if nested == 0 && token.isWord ":" then ⟨[], some token, rest⟩
    else onward nested

theorem splitPattern_tokens (nested : Nat) (tokens : List Token) :
    (splitPattern nested tokens).pattern ++ (splitPattern nested tokens).colon?.toList ++
      (splitPattern nested tokens).rest = tokens := by
  induction tokens generalizing nested with
  | nil => rfl
  | cons token rest ih =>
    simp only [splitPattern]
    split
    · exact congrArg (token :: ·) (ih _)
    · split
      · exact congrArg (token :: ·) (ih _)
      · split
        · rfl
        · exact congrArg (token :: ·) (ih _)

theorem splitPattern_length_le (nested : Nat) (tokens : List Token) :
    (splitPattern nested tokens).rest.length ≤ tokens.length := by
  have h := congrArg List.length (splitPattern_tokens nested tokens)
  simp only [List.length_append] at h
  omega

def startsArm (token : Token) (rest : List Token) : Bool :=
  token.isWord "case" || (token.isWord "default" && wordNext rest ":")

/-- The body of a switch: what stands before the first arm, and the arms. -/
structure SwitchBody where
  preamble : List Token
  arms : List Arm

def SwitchBody.withToken (token : Token) (body : SwitchBody) : SwitchBody :=
  { body with preamble := token :: body.preamble }

/-- Cuts the body of a switch, inside which `depth` brackets are open, up to the token that
closes it. -/
def splitArms (depth : Nat) (tokens : List Token) : SwitchBody :=
  match tokens with
  | [] => ⟨[], []⟩
  | token :: rest =>
    if opensBracket token then (splitArms (depth + 1) rest).withToken token
    else if closesBracket token then
      match depth with
      | 0 => ⟨[], []⟩
      | outer + 1 => (splitArms outer rest).withToken token
    else if depth == 0 && startsArm token rest then
      let split := splitPattern 0 rest
      let later := splitArms 0 (splitPattern 0 rest).rest
      ⟨[], ⟨token, split.pattern, split.colon?, later.preamble⟩ :: later.arms⟩
    else (splitArms depth rest).withToken token
termination_by tokens.length
decreasing_by
  · simp
  · simp
  · exact Nat.lt_succ_of_le (splitPattern_length_le 0 rest)
  · simp

def afterOpeningBrace? (tokens : List Token) : Option (List Token) :=
  match tokens.dropWhile fun token => !token.isWord "\x7b" with
  | [] => none
  | _ :: inside => some inside

/-- The body of the first switch in the tokens, which start at its keyword. -/
def switchBody (tokens : List Token) : SwitchBody :=
  match afterOpeningBrace? tokens with
  | some inside => splitArms 0 inside
  | none => ⟨[], []⟩

def switchArms (tokens : List Token) : List Arm :=
  (switchBody tokens).arms

end WireSchema.Extraction
