import WireSchema.Swift.Reading

/-!
# Expressions inside declarations

Default values and initial values are skipped. An expression ends before a token
that closes or separates, and before a token that starts a declaration. A keyword
after a dot is the name of a member and starts nothing.
-/

namespace WireSchema.Swift

def declKeywords : List String :=
  ["var", "let", "func", "init", "deinit", "subscript", "case", "struct", "class", "actor", "enum",
    "protocol", "extension", "typealias", "static", "public", "private", "fileprivate",
    "internal", "open"]

def isDeclKeyword (afterDot : Bool) (token : Token) : Bool :=
  token.isIdentifier && declKeywords.contains token.text && !afterDot

def startsDecl (afterDot : Bool) (token : Token) : Bool :=
  token.kind == .doc || token.isWord "@" || isDeclKeyword afterDot token

def endsExpression (token : Token) : Bool :=
  ["\x7d", ")", "]", ",", ";"].any token.isWord

def groupOpenedBy? (token : Token) : Option (String × String) :=
  if token.kind != .punctuation then none
  else if token.text == "\x7b" then some ("\x7b", "\x7d")
  else if token.text == "(" then some ("(", ")")
  else if token.text == "[" then some ("[", "]")
  else none

/-- The tokens after an expression. A group that is never closed goes on to the end. -/
def skipExpressionFrom (afterDot : Bool) (tokens : List Token) : List Token :=
  match tokens with
  | [] => []
  | token :: after =>
    if endsExpression token || startsDecl afterDot token then token :: after
    else
      match groupOpenedBy? token with
      | some (opener, closer) =>
        match _hgroup : splitGroup opener closer 0 after with
        | some (_, _, rest) => skipExpressionFrom false rest
        | none => []
      | none => skipExpressionFrom (token.isWord ".") after
termination_by tokens.length
decreasing_by
  · exact (splitGroup_properSuffix _hgroup).cons.shorter
  · exact ProperSuffix.tail.shorter

theorem skipExpressionFrom_suffix (afterDot : Bool) (tokens : List Token) :
    skipExpressionFrom afterDot tokens <:+ tokens := by
  fun_induction skipExpressionFrom afterDot tokens with
  | case1 => exact List.suffix_refl _
  | case2 => exact List.suffix_refl _
  | case3 afterDot token after _ opener closer _ inner last rest hgroup ih =>
    exact (ProperSuffix.suffix_trans ih (splitGroup_properSuffix hgroup).cons).suffix
  | case4 => exact List.nil_suffix
  | case5 afterDot token after _ _ ih => exact (ProperSuffix.of_suffix ih).suffix

/-- The tokens after an equals sign and the expression behind it, and whether there was
one. -/
def skipAssignment (tokens : List Token) : Bool × List Token :=
  match passWord? "=" tokens with
  | some after => (true, skipExpressionFrom false after)
  | none => (false, tokens)

theorem skipAssignment_suffix (tokens : List Token) : (skipAssignment tokens).2 <:+ tokens := by
  rw [skipAssignment]
  split
  · next after h =>
    exact (skipExpressionFrom_suffix false after).trans (passWord?_properSuffix h).suffix
  · exact List.suffix_refl _

end WireSchema.Swift
