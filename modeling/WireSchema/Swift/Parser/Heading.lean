import WireSchema.Swift.Declaration
import WireSchema.Swift.Reading

/-!
# What stands in front of a declaration

Documentation comments, attributes and modifiers, in any order and number.
-/

namespace WireSchema.Swift

open Outcome (attach attach_bind_congr bind_eq_ok_iff)

def modifiers : List String :=
  ["public", "private", "fileprivate", "internal", "open", "package", "final", "indirect",
    "static", "mutating", "nonmutating", "override", "required", "convenience", "lazy", "weak",
    "unowned", "dynamic", "nonisolated", "optional"]

/-- Keywords before which `class` is a modifier with the meaning of `static`. -/
def classModified : List String :=
  ["func", "var", "let", "subscript"]

structure Heading where
  docs : List String
  attributes : List Attribute
  isStatic : Bool
deriving DecidableEq, Repr

inductive HeadingPart where
  | doc (text : String)
  | marker (marker : Attribute)
  | modifier (isStatic : Bool)
deriving DecidableEq, Repr

namespace Heading

def empty : Heading := ⟨[], [], false⟩

def withPart (heading : Heading) : HeadingPart → Heading
  | .doc text => { heading with docs := text :: heading.docs }
  | .marker marker => { heading with attributes := marker :: heading.attributes }
  | .modifier isStatic => { heading with isStatic := isStatic || heading.isStatic }

end Heading

/-- The tokens after a modifier's argument, as in `private(set)`, if it has one. -/
def dropModifierArgument : List Token → List Token
  | first :: second :: third :: rest =>
    if first.isWord "(" && second.isIdentifier && third.isWord ")" then rest
    else first :: second :: third :: rest
  | tokens => tokens

theorem dropModifierArgument_suffix (tokens : List Token) :
    dropModifierArgument tokens <:+ tokens := by
  fun_cases dropModifierArgument tokens with
  | case1 => exact ProperSuffix.tail.cons.cons.suffix
  | case2 => exact List.suffix_refl _
  | case3 => exact List.suffix_refl _

def readAttributeArguments : Reader (List String) := fun tokens =>
  if wordNext tokens "(" then do
    let (group, rest) ← readGroup "(" ")" tokens
    return (group.inner.map Token.text, rest)
  else return ([], tokens)

theorem readAttributeArguments_suffix {tokens rest : List Token} {arguments : List String}
    (h : readAttributeArguments tokens = .ok (arguments, rest)) : rest <:+ tokens := by
  unfold readAttributeArguments at h
  by_cases hparen : wordNext tokens "("
  · rw [if_pos hparen] at h
    obtain ⟨⟨group, after⟩, hgroup, h⟩ := bind_eq_ok_iff.mp h
    cases h
    exact (readGroup_advances "(" ")" hgroup).suffix
  · rw [if_neg hparen] at h
    cases h
    exact List.suffix_refl _

/-- The attribute whose `@` has been passed, if a name comes next. -/
def readAttribute? : List Token → Except Failure (Option (Attribute × List Token))
  | [] => return none
  | name :: afterName =>
    if name.isIdentifier then do
      let (arguments, rest) ← readAttributeArguments afterName
      return some (⟨name.text, arguments⟩, rest)
    else return none

theorem readAttribute?_properSuffix {tokens rest : List Token} {found : Attribute}
    (h : readAttribute? tokens = .ok (some (found, rest))) : ProperSuffix rest tokens := by
  cases tokens with
  | nil => cases h
  | cons name afterName =>
    rw [readAttribute?] at h
    by_cases hname : name.isIdentifier
    · rw [if_pos hname] at h
      obtain ⟨⟨arguments, after⟩, harguments, h⟩ := bind_eq_ok_iff.mp h
      cases h
      exact .of_suffix (readAttributeArguments_suffix harguments)
    · rw [if_neg hname] at h
      cases h

def readHeadingPart? : List Token → Except Failure (Option (HeadingPart × List Token))
  | [] => return none
  | token :: after =>
    if token.kind == .doc then return some (.doc token.text, after)
    else if token.isWord "@" then do
      let found ← readAttribute? after
      return found.map fun (marker, rest) => (.marker marker, rest)
    else if token.isIdentifier && modifiers.contains token.text then
      return some (.modifier (token.text == "static"), dropModifierArgument after)
    else if token.isWord "class" && classModified.contains (headText after) then
      return some (.modifier true, after)
    else return none

theorem readHeadingPart?_properSuffix {tokens rest : List Token} {part : HeadingPart}
    (h : readHeadingPart? tokens = .ok (some (part, rest))) : ProperSuffix rest tokens := by
  cases tokens with
  | nil => cases h
  | cons token after =>
    rw [readHeadingPart?] at h
    by_cases hdoc : token.kind == .doc
    · rw [if_pos hdoc] at h
      cases h
      exact .tail
    · rw [if_neg hdoc] at h
      by_cases hat : token.isWord "@"
      · rw [if_pos hat] at h
        obtain ⟨found, hfound, h⟩ := bind_eq_ok_iff.mp h
        obtain ⟨⟨marker, rest'⟩, rfl, hpair⟩ := Option.map_eq_some_iff.mp (Except.ok.inj h)
        cases hpair
        exact (readAttribute?_properSuffix hfound).cons
      · rw [if_neg hat] at h
        by_cases hmodifier : token.isIdentifier && modifiers.contains token.text
        · rw [if_pos hmodifier] at h
          cases h
          exact .of_suffix (dropModifierArgument_suffix after)
        · rw [if_neg hmodifier] at h
          by_cases hclass : token.isWord "class" && classModified.contains (headText after)
          · rw [if_pos hclass] at h
            cases h
            exact .tail
          · rw [if_neg hclass] at h
            cases h

def readHeading (tokens : List Token) : Except Failure (Heading × List Token) := do
  match ← attach (readHeadingPart? tokens) with
  | ⟨none, _⟩ => return (.empty, tokens)
  | ⟨some (part, after), _hpart⟩ =>
    let (heading, rest) ← readHeading after
    return (heading.withPart part, rest)
termination_by tokens.length
decreasing_by exact (readHeadingPart?_properSuffix _hpart).shorter

/-- What `readHeading` does, without the evidence of progress. -/
theorem readHeading_eq (tokens : List Token) :
    readHeading tokens = do
      match ← readHeadingPart? tokens with
      | none => return (.empty, tokens)
      | some (part, after) =>
        let (heading, rest) ← readHeading after
        return (heading.withPart part, rest) := by
  rw [readHeading]
  refine attach_bind_congr fun part _ => ?_
  cases part with
  | none => rfl
  | some found => rfl

theorem readHeading_suffix {tokens rest : List Token} {heading : Heading}
    (h : readHeading tokens = .ok (heading, rest)) : rest <:+ tokens := by
  fun_induction readHeading tokens generalizing heading with
  | case1 tokens ih =>
    obtain ⟨⟨part, hpart⟩, -, h⟩ := bind_eq_ok_iff.mp h
    cases part with
    | none =>
      cases h
      exact List.suffix_refl _
    | some found =>
      obtain ⟨part, after⟩ := found
      obtain ⟨⟨later, rest'⟩, hlater, h⟩ := bind_eq_ok_iff.mp h
      cases h
      exact (ih part after hpart hlater).trans (readHeadingPart?_properSuffix hpart).suffix

end WireSchema.Swift
