import WireSchema.Outcome
import WireSchema.ProperSuffix
import WireSchema.Swift.Token

/-!
# Reading from the front of a list of tokens

A reader takes tokens from the front of a list and gives a value with the tokens that
are left. What it leaves is a suffix of what it was given, and a proper one if the
reader cannot succeed on nothing; each reader has a lemma that says which. These
lemmas are what makes the recursion of the parsers well-founded. A failure carries the
tokens at which it happened, of which the first has its position.
-/

namespace WireSchema.Swift

open Outcome (attach attach_bind_congr bind_eq_ok_iff)

/-- A fault, and the tokens from where it was found on. -/
structure Failure where
  fault : SyntaxFault
  rest : List Token
deriving DecidableEq, Repr

/-- Gives a value and the tokens after those that make it. -/
abbrev Reader (α : Type) := List Token → Except Failure (α × List Token)

/-- Whenever the reader succeeds it has taken at least one token. -/
def Advances {α : Type} (read : Reader α) : Prop :=
  ∀ ⦃tokens : List Token⦄ ⦃value : α⦄ ⦃rest : List Token⦄,
    read tokens = .ok (value, rest) → ProperSuffix rest tokens

namespace Advances

variable {α β : Type} {read : Reader α} {tokens : List Token}

theorem properSuffix (advances : Advances read) {found : α × List Token}
    (h : read tokens = .ok found) : ProperSuffix found.2 tokens :=
  advances h

/-- The reader, with the evidence of its progress. -/
def take (advances : Advances read) (tokens : List Token) : Except Failure (Taken α tokens) := do
  let ⟨found, h⟩ ← attach (read tokens)
  return .ofPair found (advances.properSuffix h)

/-- A reader goes on in the same way with the evidence and without it. -/
theorem take_bind_congr (advances : Advances read) {f : Taken α tokens → Except Failure β}
    {g : α × List Token → Except Failure β} (h : ∀ taken, f taken = g taken.pair) :
    advances.take tokens >>= f = read tokens >>= g := by
  rw [take, bind_assoc]
  refine attach_bind_congr fun found _ => ?_
  exact h _

end Advances

/-! ## Looking ahead -/

/-- The text of the first token; nothing stands for the end. -/
def headText (tokens : List Token) : String :=
  (tokens.head?.map Token.text).getD ""

def comesNext (tokens : List Token) (p : Token → Bool) : Bool :=
  tokens.head?.any p

def wordNext (tokens : List Token) (text : String) : Bool :=
  comesNext tokens (·.isWord text)

/-! ## Single tokens -/

def passWord? (wanted : String) : List Token → Option (List Token)
  | [] => none
  | token :: rest => if token.isWord wanted then some rest else none

theorem passWord?_properSuffix {wanted : String} {tokens rest : List Token}
    (h : passWord? wanted tokens = some rest) : ProperSuffix rest tokens := by
  cases tokens with
  | nil => cases h
  | cons token after =>
    rw [passWord?] at h
    by_cases hword : token.isWord wanted
    · rw [if_pos hword] at h
      cases h
      exact .tail
    · rw [if_neg hword] at h
      cases h

def readWord (wanted : String) : Reader Token
  | [] => .error ⟨.expected wanted "", []⟩
  | token :: rest =>
    if token.isWord wanted then .ok (token, rest)
    else .error ⟨.expected wanted token.text, token :: rest⟩

theorem readWord_append {wanted : String} {tokens rest : List Token} {token : Token}
    (h : readWord wanted tokens = .ok (token, rest)) : token :: rest = tokens := by
  cases tokens with
  | nil => cases h
  | cons first after =>
    rw [readWord] at h
    by_cases hword : first.isWord wanted
    · rw [if_pos hword] at h
      cases h
      rfl
    · rw [if_neg hword] at h
      cases h

theorem readWord_advances (wanted : String) : Advances (readWord wanted) := by
  intro tokens token rest h
  cases readWord_append h
  exact .tail

def readIdentifier : Reader Token
  | [] => .error ⟨.expectedIdentifier "", []⟩
  | token :: rest =>
    if token.isIdentifier then .ok (token, rest)
    else .error ⟨.expectedIdentifier token.text, token :: rest⟩

theorem readIdentifier_advances : Advances readIdentifier := by
  intro tokens name rest h
  cases tokens with
  | nil => cases h
  | cons token after =>
    rw [readIdentifier] at h
    by_cases hname : token.isIdentifier
    · rw [if_pos hname] at h
      cases h
      exact .tail
    · rw [if_neg hname] at h
      cases h

/-! ## Groups -/

structure Group where
  opener : Token
  inner : List Token
  closer : Token
deriving DecidableEq, Repr

def Group.tokens (group : Group) : List Token :=
  group.opener :: (group.inner ++ [group.closer])

/-- The tokens up to the one that closes a group, that one, and those after it. Groups of the
same kind may stand inside; `depth` of them are open. -/
def splitGroup (opener closer : String) (depth : Nat) :
    List Token → Option (List Token × Token × List Token)
  | [] => none
  | token :: rest =>
    let inside (depth : Nat) :=
      (splitGroup opener closer depth rest).map fun (inner, last, after) =>
        (token :: inner, last, after)
    if token.isWord opener then inside (depth + 1)
    else if token.isWord closer then
      match depth with
      | 0 => some ([], token, rest)
      | outer + 1 => inside outer
    else inside depth

theorem splitGroup_append {opener closer : String} {depth : Nat}
    {tokens inner after : List Token} {last : Token}
    (h : splitGroup opener closer depth tokens = some (inner, last, after)) :
    inner ++ last :: after = tokens := by
  induction tokens generalizing depth inner with
  | nil => cases h
  | cons token rest ih =>
    have step : ∀ {d : Nat},
        (splitGroup opener closer d rest).map (fun x => (token :: x.1, x.2.1, x.2.2)) =
          some (inner, last, after) → inner ++ last :: after = token :: rest := by
      intro d hd
      obtain ⟨⟨inner', last', after'⟩, found, hsplit⟩ := Option.map_eq_some_iff.mp hd
      cases hsplit
      exact congrArg (token :: ·) (ih found)
    simp only [splitGroup] at h
    split at h
    · exact step h
    · split at h
      · split at h
        · cases h
          rfl
        · exact step h
      · exact step h

theorem splitGroup_properSuffix {opener closer : String} {depth : Nat}
    {tokens inner after : List Token} {last : Token}
    (h : splitGroup opener closer depth tokens = some (inner, last, after)) :
    ProperSuffix after tokens := by
  rw [← splitGroup_append h]
  exact ProperSuffix.tail.trans_suffix (List.suffix_append inner _)

def readGroup (opener closer : String) : Reader Group := fun tokens => do
  let (first, inside) ← readWord opener tokens
  match splitGroup opener closer 0 inside with
  | some (inner, last, rest) => return (⟨first, inner, last⟩, rest)
  | none => .error ⟨.unbalanced opener, []⟩

theorem readGroup_append {opener closer : String} {tokens rest : List Token} {group : Group}
    (h : readGroup opener closer tokens = .ok (group, rest)) : group.tokens ++ rest = tokens := by
  obtain ⟨⟨first, inside⟩, hopener, h⟩ := bind_eq_ok_iff.mp h
  dsimp only at h
  cases hsplit : splitGroup opener closer 0 inside with
  | none =>
    rw [hsplit] at h
    cases h
  | some found =>
    rw [hsplit] at h
    cases h
    rw [← readWord_append hopener, ← splitGroup_append hsplit, Group.tokens]
    simp

theorem readGroup_advances (opener closer : String) : Advances (readGroup opener closer) := by
  intro tokens group rest h
  exact .of_append (readGroup_append h) (List.cons_ne_nil _ _)

/-- The tokens after the group, if one comes next; else all of them. -/
def skipGroup (opener closer : String) (tokens : List Token) : Except Failure (List Token) :=
  if wordNext tokens opener then Prod.snd <$> readGroup opener closer tokens else .ok tokens

theorem skipGroup_suffix {opener closer : String} {tokens rest : List Token}
    (h : skipGroup opener closer tokens = .ok rest) : rest <:+ tokens := by
  rw [skipGroup] at h
  by_cases hopener : wordNext tokens opener
  · rw [if_pos hopener] at h
    cases hgroup : readGroup opener closer tokens with
    | error failure =>
      rw [hgroup] at h
      cases h
    | ok found =>
      rw [hgroup] at h
      cases h
      exact (readGroup_advances opener closer hgroup).suffix
  · rw [if_neg hopener] at h
    cases h
    exact List.suffix_refl _

/-! ## Lists -/

/-- Values with commas between them, at least one. -/
def readList {α : Type} (read : Reader α) (advances : Advances read) (tokens : List Token) :
    Except Failure (List α × List Token) := do
  let ⟨value, after, _h⟩ ← advances.take tokens
  match _hcomma : passWord? "," after with
  | none => return ([value], after)
  | some more =>
    let (values, rest) ← readList read advances more
    return (value :: values, rest)
termination_by tokens.length
decreasing_by exact ((passWord?_properSuffix _hcomma).trans _h).shorter

/-- What `readList` does, without the evidence of progress. -/
theorem readList_eq {α : Type} {read : Reader α} (advances : Advances read)
    (tokens : List Token) :
    readList read advances tokens = do
      let (value, after) ← read tokens
      match passWord? "," after with
      | none => return ([value], after)
      | some more =>
        let (values, rest) ← readList read advances more
        return (value :: values, rest) := by
  rw [readList]
  refine advances.take_bind_congr fun taken => ?_
  dsimp only [Taken.pair]
  split
  · next h => rw [h]
  · next h => rw [h]

theorem readList_advances {α : Type} {read : Reader α} (advances : Advances read) :
    Advances (readList read advances) := by
  intro tokens values rest h
  fun_induction readList read advances tokens generalizing values with
  | case1 tokens ih =>
    obtain ⟨⟨value, after, hvalue⟩, -, h⟩ := bind_eq_ok_iff.mp h
    dsimp only at h
    split at h
    · cases h
      exact hvalue
    · next more hcomma =>
      obtain ⟨⟨others, rest'⟩, hmore, h⟩ := bind_eq_ok_iff.mp h
      cases h
      exact (ih after hvalue more hcomma hmore).trans_trans (passWord?_properSuffix hcomma) hvalue

end WireSchema.Swift
