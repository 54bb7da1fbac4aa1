import WireSchema.Proofs.Swift.Brackets
import WireSchema.Proofs.Swift.Scanner
import WireSchema.Swift.Parser.Expression
import WireSchema.Swift.Parser.TypeText

/-!
# The courses of groups, expressions and types

One scanner for each of these readers; what it reads is said beside the reader. A scanner of a type
gives nothing: the text of a type is made of the slice that the scanner has taken.
-/

namespace WireSchema.Swift

open Scanner

variable {rank : Nat} {start : List Token}

/-! ## Groups -/

/-- How many groups are open behind the token, unless it closes the outermost one. -/
def depthBehind? (opener closer : String) (depth : Nat) (token : Token) : Option Nat :=
  if token.isWord opener then some (depth + 1)
  else if token.isWord closer then
    match depth with
    | 0 => none
    | outer + 1 => some outer
  else some depth

def scanGroup (opener closer : String) : Scanner (rank + 1) Group :=
  call do
    let first ← word opener
    let inner ← slice (walk (depthBehind? opener closer) 0)
    match ← peek with
    | none => fail (.unbalanced opener)
    | some last =>
      advance
      return ⟨first, inner, last⟩

/-- Token by token the walk comes to where the group is split. -/
theorem splitGroup_eq_walkRest (opener closer : String) (depth : Nat) (tokens : List Token) :
    splitGroup opener closer depth tokens =
      match walkRest (depthBehind? opener closer) depth tokens with
      | [] => none
      | last :: after =>
        some (tokens.take (tokens.length - (last :: after).length), last, after) := by
  induction tokens generalizing depth with
  | nil => rfl
  | cons token rest ih =>
    have inside : ∀ d, (splitGroup opener closer d rest).map
          (fun found => (token :: found.1, found.2.1, found.2.2)) =
        match walkRest (depthBehind? opener closer) d rest with
        | [] => none
        | last :: after =>
          some ((token :: rest).take ((token :: rest).length - (last :: after).length),
            last, after) := by
      intro d
      rw [ih d]
      have hsuffix := walkRest_suffix (depthBehind? opener closer) d rest
      cases hwalk : walkRest (depthBehind? opener closer) d rest with
      | nil => rfl
      | cons last after =>
        rw [hwalk] at hsuffix
        have hlength : (token :: rest).length - (last :: after).length =
            rest.length - (last :: after).length + 1 := Nat.succ_sub hsuffix.length_le
        dsimp only
        rw [hlength, List.take_succ_cons]
        rfl
    simp only [splitGroup, walkRest, depthBehind?]
    by_cases hopener : token.isWord opener
    · rw [if_pos hopener, if_pos hopener]
      exact inside (depth + 1)
    · rw [if_neg hopener, if_neg hopener]
      by_cases hcloser : token.isWord closer
      · rw [if_pos hcloser, if_pos hcloser]
        cases depth with
        | zero => simp
        | succ outer => exact inside outer
      · rw [if_neg hcloser, if_neg hcloser]
        exact inside depth

theorem read_scanGroup (opener closer : String) :
    (scanGroup opener closer : Scanner (rank + 1) Group).read = readGroup opener closer := by
  funext start
  rw [scanGroup, read_call, read_bind, readGroup]
  refine bind_congr fun found => ?_
  obtain ⟨first, inside⟩ := found
  dsimp only
  rw [read_bind_of_ok (read_slice_walk _ 0), splitGroup_eq_walkRest]
  cases walkRest (depthBehind? opener closer) 0 inside with
  | nil => rfl
  | cons last after => rfl

def scanGroup? (opener closer : String) : Scanner (rank + 1) Unit := do
  if ← look (wordNext · opener) then
    let _ ← scanGroup opener closer

theorem read_scanGroup? (opener closer : String) :
    (scanGroup? opener closer : Scanner (rank + 1) Unit).read start =
      (fun rest => ((), rest)) <$> skipGroup opener closer start := by
  rw [scanGroup?, read_look_bind, skipGroup, read_ite, read_bind, read_scanGroup]
  by_cases hopener : wordNext start opener
  · rw [if_pos hopener, if_pos hopener]
    cases readGroup opener closer start with
    | error failure => rfl
    | ok found => rfl
  · rw [if_neg hopener, if_neg hopener]
    rfl

/-! ## Expressions -/

def expressionPass (afterDot : Bool) : Scanner (rank + 1) (Pass Bool Unit Unit) := do
  match ← peek with
  | none => return .done ()
  | some token =>
    if endsExpression token || startsDecl afterDot token then return .done ()
    else
      match groupOpenedBy? token with
      | some (opener, closer) =>
        -- A group that is never closed ends the expression; the cursor is then at the end.
        match ← attempt (scanGroup opener closer) with
        | some _ => return .more () false
        | none => return .done ()
      | none =>
        advance
        return .more () (token.isWord ".")

theorem isWord_of_groupOpenedBy? {token : Token} {opener closer : String}
    (h : groupOpenedBy? token = some (opener, closer)) : token.isWord opener = true := by
  rw [groupOpenedBy?] at h
  by_cases hkind : token.kind != .punctuation
  · rw [if_pos hkind] at h
    cases h
  · rw [if_neg hkind] at h
    have hword : ∀ text, token.text == text → token.isWord text = true := by
      intro text htext
      simp_all [Token.isWord]
    split at h
    · next htext =>
      cases h
      exact hword _ htext
    · split at h
      · next htext =>
        cases h
        exact hword _ htext
      · split at h
        · next htext =>
          cases h
          exact hword _ htext
        · cases h

theorem read_expressionPass (afterDot : Bool) (token : Token) (after : List Token) :
    (expressionPass afterDot : Scanner (rank + 1) _).read (token :: after) =
      if endsExpression token || startsDecl afterDot token then .ok (.done (), token :: after)
      else
        match groupOpenedBy? token with
        | some (opener, closer) =>
          match splitGroup opener closer 0 after with
          | some (_, _, rest) => .ok (.more () false, rest)
          | none => .ok (.done (), [])
        | none => .ok (.more () (token.isWord "."), after) := by
  rw [expressionPass, read_peek_bind_cons]
  dsimp only
  rw [read_ite]
  congr 1
  cases hgroup : groupOpenedBy? token with
  | none => rfl
  | some brackets =>
    obtain ⟨opener, closer⟩ := brackets
    dsimp only
    rw [read_bind, read_attempt, read_scanGroup, readGroup_cons,
      if_pos (isWord_of_groupOpenedBy? hgroup)]
    cases splitGroup opener closer 0 after with
    | none => rfl
    | some found => rfl

theorem moves_expressionPass (afterDot : Bool) (start : List Token) :
    Moves ((expressionPass afterDot : Scanner (rank + 1) _).read start) start := by
  intro item next rest h
  cases start with
  | nil => cases h
  | cons token after =>
    rw [read_expressionPass] at h
    split at h
    · cases h
    · split at h
      · split at h
        · next hsplit =>
          cases h
          exact (splitGroup_properSuffix hsplit).cons
        · cases h
      · cases h
        exact .tail

def scanExpression : Scanner (rank + 2) Unit :=
  call (loop expressionPass moves_expressionPass (fun _ _ => ()) false)

theorem read_scanExpression :
    (scanExpression : Scanner (rank + 2) Unit).read start =
      .ok ((), skipExpressionFrom false start) := by
  refine congrFun (read_loop (fun afterDot start =>
    .ok ((), skipExpressionFrom afterDot start)) ?_ false) start
  intro afterDot start
  cases start with
  | nil =>
    rw [skipExpressionFrom]
    rfl
  | cons token after =>
    rw [read_expressionPass, skipExpressionFrom]
    split
    · rfl
    · cases groupOpenedBy? token with
      | none => rfl
      | some brackets =>
        dsimp only
        cases splitGroup brackets.1 brackets.2 0 after with
        | none => rfl
        | some found => rfl

/-- The expression behind an equals sign, and whether there is one. -/
def scanAssignment : Scanner (rank + 2) Bool := do
  if ← eat "=" then
    scanExpression
    return true
  else return false

theorem read_scanAssignment :
    (scanAssignment : Scanner (rank + 2) Bool).read start = .ok (skipAssignment start) := by
  rw [scanAssignment, read_eat_bind, skipAssignment]
  cases passWord? "=" start with
  | none => rfl
  | some after => exact read_bind_of_ok read_scanExpression

/-! ## Types -/

/-- What is left behind the tokens that are read. -/
def skipping {α : Type} (read : Reader α) : Reader Unit := fun tokens =>
  (fun found => ((), found.2)) <$> read tokens

/-- What is left where `read` goes on behind what `next?` finds, and else nothing follows. -/
def skipOn {α β : Type} (next? : List Token → Option (α × List Token)) (read : Reader β) :
    Reader Unit := fun tokens =>
  match next? tokens with
  | some (_, after) => skipping read after
  | none => .ok ((), tokens)

/-- A reader of a chain, whatever it makes of the links and of what joins them. -/
theorem skipping_chain {α β : Type} {read link : Reader β}
    {next? : List Token → Option (α × List Token)} (join : β → α → β → β)
    (hread : ∀ tokens, read tokens = do
      let (first, afterFirst) ← link tokens
      match next? afterFirst with
      | some (joint, after) =>
        let (later, rest) ← read after
        return (join first joint later, rest)
      | none => return (first, afterFirst)) (tokens : List Token) :
    skipping read tokens = skipping link tokens >>= fun found => skipOn next? read found.2 := by
  rw [skipping, skipping, hread]
  cases link tokens with
  | error failure => rfl
  | ok found =>
    change _ = skipOn next? read found.2
    rw [skipOn]
    dsimp only [bind, Except.bind]
    cases next? found.2 with
    | none => rfl
    | some joint =>
      dsimp only
      rw [skipping]
      cases read joint.2 with
      | error failure => rfl
      | ok later => rfl

def splitQualifier? (_ : Unit) : List Token → Option (Unit × Unit × List Token)
  | first :: second :: rest =>
    if first.isWord "@" && second.isIdentifier then some ((), (), rest)
    else if first.isIdentifier && typePrefixes.contains first.text &&
        (second.isIdentifier || second.isWord "[" || second.isWord "(") then
      some ((), (), second :: rest)
    else none
  | _ => none

theorem splits_splitQualifier? : Splits splitQualifier? := by
  intro state start item next rest h
  rcases start with _ | ⟨first, _ | ⟨second, after⟩⟩
  · cases h
  · cases h
  · rw [splitQualifier?] at h
    split at h
    · cases h
      exact ⟨⟨2, by omega, rfl⟩, ProperSuffix.tail.cons⟩
    · split at h
      · cases h
        exact ⟨.tail first _, .tail⟩
      · cases h

def scanQualifiers : Scanner rank Unit :=
  splitEach splitQualifier? splits_splitQualifier? (fun _ _ => ()) () ()

theorem read_scanQualifiers :
    (scanQualifiers : Scanner rank Unit).read start = .ok ((), (splitQualifiers start).2) := by
  refine read_splitEach (fun _ start => ((), (splitQualifiers start).2)) ?_ ()
  intro state start
  rcases start with _ | ⟨first, _ | ⟨second, after⟩⟩
  · rfl
  · rfl
  · rw [splitQualifiers, splitQualifier?]
    split
    · rfl
    · split
      · rfl
      · rfl

theorem read_scanGroup?_arguments :
    (scanGroup? "<" ">" : Scanner (rank + 1) Unit).read = skipping readTypeArguments := by
  funext start
  rw [read_scanGroup?, skipping, skipGroup, readTypeArguments]
  split
  · cases readGroup "<" ">" start with
    | error failure => rfl
    | ok found => rfl
  · rfl

theorem steps_splitMember? {start run rest : List Token}
    (h : splitMember? start = some (run, rest)) : Steps start rest := by
  rcases start with _ | ⟨dot, _ | ⟨part, after⟩⟩
  · cases h
  · cases h
  · rw [splitMember?] at h
    split at h
    · cases h
      exact ⟨2, by omega, rfl⟩
    · cases h

def typePathPass (_ : Unit) : Scanner (rank + 1) (Pass Unit Unit Unit) := do
  match ← offer splitMember? steps_splitMember? with
  | none => return .done ()
  | some _ =>
    scanGroup? "<" ">"
    return .more () ()

theorem read_typePathPass (start : List Token) :
    (typePathPass () : Scanner (rank + 1) _).read start =
      match splitMember? start with
      | some (_, after) =>
        (fun found => (.more () (), found.2)) <$> skipping readTypeArguments after
      | none => .ok (.done (), start) := by
  rw [typePathPass, read_offer_bind]
  cases splitMember? start with
  | none => rfl
  | some found =>
    dsimp only
    rw [read_bind, read_scanGroup?_arguments]
    rfl

theorem moves_typePathPass (state : Unit) (start : List Token) :
    Moves ((typePathPass state : Scanner (rank + 1) _).read start) start := by
  intro item next rest h
  rw [read_typePathPass] at h
  split at h
  · next member after hmember =>
    rw [skipping] at h
    cases harguments : readTypeArguments after with
    | error failure =>
      rw [harguments] at h
      cases h
    | ok found =>
      rw [harguments] at h
      cases h
      have happend := readTypeArguments_append harguments
      exact .suffix_trans (happend ▸ List.suffix_append _ _) (splitMember?_properSuffix hmember)
  · cases h

def scanTypePath : Scanner (rank + 1) Unit := do
  scanGroup? "<" ">"
  loop typePathPass moves_typePathPass (fun _ last => last) ()

theorem skipping_readTypePath (tokens : List Token) :
    skipping readTypePath tokens =
      skipping readTypeArguments tokens >>= fun found =>
        skipOn splitMember? readTypePath found.2 := by
  refine skipping_chain (fun arguments member path => arguments ++ (member ++ path))
    (fun tokens => ?_) tokens
  rw [readTypePath_eq]
  refine bind_congr fun found => ?_
  dsimp only
  cases splitMember? found.2 with
  | none => rfl
  | some member => rfl

theorem read_scanTypePath :
    (scanTypePath : Scanner (rank + 1) Unit).read start = skipping readTypePath start := by
  rw [scanTypePath, read_bind, read_scanGroup?_arguments, skipping_readTypePath]
  refine bind_congr fun found => ?_
  refine congrFun (read_loop (fun _ => skipOn splitMember? readTypePath) ?_ ()) found.2
  intro state start
  rw [read_typePathPass, skipOn]
  cases splitMember? start with
  | none => rfl
  | some member =>
    dsimp only
    rw [skipping_readTypePath, bind_map_left]
    refine bind_congr fun found => ?_
    exact (Pass.goOn_more (fun _ => skipOn splitMember? readTypePath) ()).symm

def scanTypeCore : Scanner (rank + 1) Unit := do
  match ← peek with
  | none => fail (.expectedType "")
  | some token =>
    if token.isWord "[" then
      let _ ← scanGroup "[" "]"
    else if token.isWord "(" then
      let _ ← scanGroup "(" ")"
    else if token.isIdentifier then
      advance
      scanTypePath
    else fail (.expectedType token.text)

theorem read_scanTypeCore :
    (scanTypeCore : Scanner (rank + 1) Unit).read start = skipping readTypeCore start := by
  cases start with
  | nil => rfl
  | cons token after =>
    rw [scanTypeCore, read_peek_bind_cons, skipping, readTypeCore]
    dsimp only
    rw [read_ite, read_ite, read_ite, read_bind, read_bind, read_scanGroup, read_scanGroup,
      read_advance_bind, read_scanTypePath, skipping]
    split
    · cases readGroup "[" "]" (token :: after) with
      | error failure => rfl
      | ok found => rfl
    · split
      · cases readGroup "(" ")" (token :: after) with
        | error failure => rfl
        | ok found => rfl
      · split
        · cases readTypePath after with
          | error failure => rfl
          | ok found => rfl
        · rfl

def scanTypeOperand : Scanner (rank + 1) Unit := do
  scanQualifiers
  scanTypeCore
  walkWhile isTypeMark
  walkWhile isEffect

theorem read_scanTypeOperand :
    (scanTypeOperand : Scanner (rank + 1) Unit).read start = skipping readTypeOperand start := by
  rw [scanTypeOperand, read_bind_of_ok read_scanQualifiers, read_bind, read_scanTypeCore, skipping,
    skipping, readTypeOperand]
  cases readTypeCore (splitQualifiers start).2 with
  | error failure => rfl
  | ok found =>
    change (walkWhile isTypeMark >>= _).read found.2 = _
    rw [read_bind_of_ok (read_walkWhile _), read_walkWhile]
    rfl

theorem scanTypeOperand_advances {rest : List Token} {found : Unit}
    (h : (scanTypeOperand start : Scan (rank + 1) Unit start).outcome = .ok (found, rest)) :
    ProperSuffix rest start := by
  have hread : skipping readTypeOperand start = .ok (found, rest) :=
    read_scanTypeOperand.symm.trans h
  rw [skipping] at hread
  cases hoperand : readTypeOperand start with
  | error failure =>
    rw [hoperand] at hread
    cases hread
  | ok found =>
    rw [hoperand] at hread
    cases hread
    exact readTypeOperand_advances hoperand

theorem steps_splitTypeOperator? {start rest : List Token} {token : Token}
    (h : splitTypeOperator? start = some (token, rest)) : Steps start rest := by
  rw [← splitTypeOperator?_append h]
  exact .tail token rest

/-- Behind an operator another call goes on. It has the rank of this one although this one is still
open, since the operand has taken a token. -/
def scanTypeFrom (start : List Token) : Scan (rank + 2) Unit start :=
  Scan.call <| (scanTypeOperand start).andThen
    (fun _ afterOperand _hoperand =>
      (offer splitTypeOperator? steps_splitTypeOperator? afterOperand :
        Scan (rank + 2) (Option Token) afterOperand).andThen
        (fun operator rest _hoperator =>
          match operator with
          | some _ => scanTypeFrom rest
          | none => .pure () rest)
        fun _ _ h => .of_suffix (Scan.suffix_of_ok h))
    fun _ _ h => .of_properSuffix (scanTypeOperand_advances h) (by omega)
termination_by start.length
decreasing_by
  exact (ProperSuffix.suffix_trans (Scan.suffix_of_ok _hoperator)
    (scanTypeOperand_advances _hoperand)).shorter

theorem skipping_readTypeRun (tokens : List Token) :
    skipping readTypeRun tokens =
      skipping readTypeOperand tokens >>= fun found =>
        skipOn splitTypeOperator? readTypeRun found.2 := by
  refine skipping_chain (fun operand operator more => operand ++ operator :: more)
    (fun tokens => ?_) tokens
  rw [readTypeRun_eq]
  refine bind_congr fun found => ?_
  dsimp only
  cases splitTypeOperator? found.2 with
  | none => rfl
  | some operator => rfl

theorem outcome_scanTypeFrom (start : List Token) :
    (scanTypeFrom start : Scan (rank + 2) Unit start).outcome = skipping readTypeRun start := by
  have hfirst : (scanTypeOperand : Scanner (rank + 1) Unit).read start =
      skipping readTypeOperand start := read_scanTypeOperand
  rw [scanTypeFrom, Scan.outcome_call, skipping_readTypeRun, ← hfirst]
  refine Scan.outcome_andThen (fun found => skipOn splitTypeOperator? readTypeRun found.2)
    fun _ afterOperand hoperand => ?_
  refine (Scan.outcome_andThen (fun found =>
    match found.1 with
    | some _ => skipping readTypeRun found.2
    | none => .ok ((), found.2)) fun operator rest hoperator => ?_).trans ?_
  · cases operator with
    | none => rfl
    | some token =>
      have hrest := (ProperSuffix.suffix_trans (Scan.suffix_of_ok hoperator)
        (scanTypeOperand_advances hoperand)).shorter
      exact outcome_scanTypeFrom rest
  · change (offer splitTypeOperator? _).read afterOperand >>= _ = _
    rw [read_offer, skipOn]
    cases splitTypeOperator? afterOperand with
    | none => rfl
    | some found => rfl
termination_by start.length

def scanType : Scanner (rank + 2) Unit :=
  scanTypeFrom

theorem read_scanType : (scanType : Scanner (rank + 2) Unit).read = skipping readTypeRun :=
  funext outcome_scanTypeFrom

def scanTypeText : Scanner (rank + 3) String :=
  call do
    let run ← slice scanType
    return String.ofList (Text.trimChars (typeRunChars run))

theorem read_scanTypeText : (scanTypeText : Scanner (rank + 3) String).read = readTypeText := by
  funext start
  rw [scanTypeText, read_call, read_bind, read_slice, read_scanType, skipping, readTypeText]
  cases hrun : readTypeRun start with
  | error failure => rfl
  | ok found =>
    obtain ⟨run, rest⟩ := found
    have hrun' : start.take (start.length - rest.length) = run := by
      rw [← (readTypeRun_append hrun).1, List.length_append, Nat.add_sub_cancel,
        List.take_left]
    change Except.ok (String.ofList (Text.trimChars (typeRunChars
      (start.take (start.length - rest.length)))), rest) = _
    rw [hrun']
    rfl

def scanTypeClause : Scanner (rank + 3) (Option String) := do
  if ← eat ":" then
    let type ← scanTypeText
    return some type
  else return none

theorem read_scanTypeClause :
    (scanTypeClause : Scanner (rank + 3) (Option String)).read = readTypeClause := by
  funext start
  rw [scanTypeClause, read_eat_bind, readTypeClause]
  cases passWord? ":" start with
  | none => rfl
  | some after =>
    change (scanTypeText >>= _).read after = _
    rw [read_bind, read_scanTypeText]
    rfl

end WireSchema.Swift
