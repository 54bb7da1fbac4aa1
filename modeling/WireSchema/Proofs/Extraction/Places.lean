import WireSchema.Extraction.Evidence
import WireSchema.Proofs.Swift.Group

/-!
# Evidence without places

Whatever is looked for in a body shows in the kinds and texts of its tokens. So a body
may be searched as if all its tokens stood at one place.
-/

namespace WireSchema

namespace Swift

/-- Tokens of the faces, all at one place. -/
def placed (faces : List Face) : List Token :=
  faces.map fun face => face.token .start

def Token.unplaced (token : Token) : Token :=
  token.face.token .start

theorem placed_map_face (tokens : List Token) :
    placed (tokens.map Token.face) = tokens.map Token.unplaced := by
  rw [placed, List.map_map]
  rfl

theorem placed_nil : placed [] = [] := rfl

theorem placed_append (fs gs : List Face) : placed (fs ++ gs) = placed fs ++ placed gs :=
  List.map_append

theorem placed_cons (face : Face) (faces : List Face) :
    placed (face :: faces) = face.token .start :: placed faces := rfl

@[simp] theorem Token.isWord_unplaced (token : Token) (text : String) :
    token.unplaced.isWord text = token.isWord text := rfl

@[simp] theorem Token.isIdentifier_unplaced (token : Token) :
    token.unplaced.isIdentifier = token.isIdentifier := rfl

@[simp] theorem Token.kind_unplaced (token : Token) : token.unplaced.kind = token.kind := rfl

@[simp] theorem Token.text_unplaced (token : Token) : token.unplaced.text = token.text := rfl

theorem wordNext_unplaced (tokens : List Token) (text : String) :
    wordNext (tokens.map Token.unplaced) text = wordNext tokens text := by
  cases tokens <;> rfl

end Swift

namespace Extraction

open Swift

/-! ## Shapes -/

theorem firstShape?_unplaced {α : Type} {shape? : List Token → Option α}
    (h : ∀ tokens, shape? (tokens.map Token.unplaced) = shape? tokens) (tokens : List Token) :
    firstShape? shape? (tokens.map Token.unplaced) = firstShape? shape? tokens := by
  induction tokens with
  | nil => exact h []
  | cons token later ih =>
    have hhere := h (token :: later)
    rw [List.map_cons] at hhere
    rw [List.map_cons, firstShape?, firstShape?, hhere, ih]

theorem passWords?_unplaced (words : List String) (tokens : List Token) :
    passWords? words (tokens.map Token.unplaced) =
      (passWords? words tokens).map (List.map Token.unplaced) := by
  induction words generalizing tokens with
  | nil => rfl
  | cons word words ih =>
    cases tokens with
    | nil => rfl
    | cons token later =>
      rw [List.map_cons, passWords?, passWords?, Token.isWord_unplaced]
      split
      · exact ih later
      · rfl

theorem identifierText?_unplaced (tokens : List Token) :
    identifierText? (tokens.map Token.unplaced) = identifierText? tokens := by
  cases tokens with
  | nil => rfl
  | cons token later =>
    rw [List.map_cons, identifierText?, identifierText?, List.head?_cons, List.head?_cons,
      Option.filter_some, Option.filter_some, Token.isIdentifier_unplaced]
    split <;> rfl

theorem identifierAfter_unplaced (words : List String) (tokens : List Token) :
    (passWords? words (tokens.map Token.unplaced)).bind identifierText? =
      (passWords? words tokens).bind identifierText? := by
  rw [passWords?_unplaced]
  cases passWords? words tokens with
  | none => rfl
  | some rest => exact identifierText?_unplaced rest

theorem containsWords_unplaced (words : List String) (tokens : List Token) :
    containsWords words (tokens.map Token.unplaced) = containsWords words tokens := by
  have hsome : ∀ (shape? : List Token → Option (List Token)) (tokens : List Token),
      (firstShape? shape? tokens).isSome =
        (firstShape? (fun tokens => (shape? tokens).map fun _ => ()) tokens).isSome := by
    intro shape? tokens
    induction tokens with
    | nil => simp [firstShape?]
    | cons token later ih => simp [firstShape?, ih]
  rw [containsWords, containsWords, hsome, hsome]
  refine congrArg Option.isSome (firstShape?_unplaced (fun tokens => ?_) tokens)
  rw [passWords?_unplaced, Option.map_map]

theorem containsWord_unplaced (word : String) (tokens : List Token) :
    containsWord word (tokens.map Token.unplaced) = containsWord word tokens :=
  List.any_map

theorem assignedCase?_unplaced (tokens : List Token) :
    assignedCase? (tokens.map Token.unplaced) = assignedCase? tokens :=
  firstShape?_unplaced (identifierAfter_unplaced _) tokens

theorem decodedKey?_unplaced (tokens : List Token) :
    decodedKey? (tokens.map Token.unplaced) = decodedKey? tokens :=
  firstShape?_unplaced (identifierAfter_unplaced _) tokens

theorem tagEncoding?_unplaced (tokens : List Token) :
    tagEncoding? (tokens.map Token.unplaced) = tagEncoding? tokens := by
  rw [tagEncoding?, tagEncoding?, passWords?_unplaced]
  cases passWords? ["encode", "("] tokens with
  | none => rfl
  | some found =>
    cases found with
    | nil => rfl
    | cons tag rest =>
      simp only [Option.map_some, List.map_cons, Token.kind_unplaced, Token.text_unplaced,
        identifierAfter_unplaced]

theorem encodedTag?_unplaced (tokens : List Token) :
    encodedTag? (tokens.map Token.unplaced) = encodedTag? tokens :=
  firstShape?_unplaced tagEncoding?_unplaced tokens

theorem isPayloadEncoding_unplaced (tokens : List Token) :
    isPayloadEncoding (tokens.map Token.unplaced) = isPayloadEncoding tokens := by
  rw [isPayloadEncoding, isPayloadEncoding, passWords?_unplaced]
  cases passWords? ["encode", "("] tokens with
  | none => rfl
  | some found =>
    cases found with
    | nil => rfl
    | cons value rest =>
      simp only [Option.map_some, List.map_cons, Token.isIdentifier_unplaced,
        passWords?_unplaced, Option.isSome_map]

theorem encodesPayload_unplaced (tokens : List Token) :
    encodesPayload (tokens.map Token.unplaced) = encodesPayload tokens := by
  refine congrArg Option.isSome (firstShape?_unplaced (fun tokens => ?_) tokens)
  rw [isPayloadEncoding_unplaced]

theorem dottedNames_unplaced (tokens : List Token) :
    dottedNames (tokens.map Token.unplaced) = dottedNames tokens := by
  fun_induction dottedNames tokens with
  | case1 dot name rest hdotted ih =>
    simp only [List.map_cons] at ih ⊢
    rw [dottedNames, Token.isWord_unplaced, Token.isIdentifier_unplaced, if_pos hdotted, ih]
    rfl
  | case2 dot name rest hdotted ih =>
    simp only [List.map_cons] at ih ⊢
    rw [dottedNames, Token.isWord_unplaced, Token.isIdentifier_unplaced, if_neg hdotted, ih]
  | case3 tokens hshort =>
    match tokens, hshort with
    | [], _ => rfl
    | [token], _ => rfl
    | dot :: name :: rest, hshort => exact absurd rfl (hshort dot name rest)

/-! ## Switches -/

theorem splitPattern_unplaced (nested : Nat) (tokens : List Token) :
    splitPattern nested (tokens.map Token.unplaced) =
      ⟨(splitPattern nested tokens).pattern.map Token.unplaced,
        (splitPattern nested tokens).colon?.map Token.unplaced,
        (splitPattern nested tokens).rest.map Token.unplaced⟩ := by
  induction tokens generalizing nested with
  | nil => rfl
  | cons token later ih =>
    simp only [List.map_cons, splitPattern, Token.isWord_unplaced, ih]
    by_cases hopens : (token.isWord "(" || token.isWord "[") = true
    · rw [if_pos hopens, if_pos hopens]
      rfl
    · rw [if_neg hopens, if_neg hopens]
      by_cases hcloses : (token.isWord ")" || token.isWord "]") = true
      · rw [if_pos hcloses, if_pos hcloses]
        rfl
      · rw [if_neg hcloses, if_neg hcloses]
        split <;> rfl

def Arm.unplaced (arm : Arm) : Arm :=
  ⟨arm.keyword.unplaced, arm.pattern.map Token.unplaced, arm.colon?.map Token.unplaced,
    arm.body.map Token.unplaced⟩

def SwitchBody.unplaced (body : SwitchBody) : SwitchBody :=
  ⟨body.preamble.map Token.unplaced, body.arms.map Arm.unplaced⟩

theorem opensBracket_unplaced (token : Token) :
    opensBracket token.unplaced = opensBracket token := rfl

theorem closesBracket_unplaced (token : Token) :
    closesBracket token.unplaced = closesBracket token := rfl

theorem startsArm_unplaced (token : Token) (rest : List Token) :
    startsArm token.unplaced (rest.map Token.unplaced) = startsArm token rest := by
  rw [startsArm, startsArm, wordNext_unplaced]
  rfl

theorem splitArms_nil (depth : Nat) : splitArms depth [] = ⟨[], []⟩ := by
  rw [splitArms.eq_def]

theorem splitArms_cons (depth : Nat) (token : Token) (rest : List Token) :
    splitArms depth (token :: rest) =
      if opensBracket token then (splitArms (depth + 1) rest).withToken token
      else if closesBracket token then
        match depth with
        | 0 => ⟨[], []⟩
        | outer + 1 => (splitArms outer rest).withToken token
      else if depth == 0 && startsArm token rest then
        ⟨[], ⟨token, (splitPattern 0 rest).pattern, (splitPattern 0 rest).colon?,
          (splitArms 0 (splitPattern 0 rest).rest).preamble⟩ ::
            (splitArms 0 (splitPattern 0 rest).rest).arms⟩
      else (splitArms depth rest).withToken token :=
  (splitArms.eq_def depth (token :: rest)).trans rfl

theorem splitArms_unplaced (depth : Nat) (tokens : List Token) :
    splitArms depth (tokens.map Token.unplaced) = (splitArms depth tokens).unplaced := by
  fun_induction splitArms depth tokens with
  | case1 depth =>
    rw [List.map_nil, splitArms_nil]
    rfl
  | case2 depth token rest hopens ih =>
    rw [List.map_cons, splitArms_cons, opensBracket_unplaced, if_pos hopens, ih]
    rfl
  | case3 token rest hopens hcloses =>
    rw [List.map_cons, splitArms_cons, opensBracket_unplaced, if_neg hopens,
      closesBracket_unplaced, if_pos hcloses]
    rfl
  | case4 token rest hopens hcloses outer ih =>
    rw [List.map_cons, splitArms_cons, opensBracket_unplaced, if_neg hopens,
      closesBracket_unplaced, if_pos hcloses]
    dsimp only
    rw [ih]
    rfl
  | case5 depth token rest hopens hcloses hstarts split later ih =>
    rw [List.map_cons, splitArms_cons, opensBracket_unplaced, if_neg hopens,
      closesBracket_unplaced, if_neg hcloses, startsArm_unplaced, if_pos hstarts,
      splitPattern_unplaced]
    dsimp only
    rw [ih]
    rfl
  | case6 depth token rest hopens hcloses hstarts ih =>
    rw [List.map_cons, splitArms_cons, opensBracket_unplaced, if_neg hopens,
      closesBracket_unplaced, if_neg hcloses, startsArm_unplaced, if_neg hstarts, ih]
    rfl

theorem switchArms_unplaced (tokens : List Token) :
    switchArms (tokens.map Token.unplaced) = (switchArms tokens).map Arm.unplaced := by
  have hinside : afterOpeningBrace? (tokens.map Token.unplaced) =
      (afterOpeningBrace? tokens).map (List.map Token.unplaced) := by
    have hbrace : (fun token : Token => !token.isWord "\x7b") ∘ Token.unplaced =
        fun token => !token.isWord "\x7b" := rfl
    rw [afterOpeningBrace?, afterOpeningBrace?, List.dropWhile_map, hbrace]
    cases tokens.dropWhile fun token => !token.isWord "\x7b" <;> rfl
  rw [switchArms, switchArms, switchBody, switchBody, hinside]
  cases afterOpeningBrace? tokens with
  | none => rfl
  | some inside =>
    dsimp only [Option.map_some]
    rw [splitArms_unplaced]
    rfl

theorem fromSwitch?_unplaced (body : List Token) :
    fromSwitch? (body.map Token.unplaced) = (fromSwitch? body).map (List.map Token.unplaced) := by
  have hkeyword : (fun token : Token => !token.isWord "switch") ∘ Token.unplaced =
      fun token => !token.isWord "switch" := rfl
  rw [fromSwitch?, fromSwitch?, List.dropWhile_map, hkeyword]
  cases body.dropWhile fun token => !token.isWord "switch" <;> rfl

theorem beforeSwitchBody_unplaced (body : List Token) :
    beforeSwitchBody (body.map Token.unplaced) = (beforeSwitchBody body).map Token.unplaced := by
  rw [beforeSwitchBody, beforeSwitchBody, List.takeWhile_map, List.dropWhile_map,
    List.takeWhile_map, List.map_append]
  rfl

/-! ## Arms -/

@[simp] theorem Arm.body_unplaced (arm : Arm) :
    arm.unplaced.body = arm.body.map Token.unplaced := rfl

@[simp] theorem Arm.pattern_unplaced (arm : Arm) :
    arm.unplaced.pattern = arm.pattern.map Token.unplaced := rfl

theorem Arm.isDefault_unplaced (arm : Arm) : arm.unplaced.isDefault = arm.isDefault := rfl

theorem Arm.decodedTags_unplaced (arm : Arm) : arm.unplaced.decodedTags = arm.decodedTags := by
  have hpattern : (arm.pattern.map Token.unplaced).filter (fun token => token.kind == .string) =
      (arm.pattern.filter fun token => token.kind == .string).map Token.unplaced :=
    List.filter_map
  unfold Arm.decodedTags
  rw [Arm.body_unplaced, assignedCase?_unplaced, Arm.pattern_unplaced, hpattern]
  cases assignedCase? arm.body with
  | none => rfl
  | some case_ => exact List.map_map

theorem Arm.decodesInline_unplaced (arm : Arm) :
    arm.unplaced.decodesInline = arm.decodesInline :=
  containsWords_unplaced _ arm.body

theorem Arm.decodesWrapped_unplaced (arm : Arm) :
    arm.unplaced.decodesWrapped = arm.decodesWrapped := by
  rw [Arm.decodesWrapped, Arm.decodesWrapped, Arm.decodesInline_unplaced]
  exact congrArg _ (containsWords_unplaced _ arm.body)

theorem Arm.onlyThrows_unplaced (arm : Arm) : arm.unplaced.onlyThrows = arm.onlyThrows := by
  rw [Arm.onlyThrows, Arm.onlyThrows, Arm.body_unplaced, assignedCase?_unplaced,
    containsWord_unplaced]

theorem Arm.patternCases_unplaced (arm : Arm) :
    arm.unplaced.patternCases = arm.patternCases :=
  dottedNames_unplaced arm.pattern

theorem Arm.encodesInline_unplaced (arm : Arm) :
    arm.unplaced.encodesInline = arm.encodesInline :=
  containsWords_unplaced _ arm.body

theorem Arm.encodesWrapped_unplaced (arm : Arm) :
    arm.unplaced.encodesWrapped = arm.encodesWrapped := by
  rw [Arm.encodesWrapped, Arm.encodesWrapped, Arm.encodesInline_unplaced]
  exact congrArg _ (encodesPayload_unplaced arm.body)

theorem Arm.encodedTags_unplaced (arm : Arm) : arm.unplaced.encodedTags = arm.encodedTags := by
  rw [Arm.encodedTags, Arm.encodedTags, Arm.patternCases_unplaced,
    Arm.body_unplaced, encodedTag?_unplaced]

/-! ## Bodies -/

theorem filter_unplaced {p : Arm → Bool} (h : ∀ arm : Arm, p arm.unplaced = p arm)
    (arms : List Arm) : (arms.map Arm.unplaced).filter p = (arms.filter p).map Arm.unplaced := by
  rw [List.filter_map]
  exact congrArg _ (List.filter_congr fun arm _ => h arm)

theorem flatMap_unplaced {α : Type} {f : Arm → List α} (h : ∀ arm : Arm, f arm.unplaced = f arm)
    (arms : List Arm) : (arms.map Arm.unplaced).flatMap f = arms.flatMap f := by
  rw [List.flatMap_map]
  exact congrArg (fun g => arms.flatMap g) (funext h)

theorem filterMap_assignedCase?_unplaced (arms : List Arm) :
    (arms.map Arm.unplaced).filterMap (fun arm => assignedCase? arm.body) =
      arms.filterMap fun arm => assignedCase? arm.body := by
  rw [List.filterMap_map]
  exact congrArg (fun g => arms.filterMap g) (funext fun arm => assignedCase?_unplaced arm.body)

theorem assignedCases_unplaced (arms : List Arm) :
    assignedCases (arms.map Arm.unplaced) = assignedCases arms := by
  rw [assignedCases, assignedCases, filterMap_assignedCase?_unplaced]

/-- What an initializer shows does not depend on where its tokens stand. -/
theorem decodeEvidence_unplaced (body : List Token) :
    decodeEvidence (body.map Token.unplaced) = decodeEvidence body := by
  unfold decodeEvidence
  rw [containsWord_unplaced, containsWord_unplaced, beforeSwitchBody_unplaced,
    decodedKey?_unplaced, fromSwitch?_unplaced]
  cases fromSwitch? body with
  | none => rfl
  | some tokens =>
    dsimp only [Option.map_some]
    simp only [switchArms_unplaced, filter_unplaced Arm.isDefault_unplaced,
      filter_unplaced (p := fun arm => !arm.isDefault) fun arm => rfl,
      filter_unplaced Arm.decodesInline_unplaced, filter_unplaced Arm.decodesWrapped_unplaced,
      flatMap_unplaced Arm.decodedTags_unplaced, assignedCases_unplaced,
      filterMap_assignedCase?_unplaced, List.any_map]
    have honly : Arm.onlyThrows ∘ Arm.unplaced = Arm.onlyThrows :=
      funext Arm.onlyThrows_unplaced
    rw [honly]

/-- What an encoder shows does not depend on where its tokens stand. -/
theorem encodeEvidence_unplaced (body : List Token) :
    encodeEvidence (body.map Token.unplaced) = encodeEvidence body := by
  have htagged := filter_unplaced (p := fun arm =>
      !arm.isDefault && (encodedTag? arm.body).isSome) fun arm => by
    rw [Arm.isDefault_unplaced, Arm.body_unplaced, encodedTag?_unplaced]
  unfold encodeEvidence
  rw [fromSwitch?_unplaced]
  cases fromSwitch? body with
  | none => rfl
  | some tokens =>
    dsimp only [Option.map_some]
    simp only [switchArms_unplaced, htagged,
      filter_unplaced Arm.encodesInline_unplaced, filter_unplaced Arm.encodesWrapped_unplaced,
      flatMap_unplaced Arm.encodedTags_unplaced, flatMap_unplaced Arm.patternCases_unplaced,
      List.head?_map]
    cases ((switchArms tokens).filter fun arm =>
        !arm.isDefault && (encodedTag? arm.body).isSome).head? with
    | none => rfl
    | some arm =>
      rw [Option.map_some, Option.bind_some, Option.bind_some, Arm.body_unplaced,
        encodedTag?_unplaced]

end Extraction

end WireSchema
