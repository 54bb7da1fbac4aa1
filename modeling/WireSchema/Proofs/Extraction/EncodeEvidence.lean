import WireSchema.Proofs.Extraction.DecodeEvidence

/-!
# What a generated encoder shows

The encoder of a union has an arm for each variant, and no name of a schema ends an arm
early. With a discriminator the arm shows the tag, and for a payload of one value where
it lies unless the value is optional. Without one no arm shows a tag.
-/

namespace WireSchema

open Generation Swift
open Text (isIdentifier isIdentifier_keyCaseName)

/-! ## Arms of an encoder -/

namespace Generation

/-- A pattern without the keyword before it and the colon after it. -/
def boundFaces (name : String) (bindings : List String) : List Face :=
  .symbol "." :: .word name ::
    (if bindings.isEmpty then []
      else .symbol "(" :: (commaFaces (bindings.map fun binding => [.word "let", .word binding]) ++
        [.symbol ")"]))

theorem patternFaces_eq (name : String) (bindings : List String) :
    patternFaces name bindings = .word "case" :: (boundFaces name bindings ++ [.symbol ":"]) := rfl

def VariantForm.boundNames (variant : VariantForm) : List String :=
  if variant.isFallback then []
  else
    match variant.payload with
    | .wrapped _ => ["payload"]
    | .inline fields => fields.map FieldForm.name
    | .unit => []

def refusedFaces : List Face :=
  [.word "throw", .word "EncodingError", .symbol ".", .word "invalidValue", .symbol "(",
    .word "self", .symbol ",", .word "EncodingError", .symbol ".", .word "Context", .symbol "(",
    .word "codingPath", .symbol ":", .word "encoder", .symbol ".", .word "codingPath",
    .symbol ",", .word "debugDescription", .symbol ":",
    .quoted "An unknown variant cannot be encoded", .symbol ")", .symbol ")"]

def VariantForm.payloadFaces (style : DiscriminatorStyle) (variant : VariantForm) : List Face :=
  match variant.payload, style with
  | .wrapped type, .wrapped =>
    encodeCallFaces (.word "payload") type.isOptional (Text.keyCaseName variant.tag)
  | .wrapped _, .inline =>
    [.word "try", .word "payload", .symbol ".", .word "encode", .symbol "(", .word "to",
      .symbol ":", .word "encoder", .symbol ")"]
  | .inline fields, _ => fields.flatMap FieldForm.encodedFaces
  | .unit, _ => []

def VariantForm.taggedFaces (disc : Discriminator) (variant : VariantForm) : List Face :=
  if variant.isFallback then refusedFaces
  else encodeCallFaces (.quoted variant.tag) false (tagKey disc) ++ variant.payloadFaces disc.style

theorem VariantForm.taggedEncodeFaces_eq (disc : Discriminator) (variant : VariantForm) :
    variant.taggedEncodeFaces disc =
      patternFaces variant.name variant.boundNames ++ variant.taggedFaces disc := by
  unfold taggedEncodeFaces boundNames taggedFaces payloadFaces
  cases variant.isFallback with
  | true => rfl
  | false =>
    cases variant.payload with
    | unit => simp
    | inline fields => simp
    | wrapped type => cases disc.style <;> simp

end Generation

namespace Extraction

def encodeArm (name : String) (bindings : List String) (body : List Face) : Arm :=
  ⟨(Face.word "case").token .start, placed (boundFaces name bindings),
    some ((Face.symbol ":").token .start), placed body⟩

theorem steady_boundFaces {name : String} (hname : isIdentifier name = true)
    {bindings : List String} (h : ∀ binding ∈ bindings, isIdentifier binding = true) :
    Steady false isColon (boundFaces name bindings) := by
  have hcolon : isColon (.word name) = false :=
    Face.isWord_word_of_isIdentifier hname (by decide)
  refine .cons (by decide) (by decide) (.cons (isSolid_word hname) hcolon ?_)
  split
  · rfl
  · refine .parens (.commaFaces fun item hitem => ?_)
    obtain ⟨binding, hbinding, rfl⟩ := List.mem_map.mp hitem
    exact .cons rfl (.cons (isSolid_word (h binding hbinding)) .nil)

section

variable {variants : List VariantForm} {bindings : VariantForm → List String}
  {body : VariantForm → List Face}
  (hnames : ∀ variant ∈ variants, isIdentifier variant.name = true)
  (hbindings : ∀ variant ∈ variants, ∀ binding ∈ bindings variant, isIdentifier binding = true)
  (hbody : ∀ variant ∈ variants, Steady true mayStartArm (body variant))

include hnames hbindings hbody

theorem splitArms_encodeArms :
    splitArms 0 (placed (variants.flatMap fun variant =>
        patternFaces variant.name (bindings variant) ++ body variant) ++ placed [.symbol "\x7d"]) =
      ⟨[], variants.map fun variant => encodeArm variant.name (bindings variant) (body variant)⟩ := by
  induction variants with
  | nil => exact splitArms_close []
  | cons variant later ih =>
    have hlater := ih (fun other hother => hnames other (List.mem_cons_of_mem _ hother))
      (fun other hother => hbindings other (List.mem_cons_of_mem _ hother))
      (fun other hother => hbody other (List.mem_cons_of_mem _ hother))
    have hpattern := steady_boundFaces (hnames variant List.mem_cons_self)
      (hbindings variant List.mem_cons_self)
    have harm := splitArms_keyword hpattern (placed (body variant) ++
      (placed (later.flatMap fun variant =>
        patternFaces variant.name (bindings variant) ++ body variant) ++ placed [.symbol "\x7d"]))
    rw [splitArms_append (hbody variant List.mem_cons_self), hlater] at harm
    have htokens : placed ((variant :: later).flatMap fun variant =>
        patternFaces variant.name (bindings variant) ++ body variant) ++ placed [.symbol "\x7d"] =
        (Face.word "case").token .start :: (placed (boundFaces variant.name (bindings variant)) ++
          (Face.symbol ":").token .start :: (placed (body variant) ++
            (placed (later.flatMap fun variant =>
              patternFaces variant.name (bindings variant) ++ body variant) ++
              placed [.symbol "\x7d"]))) := by
      simp [patternFaces_eq, placed_append, placed_cons, placed_nil]
    rw [htokens, harm]
    simp [SwitchBody.withTokens, encodeArm]

/-- The arms of the switch in the body of an encoder. -/
theorem switchArms_encodeBody {container : List Face} (hcontainer : lacks "\x7b" container = true) :
    ∃ tokens, fromSwitch? (placed (encodeBodyFaces container (variants.flatMap fun variant =>
        patternFaces variant.name (bindings variant) ++ body variant))) = some tokens ∧
      switchArms tokens =
        variants.map fun variant => encodeArm variant.name (bindings variant) (body variant) := by
  have htokens : placed (encodeBodyFaces container (variants.flatMap fun variant =>
        patternFaces variant.name (bindings variant) ++ body variant)) =
      placed ([.word "var", .word "container", .symbol "=", .word "encoder", .symbol "."] ++
        container ++ [.word "switch", .word "self"]) ++ (Face.symbol "\x7b").token .start ::
        (placed (variants.flatMap fun variant =>
          patternFaces variant.name (bindings variant) ++ body variant) ++ placed [.symbol "\x7d"]) := by
    simp [encodeBodyFaces, switchFaces, placed_append, placed_cons, placed_nil]
  have hlacks : lacks "\x7b" ([.word "var", .word "container", .symbol "=", .word "encoder",
      .symbol "."] ++ container ++ [.word "switch", .word "self"]) = true := by
    rw [lacks_append, lacks_append, hcontainer]
    rfl
  have hswitch : (placed ([.word "var", .word "container", .symbol "=", .word "encoder",
      .symbol "."] ++ container ++ [.word "switch", .word "self"])).any
        (·.isWord "switch") = true := by
    rw [placed_append, List.any_append]
    exact Bool.or_true _
  obtain ⟨tokens, hfrom, hcut⟩ := switchArms_front hswitch (isWord_of_lacks hlacks)
    (placed (variants.flatMap fun variant =>
      patternFaces variant.name (bindings variant) ++ body variant) ++ placed [.symbol "\x7d"])
  refine ⟨tokens, htokens ▸ hfrom, ?_⟩
  rw [hcut, splitArms_encodeArms hnames hbindings hbody]

end

/-! ## What an arm shows -/

theorem dottedNames_eq_nil {tokens : List Token}
    (h : ∀ token ∈ tokens, token.isWord "." = false) : dottedNames tokens = [] := by
  fun_induction dottedNames tokens with
  | case1 dot name rest hdotted =>
    rw [h dot List.mem_cons_self] at hdotted
    cases hdotted
  | case2 dot name rest _ ih => exact ih fun token htoken => h token (List.mem_cons_of_mem dot htoken)
  | case3 => rfl

theorem lacks_commaFaces {word : String} (hcomma : ("," == word) = false) {items : List (List Face)}
    (h : ∀ item ∈ items, lacks word item = true) : lacks word (commaFaces items) = true := by
  have hsymbol : ∀ faces, lacks word (.symbol "," :: faces) = lacks word faces := by
    intro faces
    have hface : (Face.symbol ",").isWord word = false := hcomma
    rw [lacks, List.all_cons, hface]
    rfl
  fun_induction commaFaces items with
  | case1 => rfl
  | case2 item => exact h item List.mem_cons_self
  | case3 item later hlater ih =>
    have hmore := ih fun next hnext => h next (List.mem_cons_of_mem item hnext)
    rw [lacks_append, hsymbol, h item List.mem_cons_self, hmore]
    rfl

/-- The pattern of an arm names one case, whatever it binds. -/
theorem patternCases_encodeArm {name : String} (hname : isIdentifier name = true)
    {bindings : List String} (h : ∀ binding ∈ bindings, isIdentifier binding = true)
    (body : List Face) : (encodeArm name bindings body).patternCases = [name] := by
  have hdot : isIdentifier "." = false := by decide
  have hbindings : lacks "." (if bindings.isEmpty then [] else .symbol "(" ::
      (commaFaces (bindings.map fun binding => [.word "let", .word binding]) ++
        [.symbol ")"])) = true := by
    split
    · rfl
    · have hlist : lacks "." (commaFaces (bindings.map fun binding =>
          [.word "let", .word binding])) = true := by
        refine lacks_commaFaces (by decide) fun item hitem => ?_
        obtain ⟨binding, hbinding, rfl⟩ := List.mem_map.mp hitem
        exact lacks_word (h binding hbinding) hdot []
      have hgroup := lacks_append "." (commaFaces (bindings.map fun binding =>
        [.word "let", .word binding])) [.symbol ")"]
      rw [hlist] at hgroup
      exact hgroup
  have hrest := dottedNames_eq_nil (isWord_of_lacks ((lacks_word hname hdot _).trans hbindings))
  show name :: dottedNames (placed (.word name :: _)) = [name]
  rw [hrest]

theorem encodedTag?_tagged (disc : Discriminator) (variant : VariantForm) :
    encodedTag? (placed (variant.taggedFaces disc)) =
      if variant.isFallback then none else some (variant.tag, tagKey disc) := by
  unfold VariantForm.taggedFaces
  cases variant.isFallback with
  | true => rfl
  | false =>
    rw [if_neg (by simp), if_neg (by simp), placed_append]
    show some (stringValue (stringLiteral variant.tag), tagKey disc) = _
    rw [stringValue_stringLiteral]

def encodesInline (disc : Discriminator) (variant : VariantForm) : Bool :=
  containsWords ["to", ":", "encoder"] (placed (variant.taggedFaces disc))

def encodesWrapped (disc : Discriminator) (variant : VariantForm) : Bool :=
  !encodesInline disc variant && encodesPayload (placed (variant.taggedFaces disc))

/-! ## The body of an encoder -/

theorem isIdentifier_of_mem_boundNames {variant : VariantForm} (h : variant.IsWritable) :
    ∀ binding ∈ variant.boundNames, isIdentifier binding = true := by
  have hpayload := h.payload
  intro binding hbinding
  unfold VariantForm.boundNames at hbinding
  split at hbinding
  · cases hbinding
  · split at hbinding
    · cases List.mem_singleton.mp hbinding
      decide
    · next fields hfields =>
      rw [hfields] at hpayload
      obtain ⟨field, hfield, rfl⟩ := List.mem_map.mp hbinding
      exact (hpayload.2 field hfield).name
    · cases hbinding

theorem steady_encodeCallFaces {value : Face} (hvalue : isSolid value = true) (isOptional : Bool)
    {key : String} (hkey : isIdentifier key = true) :
    Steady true mayStartArm (encodeCallFaces value isOptional key) := by
  have hmethod : isSolid (.word (coderMethod "encode" isOptional)) = true :=
    isSolid_word (isIdentifier_coderMethod isOptional).2
  have hstops : mayStartArm (.word (coderMethod "encode" isOptional)) = false := by
    cases isOptional <;> decide
  have harguments : Nested [value, .symbol ",", .word "forKey", .symbol ":", .symbol ".",
      .word key] :=
    .cons hvalue (.cons rfl (.cons rfl (.cons rfl (.cons rfl (.cons (isSolid_word hkey) .nil)))))
  exact .cons (by decide) (by decide) (.cons (by decide) (by decide) (.cons (by decide) (by decide)
    (.cons hmethod hstops (.parens harguments))))

theorem steady_taggedFaces (disc : Discriminator) {variant : VariantForm} (h : variant.IsWritable) :
    Steady true mayStartArm (variant.taggedFaces disc) := by
  have hpayload := h.payload
  have hvalue : isSolid (.quoted variant.tag) = true := rfl
  have htag := steady_encodeCallFaces hvalue false (isIdentifier_keyCaseName disc.field)
  unfold VariantForm.taggedFaces
  cases variant.isFallback with
  | true => exact Eq.refl (some 0)
  | false =>
    refine htag.append ?_
    unfold VariantForm.payloadFaces
    cases hkind : variant.payload with
    | unit => rfl
    | wrapped type =>
      cases disc.style with
      | wrapped =>
        exact steady_encodeCallFaces (by decide) type.isOptional
          (isIdentifier_keyCaseName variant.tag)
      | inline => exact Eq.refl (some 0)
    | inline fields =>
      rw [hkind] at hpayload
      exact .flatMap fun field hfield => steady_encodeCallFaces
        (isSolid_word (hpayload.2 field hfield).name) field.isOptional (hpayload.2 field hfield).name

def taggedArm (disc : Discriminator) (variant : VariantForm) : Arm :=
  encodeArm variant.name variant.boundNames (variant.taggedFaces disc)

/-- The arms that encode a tag are those of the variants that have one. -/
theorem mem_filter_taggedArm {disc : Discriminator} {variants : List VariantForm} {arm : Arm} :
    arm ∈ (variants.map (taggedArm disc)).filter (fun arm =>
        !arm.isDefault && (encodedTag? arm.body).isSome) ↔
      ∃ variant ∈ variants, variant.isFallback = false ∧ taggedArm disc variant = arm := by
  have hshown : ∀ variant : VariantForm, (!(taggedArm disc variant).isDefault &&
      (encodedTag? (taggedArm disc variant).body).isSome) = !variant.isFallback := by
    intro variant
    have hdefault : (taggedArm disc variant).isDefault = false := rfl
    have htag : encodedTag? (taggedArm disc variant).body = _ := encodedTag?_tagged disc variant
    rw [hdefault, htag]
    cases variant.isFallback <;> rfl
  rw [List.mem_filter]
  constructor
  · rintro ⟨hmem, hkept⟩
    obtain ⟨variant, hvariant, rfl⟩ := List.mem_map.mp hmem
    rw [hshown] at hkept
    exact ⟨variant, hvariant, by simpa using hkept, rfl⟩
  · rintro ⟨variant, hvariant, hkept, rfl⟩
    refine ⟨List.mem_map_of_mem hvariant, ?_⟩
    rw [hshown, hkept]
    rfl

/-- The key of the tag is seen if any variant has a tag. -/
theorem tagKey_taggedArms (disc : Discriminator) (variants : List VariantForm) :
    ((((variants.map (taggedArm disc)).filter fun arm =>
        !arm.isDefault && (encodedTag? arm.body).isSome).head?.bind fun arm =>
          encodedTag? arm.body).map Prod.snd) =
      if variants.any fun variant => !variant.isFallback then some (tagKey disc) else none := by
  cases hlist : (variants.map (taggedArm disc)).filter fun arm =>
      !arm.isDefault && (encodedTag? arm.body).isSome with
  | nil =>
    have hnone : (variants.any fun variant => !variant.isFallback) = false := by
      refine List.any_eq_false.mpr fun variant hvariant hkept => ?_
      have harm : taggedArm disc variant ∈ _ :=
        mem_filter_taggedArm.mpr ⟨variant, hvariant, by simpa using hkept, rfl⟩
      rw [hlist] at harm
      cases harm
    rw [hnone]
    rfl
  | cons first later =>
    have hfirst : first ∈ (variants.map (taggedArm disc)).filter fun arm =>
        !arm.isDefault && (encodedTag? arm.body).isSome := hlist ▸ List.mem_cons_self
    obtain ⟨variant, hvariant, hkept, rfl⟩ := mem_filter_taggedArm.mp hfirst
    have hsome : (variants.any fun variant => !variant.isFallback) = true :=
      List.any_eq_true.mpr ⟨variant, hvariant, by simp [hkept]⟩
    have htag : encodedTag? (taggedArm disc variant).body = _ := encodedTag?_tagged disc variant
    rw [hkept, if_neg (by simp)] at htag
    rw [hsome, List.head?_cons, Option.bind_some, htag]
    rfl

section

variable {disc : Discriminator} {variants : List VariantForm}
  (h : ∀ variant ∈ variants, variant.IsWritable)

include h

theorem patternCases_taggedArm {variant : VariantForm} (hvariant : variant ∈ variants) :
    (taggedArm disc variant).patternCases = [variant.name] :=
  patternCases_encodeArm (h variant hvariant).name
    (isIdentifier_of_mem_boundNames (h variant hvariant)) _

/-- The cases in the patterns of the arms that encode a tag and satisfy `p`. -/
theorem contains_patternCases {p : Arm → Bool} {name : String} :
    (NameSet.ofNames ((((variants.map (taggedArm disc)).filter fun arm =>
        !arm.isDefault && (encodedTag? arm.body).isSome).filter p).flatMap
          Arm.patternCases)).contains name = true ↔
      ∃ variant ∈ variants, variant.isFallback = false ∧ variant.name = name ∧
        p (taggedArm disc variant) = true := by
  rw [NameSet.contains_ofNames, List.mem_flatMap]
  constructor
  · rintro ⟨arm, harm, hname⟩
    obtain ⟨htagged, hp⟩ := List.mem_filter.mp harm
    obtain ⟨variant, hvariant, hkept, rfl⟩ := mem_filter_taggedArm.mp htagged
    rw [patternCases_taggedArm h hvariant] at hname
    exact ⟨variant, hvariant, hkept, (List.mem_singleton.mp hname).symm, hp⟩
  · rintro ⟨variant, hvariant, hkept, rfl, hp⟩
    refine ⟨taggedArm disc variant, List.mem_filter.mpr
      ⟨mem_filter_taggedArm.mpr ⟨variant, hvariant, hkept, rfl⟩, hp⟩, ?_⟩
    rw [patternCases_taggedArm h hvariant]
    exact List.mem_singleton_self _

theorem encodedTags_taggedArm {variant : VariantForm} (hvariant : variant ∈ variants)
    (hkept : variant.isFallback = false) :
    (taggedArm disc variant).encodedTags = [(variant.tag, variant.name)] := by
  have htag : encodedTag? (taggedArm disc variant).body = _ := encodedTag?_tagged disc variant
  rw [hkept, if_neg (by simp)] at htag
  rw [Arm.encodedTags, htag, patternCases_taggedArm h hvariant]
  rfl

/-- What the encoder of a tagged union shows. -/
theorem encodeEvidence_tagged {evidence : EncodeEvidence}
    (hevidence : encodeEvidence (placed (encodeBodyFaces keyedContainerFaces
      (variants.flatMap (VariantForm.taggedEncodeFaces disc)))) = evidence) :
    evidence.tagKey =
        (if variants.any fun variant => !variant.isFallback then some (tagKey disc) else none) ∧
      Tells variants (fun _ => True) (encodesInline disc) (encodesWrapped disc) evidence.tags
        evidence.inlineCases evidence.wrappedCases := by
  have hfaces : variants.flatMap (VariantForm.taggedEncodeFaces disc) =
      variants.flatMap fun variant =>
        patternFaces variant.name variant.boundNames ++ variant.taggedFaces disc :=
    congrArg variants.flatMap (funext (VariantForm.taggedEncodeFaces_eq disc))
  obtain ⟨tokens, hfrom, hcut⟩ := switchArms_encodeBody
    (fun variant hvariant => (h variant hvariant).name)
    (fun variant hvariant => isIdentifier_of_mem_boundNames (h variant hvariant))
    (fun variant hvariant => steady_taggedFaces disc (h variant hvariant))
    (show lacks "\x7b" keyedContainerFaces = true from rfl)
  have harms : switchArms tokens = variants.map (taggedArm disc) := hcut
  rw [hfaces, encodeEvidence, hfrom] at hevidence
  dsimp only at hevidence
  rw [harms] at hevidence
  subst hevidence
  dsimp only
  refine ⟨tagKey_taggedArms disc variants, ?_⟩
  constructor
  · intro claim
    constructor
    · intro hclaim
      obtain ⟨arm, harm, htag⟩ := List.mem_flatMap.mp hclaim
      obtain ⟨variant, hvariant, hkept, rfl⟩ := mem_filter_taggedArm.mp harm
      rw [encodedTags_taggedArm h hvariant hkept] at htag
      exact ⟨variant, hvariant, hkept, trivial, List.mem_singleton.mp htag⟩
    · rintro ⟨variant, hvariant, hkept, -, rfl⟩
      refine List.mem_flatMap.mpr ⟨taggedArm disc variant,
        mem_filter_taggedArm.mpr ⟨variant, hvariant, hkept, rfl⟩, ?_⟩
      rw [encodedTags_taggedArm h hvariant hkept]
      exact List.mem_singleton_self _
  · intro name
    simp only [true_and]
    exact contains_patternCases h
  · intro name
    simp only [true_and]
    exact contains_patternCases h

end

/-! ## Payloads of one value -/

theorem encodesPayload_cons (token : Token) (rest : List Token) :
    encodesPayload (token :: rest) =
      (isPayloadEncoding (token :: rest) || encodesPayload rest) := by
  rw [encodesPayload, firstShape?, Option.isSome_or, encodesPayload]
  cases isPayloadEncoding (token :: rest) <;> rfl

/-- A name before a closing parenthesis is no method that is called. -/
theorem isPayloadEncoding_key (key : String) (rest : List Token) :
    isPayloadEncoding ((Face.word key).token .start :: (Face.symbol ")").token .start :: rest) =
      false := by
  have hwords : passWords? ["encode", "("]
      ((Face.word key).token .start :: (Face.symbol ")").token .start :: rest) = none := by
    rw [passWords?]
    split
    · rfl
    · rfl
  rw [isPayloadEncoding, hwords]

/-- A literal that is encoded is no payload. -/
theorem encodesPayload_tagCall (tag key : String) (rest : List Token) :
    encodesPayload (placed (encodeCallFaces (.quoted tag) false key) ++ rest) =
      encodesPayload rest := by
  have hfront : ∀ tokens : List Token, encodesPayload (placed [.word "try", .word "container",
      .symbol ".", .word "encode", .symbol "(", .quoted tag, .symbol ",", .word "forKey",
      .symbol ":", .symbol "."] ++ tokens) = encodesPayload tokens := fun _ => rfl
  have hback : ∀ tokens : List Token,
      encodesPayload ((Face.symbol ")").token .start :: tokens) = encodesPayload tokens :=
    fun _ => rfl
  have htokens : placed (encodeCallFaces (.quoted tag) false key) ++ rest =
      placed [.word "try", .word "container", .symbol ".", .word "encode", .symbol "(",
        .quoted tag, .symbol ",", .word "forKey", .symbol ":", .symbol "."] ++
      ((Face.word key).token .start :: (Face.symbol ")").token .start :: rest) := rfl
  rw [htokens, hfront, encodesPayload_cons, isPayloadEncoding_key, hback, Bool.false_or]

section

variable {disc : Discriminator} {variant : VariantForm} {type : TypeExpr}
  (hkept : variant.isFallback = false) (htype : variant.payload = .wrapped type)

include hkept htype

theorem taggedFaces_wrapped (hstyle : disc.style = .wrapped) :
    variant.taggedFaces disc = encodeCallFaces (.quoted variant.tag) false (tagKey disc) ++
      encodeCallFaces (.word "payload") type.isOptional (Text.keyCaseName variant.tag) := by
  unfold VariantForm.taggedFaces VariantForm.payloadFaces
  rw [hkept, if_neg (by simp), htype, hstyle]

/-- A payload under a key is not taken for the whole value. -/
theorem encodesInline_wrapped (hstyle : disc.style = .wrapped) :
    encodesInline disc variant = false := by
  have hkey : isIdentifier (tagKey disc) = true := isIdentifier_keyCaseName disc.field
  have hclose : ∀ other ∈ ["to", ":", "encoder"],
      ((Face.symbol ")").token .start).isWord other = false := by decide
  have hlacks : lacks "to" [.word "try", .word "container", .symbol ".", .word "encode",
      .symbol "(", .quoted variant.tag, .symbol ",", .word "forKey", .symbol ":", .symbol "."] =
        true := rfl
  have htag := containsWords_append_of_lacks [":", "encoder"] hlacks
    (placed [.word (tagKey disc)] ++ (Face.symbol ")").token .start ::
      placed (encodeCallFaces (.word "payload") type.isOptional (Text.keyCaseName variant.tag)))
  have hkeyed : containsWords ["to", ":", "encoder"] (placed [.word (tagKey disc)]) = false :=
    containsWords_of_lacks (by decide : ":" ∈ ["to", ":", "encoder"])
      (lacks_word hkey (by decide : isIdentifier ":" = false) [])
  have hpayload : containsWords ["to", ":", "encoder"] (placed (encodeCallFaces (.word "payload")
      type.isOptional (Text.keyCaseName variant.tag))) = false := by
    have hlacks : lacks "to" [.word "try", .word "container", .symbol ".",
        .word (coderMethod "encode" type.isOptional), .symbol "(", .word "payload", .symbol ",",
        .word "forKey", .symbol ":", .symbol "."] = true := by cases type.isOptional <;> rfl
    have hfront := containsWords_append_of_lacks [":", "encoder"] hlacks
      (placed [.word (Text.keyCaseName variant.tag), .symbol ")"])
    have hback : lacks ":" [.word (Text.keyCaseName variant.tag), .symbol ")"] = true :=
      lacks_word (isIdentifier_keyCaseName variant.tag) (by decide : isIdentifier ":" = false)
        [.symbol ")"]
    exact hfront.trans (containsWords_of_lacks (by decide : ":" ∈ ["to", ":", "encoder"]) hback)
  rw [containsWords_append_cons hclose, hkeyed, hpayload] at htag
  rw [encodesInline, taggedFaces_wrapped hkept htype hstyle]
  exact htag

/-- A payload under a key is seen unless it is optional. -/
theorem encodesWrapped_wrapped (hstyle : disc.style = .wrapped) :
    encodesWrapped disc variant = !type.isOptional := by
  rw [encodesWrapped, encodesInline_wrapped hkept htype hstyle,
    taggedFaces_wrapped hkept htype hstyle, placed_append, encodesPayload_tagCall]
  cases type.isOptional with
  | false => rfl
  | true =>
    have htokens : placed (encodeCallFaces (.word "payload") true (Text.keyCaseName variant.tag)) =
        placed [.word "try", .word "container", .symbol ".", .word "encodeIfPresent", .symbol "(",
          .word "payload", .symbol ",", .word "forKey", .symbol ":", .symbol "."] ++
        [(Face.word (Text.keyCaseName variant.tag)).token .start,
          (Face.symbol ")").token .start] := rfl
    have hfront : ∀ tokens : List Token, encodesPayload (placed [.word "try", .word "container",
        .symbol ".", .word "encodeIfPresent", .symbol "(", .word "payload", .symbol ",",
        .word "forKey", .symbol ":", .symbol "."] ++ tokens) = encodesPayload tokens := fun _ => rfl
    rw [htokens, hfront, encodesPayload_cons, isPayloadEncoding_key]
    rfl

/-- A payload next to the tag is not taken for one under a key. -/
theorem encodesWrapped_inline (hstyle : disc.style = .inline) :
    encodesWrapped disc variant = false := by
  have hfaces : placed (variant.taggedFaces disc) =
      placed (encodeCallFaces (.quoted variant.tag) false (tagKey disc) ++
        [.word "try", .word "payload", .symbol ".", .word "encode", .symbol "("]) ++
      placed [.word "to", .symbol ":", .word "encoder", .symbol ")"] := by
    unfold VariantForm.taggedFaces VariantForm.payloadFaces
    rw [hkept, if_neg (by simp), htype, hstyle, ← placed_append, List.append_assoc]
    rfl
  have hinline : encodesInline disc variant = true := by
    rw [encodesInline, hfaces, containsWords_append rfl]
  rw [encodesWrapped, hinline]
  rfl

end

/-! ## Without a tag -/

def untaggedNames (variant : VariantForm) : List String :=
  if variant.isFallback then []
  else
    match variant.payload with
    | .wrapped _ => ["value"]
    | _ => []

def untaggedFaces (variant : VariantForm) : List Face :=
  if variant.isFallback then refusedFaces
  else
    match variant.payload with
    | .wrapped _ =>
      [.word "try", .word "container", .symbol ".", .word "encode", .symbol "(", .word "value",
        .symbol ")"]
    | _ => [.word "try", .word "container", .symbol ".", .word "encodeNil", .symbol "(", .symbol ")"]

theorem untaggedEncodeFaces_eq (variant : VariantForm) :
    variant.untaggedEncodeFaces =
      patternFaces variant.name (untaggedNames variant) ++ untaggedFaces variant := by
  unfold VariantForm.untaggedEncodeFaces untaggedNames untaggedFaces
  cases variant.isFallback with
  | true => rfl
  | false => cases variant.payload <;> rfl

theorem isIdentifier_of_mem_untaggedNames {variant : VariantForm} :
    ∀ binding ∈ untaggedNames variant, isIdentifier binding = true := by
  intro binding hbinding
  unfold untaggedNames at hbinding
  split at hbinding
  · cases hbinding
  · split at hbinding
    · cases List.mem_singleton.mp hbinding
      decide
    · cases hbinding

theorem steady_untaggedFaces (variant : VariantForm) :
    Steady true mayStartArm (untaggedFaces variant) := by
  unfold untaggedFaces
  cases variant.isFallback with
  | true => exact Eq.refl (some 0)
  | false => cases variant.payload <;> exact Eq.refl (some 0)

theorem encodedTag?_untagged (variant : VariantForm) :
    encodedTag? (placed (untaggedFaces variant)) = none := by
  unfold untaggedFaces
  cases variant.isFallback with
  | true => rfl
  | false => cases variant.payload <;> rfl

/-- Where no tag is written there is no key for it. -/
theorem encodeEvidence_untagged {variants : List VariantForm}
    (h : ∀ variant ∈ variants, isIdentifier variant.name = true) :
    (encodeEvidence (placed (encodeBodyFaces singleContainerFaces
      (variants.flatMap VariantForm.untaggedEncodeFaces)))).tagKey = none := by
  have hfaces : variants.flatMap VariantForm.untaggedEncodeFaces =
      variants.flatMap fun variant =>
        patternFaces variant.name (untaggedNames variant) ++ untaggedFaces variant :=
    congrArg variants.flatMap (funext untaggedEncodeFaces_eq)
  obtain ⟨tokens, hfrom, hcut⟩ := switchArms_encodeBody h
    (fun _ _ => isIdentifier_of_mem_untaggedNames)
    (fun variant _ => steady_untaggedFaces variant)
    (show lacks "\x7b" singleContainerFaces = true from rfl)
  have harms : ((switchArms tokens).filter fun arm =>
      !arm.isDefault && (encodedTag? arm.body).isSome) = [] := by
    refine List.filter_eq_nil_iff.mpr fun arm harm => ?_
    rw [hcut] at harm
    obtain ⟨variant, -, rfl⟩ := List.mem_map.mp harm
    have htag : encodedTag? (encodeArm variant.name (untaggedNames variant)
        (untaggedFaces variant)).body = none := encodedTag?_untagged variant
    rw [htag]
    simp
  rw [hfaces, encodeEvidence, hfrom]
  dsimp only
  rw [harms]
  rfl

end Extraction

end WireSchema
