import WireSchema.Proofs.Extraction.Words
import WireSchema.Proofs.Generation.UnionSource

/-!
# Arms of generated initializers

The initializer of a tagged union has an arm for each tag. One name gets in the way: the
word that starts an arm is read as such also where it is the name of the case that is
assigned. That arm ends before the name and assigns nothing, and the rest of it becomes
part of the pattern of the next one.
-/

namespace WireSchema

open Generation Swift
open Text (isIdentifier isIdentifier_keyCaseName)

/-! ## Payloads behind an assignment -/

namespace Generation

def VariantForm.assignedFaces (style : DiscriminatorStyle) (variant : VariantForm) : List Face :=
  match variant.payload, style with
  | .wrapped type, .wrapped =>
    .symbol "(" :: (decodeCallFaces type (Text.keyCaseName variant.tag) ++ [.symbol ")"])
  | .wrapped type, .inline =>
    .symbol "(" :: ((.word "try" :: (typeFaces type ++
      [.symbol "(", .word "from", .symbol ":", .word "decoder", .symbol ")"])) ++ [.symbol ")"])
  | .inline fields, _ =>
    .symbol "(" :: (commaFaces (fields.map FieldForm.decodedFaces) ++ [.symbol ")"])
  | .unit, _ => []

theorem VariantForm.taggedDecodeFaces_eq (style : DiscriminatorStyle) (variant : VariantForm) :
    variant.taggedDecodeFaces style = assignFaces variant.name ++ variant.assignedFaces style := by
  unfold VariantForm.taggedDecodeFaces VariantForm.assignedFaces
  cases variant.payload with
  | unit => simp
  | inline fields => simp
  | wrapped type => cases style <;> simp

end Generation

namespace Extraction

theorem literalsIn_decodeCallFaces (type : TypeExpr) (key : String) :
    literalsIn (decodeCallFaces type key) = [] := by
  rw [decodeCallFaces, literalsIn_append, literalsIn_append, literalsIn_typeFaces]
  rfl

theorem nested_decodeCallFaces {type : TypeExpr} {key : String} (htype : IsWritable type)
    (hkey : isIdentifier key = true) : Nested (decodeCallFaces type key) := by
  have hmethod := isSolid_word (isIdentifier_coderMethod type.isOptional).1
  have htypes := Nested.typeFaces (isWritable_unwrapOptional htype)
  have hargument : Nested (typeFaces type.unwrapOptional ++ [.symbol ".", .word "self",
      .symbol ",", .word "forKey", .symbol ":", .symbol ".", .word key]) :=
    htypes.append (.cons rfl (.cons rfl (.cons rfl (.cons rfl (.cons rfl (.cons rfl
      (.cons (isSolid_word hkey) .nil)))))))
  have hcall : Nested (.word "try" :: .word "container" :: .symbol "." ::
      .word (coderMethod "decode" type.isOptional) :: .symbol "(" ::
        ((typeFaces type.unwrapOptional ++ [.symbol ".", .word "self", .symbol ",",
          .word "forKey", .symbol ":", .symbol ".", .word key]) ++ [.symbol ")"])) :=
    .cons rfl (.cons rfl (.cons rfl (.cons hmethod hargument.parens)))
  simpa [decodeCallFaces] using hcall

/-- A payload is one group, so it is passed over by any walk, and it holds no literal. -/
theorem steady_assignedFaces (style : DiscriminatorStyle) {variant : VariantForm}
    (h : variant.IsWritable) (braces : Bool) (stops : Face → Bool) :
    Steady braces stops (variant.assignedFaces style) := by
  have hpayload := h.payload
  unfold VariantForm.assignedFaces
  cases hkind : variant.payload with
  | unit => rfl
  | wrapped type =>
    rw [hkind] at hpayload
    cases style with
    | wrapped => exact .parens (nested_decodeCallFaces hpayload (isIdentifier_keyCaseName variant.tag))
    | inline =>
      have hcall : Nested [.symbol "(", .word "from", .symbol ":", .word "decoder", .symbol ")"] :=
        .parens (.cons rfl (.cons rfl (.cons rfl .nil)))
      exact .parens (.cons rfl ((Nested.typeFaces hpayload).append hcall))
  | inline fields =>
    rw [hkind] at hpayload
    refine .parens (.commaFaces fun item hitem => ?_)
    obtain ⟨field, hfield, rfl⟩ := List.mem_map.mp hitem
    have hform := hpayload.2 field hfield
    exact .cons (isSolid_word hform.name) (.cons rfl (nested_decodeCallFaces hform.type hform.name))

theorem literalsIn_assignedFaces (style : DiscriminatorStyle) (variant : VariantForm) :
    literalsIn (variant.assignedFaces style) = [] := by
  have hclose : ∀ faces, literalsIn faces = [] →
      literalsIn (.symbol "(" :: (faces ++ [.symbol ")"])) = [] := by
    intro faces hfaces
    have hgroup : literalsIn (.symbol "(" :: (faces ++ [.symbol ")"])) =
        literalsIn (faces ++ [.symbol ")"]) := rfl
    rw [hgroup, literalsIn_append, hfaces]
    rfl
  unfold VariantForm.assignedFaces
  cases variant.payload with
  | unit => rfl
  | wrapped type =>
    cases style with
    | wrapped => exact hclose _ (literalsIn_decodeCallFaces _ _)
    | inline =>
      refine hclose _ ?_
      have htry : literalsIn (.word "try" :: (typeFaces type ++ [.symbol "(", .word "from",
          .symbol ":", .word "decoder", .symbol ")"])) = literalsIn (typeFaces type ++
            [.symbol "(", .word "from", .symbol ":", .word "decoder", .symbol ")"]) := rfl
      rw [htry, literalsIn_append, literalsIn_typeFaces]
      rfl
  | inline fields =>
    refine hclose _ (literalsIn_commaFaces fun item hitem => ?_)
    obtain ⟨field, -, rfl⟩ := List.mem_map.mp hitem
    exact literalsIn_decodeCallFaces _ _

/-! ## Arms of a decoder -/

/-- The arm assigns the case of the variant if the tag is that of the variant. -/
structure Arm.Decodes (style : DiscriminatorStyle) (variant : VariantForm) (arm : Arm) : Prop where
  keyword : arm.isDefault = false
  pattern : (arm.pattern.filter fun token => token.kind == .string) = placed [.quoted variant.tag]
  body : arm.body = placed (variant.taggedDecodeFaces style)

/-- The arm tells of no case what tag it has or where its payload lies. -/
inductive Arm.IsMute (arm : Arm) : Prop
  | default (h : arm.isDefault = true)
  | unassigned (h : assignedCase? arm.body = none)
  | bare (pattern : (arm.pattern.filter fun token => token.kind == .string) = [])
      (inline_ : arm.decodesInline = false) (wrapped : arm.decodesWrapped = false)

/-- The arms show variants and nothing else. One is passed over: the name of its case is
the word that starts an arm. -/
structure ArmsDecode (style : DiscriminatorStyle) (variants : List VariantForm)
    (arms : List Arm) : Prop where
  sound : ∀ arm ∈ arms, arm.IsMute ∨
    ∃ variant ∈ variants, variant.isFallback = false ∧ variant.name ≠ "case" ∧
      arm.Decodes style variant
  complete : ∀ variant ∈ variants, variant.isFallback = false → variant.name ≠ "case" →
    ∃ arm ∈ arms, arm.Decodes style variant

/-- What may stand before an arm and belong to its pattern: nothing, or a name that reads like
the start of an arm and what comes after it up to there. -/
inductive IsOpening : List Face → Prop
  | nil : IsOpening []
  | name {faces : List Face} (steady : Steady false isColon faces)
      (literals : literalsIn faces = []) : IsOpening (.word "case" :: faces)

/-- With an opening before it, an arm is still one arm, with a longer pattern. -/
theorem IsOpening.exists_pattern {opening : List Face} (h : IsOpening opening)
    {pattern : List Face} (hpattern : Steady false isColon pattern) :
    ∃ whole, opening ++ .word "case" :: pattern = .word "case" :: whole ∧
      Steady false isColon whole ∧ literalsIn whole = literalsIn pattern := by
  cases h with
  | nil => exact ⟨pattern, rfl, hpattern, rfl⟩
  | @name faces steady literals =>
    refine ⟨faces ++ .word "case" :: pattern, rfl,
      steady.append (.cons (by decide) (by decide) hpattern), ?_⟩
    rw [literalsIn_append, literals]
    rfl

theorem splitArms_assign_case (rest : List Token) :
    splitArms 0 (placed (assignFaces "case") ++ rest) =
      ⟨placed [.word "self", .symbol "=", .symbol "."],
        (splitArms 0 ((Face.word "case").token .start :: rest)).arms⟩ := by
  have hfront : levelAfter? true mayStartArm 0 [.word "self", .symbol "=", .symbol "."] = some 0 :=
    by decide
  have hcase : splitArms 0 ((Face.word "case").token .start :: rest) =
      ⟨[], (splitArms 0 ((Face.word "case").token .start :: rest)).arms⟩ := by
    rw [splitArms_cons, if_neg (by decide), if_neg (by decide), if_pos (by rfl)]
  have happend := splitArms_append hfront ((Face.word "case").token .start :: rest)
  rw [hcase] at happend
  exact happend

/-- Any other name does not start an arm, if no colon comes after it. -/
theorem splitArms_assign {name : String} (hname : isIdentifier name = true) (hcase : name ≠ "case")
    {rest : List Token} (hrest : wordNext rest ":" = false) :
    splitArms 0 (placed (assignFaces name) ++ rest) =
      (splitArms 0 rest).withTokens (placed (assignFaces name)) := by
  have hfront : levelAfter? true mayStartArm 0 [.word "self", .symbol "=", .symbol "."] = some 0 :=
    by decide
  have hsolid : opensLevel true (.word name) = false ∧ closesLevel true (.word name) = false :=
    level_of_isSolid (isSolid_word hname)
  have hopens : opensBracket ((Face.word name).token .start) = false := by
    rw [← hsolid.1]
    simp [opensBracket, opensLevel]
  have hcloses : closesBracket ((Face.word name).token .start) = false := by
    rw [← hsolid.2]
    simp [closesBracket, closesLevel]
  have hstarts : startsArm ((Face.word name).token .start) rest = false := by
    have hword : ((Face.word name).token .start).isWord "case" = false := beq_false_of_ne hcase
    rw [startsArm, hword, hrest, Bool.and_false]
    rfl
  have happend := splitArms_append hfront ((Face.word name).token .start :: rest)
  rw [splitArms_cons, hopens, hcloses, hstarts] at happend
  exact happend

theorem wordNext_assignedFaces (style : DiscriminatorStyle) (variant : VariantForm)
    {rest : List Token} (hrest : wordNext rest ":" = false) :
    wordNext (placed (variant.assignedFaces style) ++ rest) ":" = false := by
  unfold VariantForm.assignedFaces
  cases variant.payload with
  | unit => exact hrest
  | wrapped type => cases style <;> rfl
  | inline fields => rfl

def decoderFaces (style : DiscriminatorStyle) (key : String) (fallback : Option String)
    (variants : List VariantForm) : List Face :=
  variants.flatMap (VariantForm.taggedDecodeArmFaces style) ++
    .word "default" :: .symbol ":" :: (unknownTagFaces key fallback ++ [.symbol "\x7d"])

section

variable {style : DiscriminatorStyle} {key : String} {fallback : Option String}
  {variant : VariantForm} {later : List VariantForm}

theorem decoderFaces_fallback (h : variant.isFallback = true) :
    decoderFaces style key fallback (variant :: later) = decoderFaces style key fallback later := by
  rw [decoderFaces, List.flatMap_cons, VariantForm.taggedDecodeArmFaces, h]
  rfl

theorem decoderFaces_cons (h : variant.isFallback = false) :
    decoderFaces style key fallback (variant :: later) =
      [.word "case", .quoted variant.tag] ++ .symbol ":" :: (assignFaces variant.name ++
        (variant.assignedFaces style ++ decoderFaces style key fallback later)) := by
  rw [decoderFaces, List.flatMap_cons, VariantForm.taggedDecodeArmFaces, h,
    VariantForm.taggedDecodeFaces_eq]
  simp [decoderFaces]

end

theorem wordNext_decoderFaces (style : DiscriminatorStyle) (key : String)
    (fallback : Option String) (variants : List VariantForm) :
    wordNext (placed (decoderFaces style key fallback variants)) ":" = false := by
  induction variants with
  | nil => rfl
  | cons variant later ih =>
    cases hfallen : variant.isFallback with
    | true =>
      rw [decoderFaces_fallback hfallen]
      exact ih
    | false =>
      rw [decoderFaces_cons hfallen]
      rfl

/-! ### Unknown tags -/

/-- At the end of a switch the faces show no variant: neither in the arm to which they belong, if
this has no tag, nor in arms that start among them. -/
def ShowsNothing (faces : List Face) : Prop :=
  ∃ front arms, splitArms 0 (placed (faces ++ [.symbol "\x7d"])) = ⟨placed front, arms⟩ ∧
    (∀ arm ∈ arms, arm.IsMute) ∧
    ∀ arm : Arm, arm.body = placed front →
      (arm.pattern.filter fun token => token.kind == .string) = [] → arm.IsMute

theorem splitArms_end : splitArms 0 (placed [.symbol "\x7d"]) = ⟨[], []⟩ :=
  splitArms_close []

theorem showsNothing_throw {key : String} (hkey : isIdentifier key = true) :
    ShowsNothing (unknownTagFaces key none) := by
  have hmessage : Nested [.symbol ",", .word "in", .symbol ":", .word "container", .symbol ",",
      .word "debugDescription", .symbol ":", unknownTagLiteral] :=
    .cons rfl (.cons rfl (.cons rfl (.cons rfl (.cons rfl (.cons rfl (.cons rfl
      (.cons rfl .nil)))))))
  have harguments : Nested [.word "forKey", .symbol ":", .symbol ".", .word key, .symbol ",",
      .word "in", .symbol ":", .word "container", .symbol ",", .word "debugDescription",
      .symbol ":", unknownTagLiteral] :=
    .cons rfl (.cons rfl (.cons rfl (.cons (isSolid_word hkey) hmessage)))
  have hsteady : levelAfter? true mayStartArm 0 (unknownTagFaces key none) = some 0 :=
    Steady.cons (by decide) (by decide) (.cons (by decide) (by decide)
      (.cons (by decide) (by decide) (.cons (by decide) (by decide) (.parens harguments))))
  have hlacks : lacks "=" (unknownTagFaces key none) = true :=
    (lacks_word hkey (by decide) _).trans (by decide)
  refine ⟨unknownTagFaces key none, [], ?_, nofun, fun arm harm _ => .unassigned ?_⟩
  · rw [placed_append, splitArms_append hsteady, splitArms_end, SwitchBody.withTokens,
      List.append_nil]
  · rw [harm, assignedCase?_of_lacks hlacks]

/-- A fallback named like the word that starts an arm starts one, which has no body. -/
theorem showsNothing_assign_case : ShowsNothing (assignFaces "case") := by
  have hcut : splitPattern 0 (placed [.symbol "\x7d"]) = ⟨placed [.symbol "\x7d"], none, []⟩ := rfl
  have hkeyword : splitArms 0 ((Face.word "case").token .start :: placed [.symbol "\x7d"]) =
      ⟨[], [⟨(Face.word "case").token .start, placed [.symbol "\x7d"], none, []⟩]⟩ := by
    rw [splitArms_cons, if_neg (by decide), if_neg (by decide), if_pos (by rfl), hcut,
      splitArms_nil]
  refine ⟨[.word "self", .symbol "=", .symbol "."],
    [⟨(Face.word "case").token .start, placed [.symbol "\x7d"], none, []⟩], ?_, ?_, ?_⟩
  · rw [placed_append, splitArms_assign_case, hkeyword]
  · intro arm harm
    cases List.mem_singleton.mp harm
    exact .unassigned rfl
  · intro arm harm _
    refine .unassigned ?_
    rw [harm]
    rfl

theorem showsNothing_assign {name : String} (hname : isIdentifier name = true)
    (hcase : name ≠ "case") : ShowsNothing (assignFaces name) := by
  have hend : wordNext (placed [.symbol "\x7d"]) ":" = false := rfl
  have hlacks : lacks ":" (assignFaces name) = true := lacks_word hname (by decide) []
  refine ⟨assignFaces name, [], ?_, nofun, fun arm harm hpattern => .bare hpattern ?_ ?_⟩
  · rw [placed_append, splitArms_assign hname hcase hend, splitArms_end, SwitchBody.withTokens,
      List.append_nil]
  · rw [Arm.decodesInline, harm]
    exact containsWords_of_lacks (by decide) hlacks
  · rw [Arm.decodesWrapped, harm, containsWords_of_lacks (by decide) hlacks, Bool.and_false]

/-- What is done with an unknown tag shows no variant. -/
theorem showsNothing_unknownTagFaces {key : String} {fallback : Option String}
    (hkey : isIdentifier key = true) (hfallback : ∀ name ∈ fallback, isIdentifier name = true) :
    ShowsNothing (unknownTagFaces key fallback) := by
  cases fallback with
  | none => exact showsNothing_throw hkey
  | some name =>
    by_cases hcase : name = "case"
    · subst hcase
      exact showsNothing_assign_case
    · exact showsNothing_assign (hfallback name rfl) hcase

/-! ### All arms -/

namespace ArmsDecode

variable {style : DiscriminatorStyle} {variant : VariantForm} {later : List VariantForm}
  {arm : Arm} {arms : List Arm}

theorem nil (h : ∀ arm ∈ arms, arm.IsMute) : ArmsDecode style [] arms :=
  ⟨fun arm harm => .inl (h arm harm), nofun⟩

theorem sound_cons (h : ArmsDecode style later arms) :
    ∀ arm ∈ arms, arm.IsMute ∨
      ∃ other ∈ variant :: later, other.isFallback = false ∧ other.name ≠ "case" ∧
        arm.Decodes style other :=
  fun arm harm => (h.sound arm harm).imp_right fun ⟨other, hother, hdecodes⟩ =>
    ⟨other, List.mem_cons_of_mem variant hother, hdecodes⟩

/-- A fallback has no arm. -/
theorem fallback (hvariant : variant.isFallback = true) (h : ArmsDecode style later arms) :
    ArmsDecode style (variant :: later) arms := by
  refine ⟨h.sound_cons, fun other hother hkept hname => ?_⟩
  rcases List.mem_cons.mp hother with rfl | hother
  · rw [hvariant] at hkept
    cases hkept
  · exact h.complete other hother hkept hname

theorem shown (hvariant : variant.isFallback = false) (hname : variant.name ≠ "case")
    (harm : arm.Decodes style variant) (h : ArmsDecode style later arms) :
    ArmsDecode style (variant :: later) (arm :: arms) where
  sound := by
    intro other hother
    rcases List.mem_cons.mp hother with rfl | hother
    · exact .inr ⟨variant, List.mem_cons_self, hvariant, hname, harm⟩
    · exact h.sound_cons other hother
  complete := by
    intro other hother hkept hname
    rcases List.mem_cons.mp hother with rfl | hother
    · exact ⟨arm, List.mem_cons_self, harm⟩
    · obtain ⟨found, hfound, hdecodes⟩ := h.complete other hother hkept hname
      exact ⟨found, List.mem_cons_of_mem arm hfound, hdecodes⟩

/-- The arm of a variant whose name starts an arm ends before the name. -/
theorem passedOver (hvariant : variant.name = "case") (harm : arm.IsMute)
    (h : ArmsDecode style later arms) : ArmsDecode style (variant :: later) (arm :: arms) where
  sound := by
    intro other hother
    rcases List.mem_cons.mp hother with rfl | hother
    · exact .inl harm
    · exact h.sound_cons other hother
  complete := by
    intro other hother hkept hname
    rcases List.mem_cons.mp hother with rfl | hother
    · exact absurd hvariant hname
    · obtain ⟨found, hfound, hdecodes⟩ := h.complete other hother hkept hname
      exact ⟨found, List.mem_cons_of_mem arm hfound, hdecodes⟩

end ArmsDecode

/-- After the last variant no arm is left that shows one. -/
theorem splitArms_default_decoder (style : DiscriminatorStyle) {key : String}
    {fallback : Option String} (hkey : isIdentifier key = true)
    (hfallback : ∀ name ∈ fallback, isIdentifier name = true) {opening : List Face}
    (hopening : IsOpening opening) :
    ∃ arms, splitArms 0 (placed (opening ++ decoderFaces style key fallback [])) = ⟨[], arms⟩ ∧
      ArmsDecode style [] arms := by
  obtain ⟨front, arms, hsplit, hmute, hbody⟩ := showsNothing_unknownTagFaces hkey hfallback
  cases hopening with
  | nil =>
    have hdefault := splitArms_default (placed (unknownTagFaces key fallback ++ [.symbol "\x7d"]))
    rw [hsplit] at hdefault
    refine ⟨_, hdefault, .nil fun arm harm => ?_⟩
    rcases List.mem_cons.mp harm with rfl | harm
    · exact .default rfl
    · exact hmute arm harm
  | @name faces steady literals =>
    have hpattern : Steady false isColon (faces ++ [.word "default"]) :=
      steady.append (.cons (by decide) (by decide) rfl)
    have hkeyword := splitArms_keyword hpattern
      (placed (unknownTagFaces key fallback ++ [.symbol "\x7d"]))
    rw [hsplit] at hkeyword
    have htokens : placed (.word "case" :: faces ++ decoderFaces style key fallback []) =
        (Face.word "case").token .start :: (placed (faces ++ [.word "default"]) ++
          (Face.symbol ":").token .start ::
            placed (unknownTagFaces key fallback ++ [.symbol "\x7d"])) := by
      simp [decoderFaces, placed_append, placed_cons, placed_nil]
    rw [htokens]
    refine ⟨_, hkeyword, .nil fun arm harm => ?_⟩
    rcases List.mem_cons.mp harm with rfl | harm
    · refine hbody _ rfl ?_
      rw [filter_kind_placed, literalsIn_append, literals]
      rfl
    · exact hmute arm harm

/-- Reading the arms of a decoder, with an opening before them. -/
theorem splitArms_decoderFaces (style : DiscriminatorStyle) {key : String}
    {fallback : Option String} (hkey : isIdentifier key = true)
    (hfallback : ∀ name ∈ fallback, isIdentifier name = true) {variants : List VariantForm}
    (h : ∀ variant ∈ variants, variant.IsWritable) {opening : List Face}
    (hopening : IsOpening opening) :
    ∃ arms, splitArms 0 (placed (opening ++ decoderFaces style key fallback variants)) =
      ⟨[], arms⟩ ∧ ArmsDecode style variants arms := by
  induction variants generalizing opening with
  | nil => exact splitArms_default_decoder style hkey hfallback hopening
  | cons variant later ih =>
    have hvariant := h variant List.mem_cons_self
    have hlater := fun other hother => h other (List.mem_cons_of_mem variant hother)
    have hrest := wordNext_decoderFaces style key fallback later
    cases hfallen : variant.isFallback with
    | true =>
      obtain ⟨arms, hsplit, harms⟩ := ih hlater hopening
      rw [decoderFaces_fallback hfallen]
      exact ⟨arms, hsplit, harms.fallback hfallen⟩
    | false =>
      have htag : Steady false isColon [.quoted variant.tag] := rfl
      obtain ⟨pattern, hpattern, hsteady, hliterals⟩ := hopening.exists_pattern htag
      have hstrings : ((placed pattern).filter fun token => token.kind == .string) =
          placed [.quoted variant.tag] := by
        rw [filter_kind_placed, hliterals]
        rfl
      have htokens : placed (opening ++ decoderFaces style key fallback (variant :: later)) =
          (Face.word "case").token .start :: (placed pattern ++ (Face.symbol ":").token .start ::
            (placed (assignFaces variant.name) ++ (placed (variant.assignedFaces style) ++
              placed (decoderFaces style key fallback later)))) := by
        rw [decoderFaces_cons hfallen, ← List.append_assoc, hpattern]
        simp only [placed_append, placed_cons, List.cons_append]
      have hkeyword := splitArms_keyword hsteady (placed (assignFaces variant.name) ++
        (placed (variant.assignedFaces style) ++ placed (decoderFaces style key fallback later)))
      by_cases hname : variant.name = "case"
      · have hassigned : IsOpening (.word "case" :: variant.assignedFaces style) :=
          .name (steady_assignedFaces style hvariant _ _) (literalsIn_assignedFaces style variant)
        obtain ⟨arms, hsplit, harms⟩ := ih hlater hassigned
        rw [placed_append, placed_cons, List.cons_append] at hsplit
        have hassign := splitArms_assign_case
          (placed (variant.assignedFaces style) ++ placed (decoderFaces style key fallback later))
        rw [hsplit, ← hname] at hassign
        rw [hassign] at hkeyword
        rw [htokens]
        exact ⟨_, hkeyword, harms.passedOver hname (.unassigned rfl)⟩
      · obtain ⟨arms, hsplit, harms⟩ := ih hlater .nil
        rw [List.nil_append] at hsplit
        rw [splitArms_assign hvariant.name hname (wordNext_assignedFaces style variant hrest),
          splitArms_append (steady_assignedFaces style hvariant true mayStartArm), hsplit]
          at hkeyword
        rw [htokens]
        refine ⟨_, hkeyword, harms.shown hfallen hname ⟨rfl, hstrings, ?_⟩⟩
        simp [SwitchBody.withTokens, VariantForm.taggedDecodeFaces_eq, placed_append]

end Extraction

end WireSchema
