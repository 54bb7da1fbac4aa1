import WireSchema.Proofs.Generation.Forms

/-!
# The coding keys of a discriminated union

All variants of a union share one enum of coding keys. The keys that the tag and the
payloads need are pooled, and of those with one case name the first is kept. So the
enum is right for every variant exactly when the pooled keys agree with each other;
verification looks at the wire names of each variant by itself and does not see to it.
-/

namespace WireSchema.Generation

open Text (keyCaseName)
open Verification

/-! ## The first key for each name -/

theorem mem_of_mem_firstKeys {seen : List String} {keys : List (String × String)}
    {key : String × String} (h : key ∈ firstKeys seen keys) : key ∈ keys ∧ key.1 ∉ seen := by
  induction keys generalizing seen with
  | nil => cases h
  | cons first later ih =>
    rw [firstKeys] at h
    by_cases hseen : seen.contains first.1 = true
    · rw [if_pos hseen] at h
      exact ⟨List.mem_cons_of_mem _ (ih h).1, (ih h).2⟩
    · rw [if_neg hseen] at h
      rcases List.mem_cons.mp h with rfl | hlater
      · exact ⟨List.mem_cons_self, by simpa using hseen⟩
      · obtain ⟨hmem, hnew⟩ := ih hlater
        exact ⟨List.mem_cons_of_mem _ hmem, fun hold => hnew (List.mem_cons_of_mem _ hold)⟩

theorem nodup_firstKeys (seen : List String) (keys : List (String × String)) :
    ((firstKeys seen keys).map Prod.fst).Nodup := by
  induction keys generalizing seen with
  | nil => exact List.nodup_nil
  | cons first later ih =>
    rw [firstKeys]
    by_cases hseen : seen.contains first.1 = true
    · rw [if_pos hseen]
      exact ih seen
    · rw [if_neg hseen, List.map_cons, List.nodup_cons]
      refine ⟨fun hmem => ?_, ih _⟩
      obtain ⟨key, hkey, hsame⟩ := List.mem_map.mp hmem
      exact (mem_of_mem_firstKeys hkey).2 (by simp [hsame])

/-- Every name that was not seen before is still there, though maybe with another wire key. -/
theorem exists_mem_firstKeys {seen : List String} {keys : List (String × String)}
    {key : String × String} (hmem : key ∈ keys) (hnew : key.1 ∉ seen) :
    ∃ kept ∈ firstKeys seen keys, kept.1 = key.1 := by
  induction keys generalizing seen with
  | nil => cases hmem
  | cons first later ih =>
    rw [firstKeys]
    by_cases hseen : seen.contains first.1 = true
    · rw [if_pos hseen]
      rcases List.mem_cons.mp hmem with rfl | hlater
      · exact absurd (by simpa using hseen) hnew
      · exact ih hlater hnew
    · rw [if_neg hseen]
      by_cases hsame : first.1 = key.1
      · exact ⟨first, List.mem_cons_self, hsame⟩
      · rcases List.mem_cons.mp hmem with rfl | hlater
        · exact absurd rfl hsame
        · have hlaterNew : key.1 ∉ first.1 :: seen := by
            simp only [List.mem_cons, not_or]
            exact ⟨fun heq => hsame heq.symm, hnew⟩
          obtain ⟨kept, hkept, hname⟩ := ih hlater hlaterNew
          exact ⟨kept, List.mem_cons_of_mem _ hkept, hname⟩

/-! ## Keys by definition -/

def neededPayloadKeys (d : UnionDef) (disc : Discriminator) (entry : String × VariantDef) :
    List (String × String) :=
  if d.isFallback entry.1 then []
  else
    match entry.2.payload, disc.style with
    | .wrapped _, .wrapped => [(keyCaseName (entry.2.wireTag entry.1), entry.2.wireTag entry.1)]
    | .inline fields, _ =>
      fields.entries.map fun field => (field.1, field.2.effectiveWireName field.1)
    | _, _ => []

/-- The coding keys that a union needs, the tag's first. -/
def neededKeys (d : UnionDef) (disc : Discriminator) : List (String × String) :=
  (tagKey disc, disc.field) :: (orderedVariants d).flatMap (neededPayloadKeys d disc)

def codingKeys (d : UnionDef) (disc : Discriminator) : List (String × String) :=
  firstKeys [] (neededKeys d disc)

theorem payloadKeys_variantForm (namer : Namer) (d : UnionDef) (disc : Discriminator)
    (entry : String × VariantDef) :
    payloadKeys disc (namer.variantForm d entry) = neededPayloadKeys d disc entry := by
  obtain ⟨name, variant⟩ := entry
  by_cases hfallback : d.isFallback name = true
  · simp [payloadKeys, neededPayloadKeys, Namer.variantForm, hfallback]
  · rcases hpayload : variant.payload with _ | type | fields
    · simp [payloadKeys, neededPayloadKeys, Namer.variantForm, Namer.payloadForm, hpayload]
    · cases hstyle : disc.style <;>
        simp [payloadKeys, neededPayloadKeys, Namer.variantForm, Namer.payloadForm, hpayload, hstyle]
    · by_cases hempty : fields.isEmpty = true
      · have hnone : fields.entries = [] := List.isEmpty_iff.mp hempty
        simp [payloadKeys, neededPayloadKeys, Namer.variantForm, Namer.payloadForm, hpayload,
          hempty, hnone]
      · simp [payloadKeys, neededPayloadKeys, Namer.variantForm, Namer.payloadForm, hpayload,
          hempty, Namer.fieldForm, Function.comp_def]

theorem unionKeys_unionForms (namer : Namer) (d : UnionDef) (disc : Discriminator) :
    unionKeys disc (namer.unionForms d) = codingKeys d disc := by
  simp only [unionKeys, Namer.unionForms, codingKeys, neededKeys, List.flatMap_map,
    payloadKeys_variantForm]

theorem mem_orderedVariants {d : UnionDef} {entry : String × VariantDef} :
    entry ∈ orderedVariants d ↔ entry ∈ d.variants.entries := by
  refine ⟨mem_of_mem_orderedVariants, fun h => ?_⟩
  by_cases hfallback : d.isFallback entry.1 = true <;> simp [orderedVariants, h, hfallback]

theorem rawValueType_of_discriminator {d : UnionDef} {disc : Discriminator}
    (h : d.discriminator = some disc) : d.rawValueType = none := by
  simp [UnionDef.rawValueType, h]

/-- The coding keys stand in the code for a union, as they are. -/
theorem unionLines_codingKeys {d : UnionDef} {disc : Discriminator}
    (haccepted : DefinitionAccepted (.union d)) (hdisc : d.discriminator = some disc) (namer : Namer) (name : String) :
    ∃ front back, unionLines namer name d =
      .ok (front ++ codingKeyLines (codingKeys d disc) ++ back) := by
  have hbody : ∃ rest, unionBody (namer.typeName name) d (namer.unionForms d) =
      codingKeyLines (codingKeys d disc) ++ rest := by
    simp only [unionBody, hdisc, taggedBody, unionKeys_unionForms, List.append_assoc]
    exact ⟨_, rfl⟩
  obtain ⟨rest, hrest⟩ := hbody
  rw [unionLines_eq_ok haccepted (rawValueType_of_discriminator hdisc), hrest,
    ← List.append_assoc, List.append_assoc _ rest, List.append_assoc _ (rest ++ _)]
  exact ⟨_, _, rfl⟩

/-! ## When they are right -/

/-- Do the coding keys give every value of the union its own wire key? -/
structure FaithfulKeys (d : UnionDef) (disc : Discriminator) (keys : List (String × String)) :
    Prop where
  tag : (tagKey disc, disc.field) ∈ keys
  fields : ∀ entry ∈ d.variants.entries, d.isFallback entry.1 = false →
    ∀ fields, entry.2.payload = .inline fields → ∀ field ∈ fields.entries,
      (field.1, field.2.effectiveWireName field.1) ∈ keys
  wrapped : disc.style = .wrapped → ∀ entry ∈ d.variants.entries, d.isFallback entry.1 = false →
    ∀ type, entry.2.payload = .wrapped type →
      (keyCaseName (entry.2.wireTag entry.1), entry.2.wireTag entry.1) ∈ keys
  distinctCases : (keys.map Prod.fst).Nodup
  distinctWires : (keys.map Prod.snd).Nodup

/-- Keys agree if they have the same case name exactly when they have the same wire key. -/
def KeysAgree (keys : List (String × String)) : Prop :=
  ∀ a ∈ keys, ∀ b ∈ keys, a.1 = b.1 ↔ a.2 = b.2

theorem mem_neededKeys_of_inline {d : UnionDef} {disc : Discriminator}
    {entry : String × VariantDef} {fields : NameMap FieldDef} {field : String × FieldDef}
    (hentry : entry ∈ d.variants.entries) (hfallback : d.isFallback entry.1 = false)
    (hpayload : entry.2.payload = .inline fields) (hfield : field ∈ fields.entries) :
    (field.1, field.2.effectiveWireName field.1) ∈ neededKeys d disc := by
  refine List.mem_cons_of_mem _ (List.mem_flatMap.mpr ⟨entry, mem_orderedVariants.mpr hentry, ?_⟩)
  simp only [neededPayloadKeys, hfallback, hpayload, Bool.false_eq_true, if_false]
  exact List.mem_map.mpr ⟨field, hfield, rfl⟩

theorem mem_neededKeys_of_wrapped {d : UnionDef} {disc : Discriminator}
    {entry : String × VariantDef} {type : String} (hstyle : disc.style = .wrapped)
    (hentry : entry ∈ d.variants.entries) (hfallback : d.isFallback entry.1 = false)
    (hpayload : entry.2.payload = .wrapped type) :
    (keyCaseName (entry.2.wireTag entry.1), entry.2.wireTag entry.1) ∈ neededKeys d disc := by
  refine List.mem_cons_of_mem _ (List.mem_flatMap.mpr ⟨entry, mem_orderedVariants.mpr hentry, ?_⟩)
  simp [neededPayloadKeys, hfallback, hpayload, hstyle]

/-- Nothing else is needed than what `FaithfulKeys` asks for. -/
theorem FaithfulKeys.mem_of_needed {d : UnionDef} {disc : Discriminator}
    {keys : List (String × String)} (h : FaithfulKeys d disc keys) {key : String × String}
    (hkey : key ∈ neededKeys d disc) : key ∈ keys := by
  rcases List.mem_cons.mp hkey with rfl | hpayload
  · exact h.tag
  · obtain ⟨entry, hordered, hneeded⟩ := List.mem_flatMap.mp hpayload
    have hentry := mem_of_mem_orderedVariants hordered
    cases hfallback : d.isFallback entry.1 with
    | true => simp [neededPayloadKeys, hfallback] at hneeded
    | false =>
      simp only [neededPayloadKeys, hfallback, Bool.false_eq_true, if_false] at hneeded
      split at hneeded
      · next type htype hstyle =>
        rw [List.mem_singleton.mp hneeded]
        exact h.wrapped hstyle entry hentry hfallback type htype
      · next fields hfields =>
        obtain ⟨field, hfield, rfl⟩ := List.mem_map.mp hneeded
        exact h.fields entry hentry hfallback fields hfields field hfield
      · cases hneeded

theorem codingKeys_subset {d : UnionDef} {disc : Discriminator} {key : String × String}
    (h : key ∈ codingKeys d disc) : key ∈ neededKeys d disc :=
  (mem_of_mem_firstKeys h).1

theorem faithfulKeys_iff_keysAgree (d : UnionDef) (disc : Discriminator) :
    FaithfulKeys d disc (codingKeys d disc) ↔ KeysAgree (neededKeys d disc) := by
  constructor
  · intro hfaithful a ha b hb
    have hmemA := hfaithful.mem_of_needed ha
    have hmemB := hfaithful.mem_of_needed hb
    constructor
    · intro hcase
      rw [List.inj_on_of_nodup_map hfaithful.distinctCases hmemA hmemB hcase]
    · intro hwire
      rw [List.inj_on_of_nodup_map hfaithful.distinctWires hmemA hmemB hwire]
  · intro hagree
    -- A key that is needed is kept, since the one kept in its place is the same one.
    have hkept : ∀ key ∈ neededKeys d disc, key ∈ codingKeys d disc := by
      intro key hkey
      obtain ⟨kept, hmem, hcase⟩ := exists_mem_firstKeys hkey (List.not_mem_nil (a := key.1))
      have hwire := (hagree kept (codingKeys_subset hmem) key hkey).mp hcase
      rwa [Prod.ext hcase hwire] at hmem
    have hcases : ((codingKeys d disc).map Prod.fst).Nodup := nodup_firstKeys _ _
    refine ⟨hkept _ List.mem_cons_self, ?_, ?_, hcases, ?_⟩
    · intro entry hentry hfallback fields hfields field hfield
      exact hkept _ (mem_neededKeys_of_inline hentry hfallback hfields hfield)
    · intro hstyle entry hentry hfallback type htype
      exact hkept _ (mem_neededKeys_of_wrapped hstyle hentry hfallback htype)
    · refine List.Nodup.map_on ?_ (List.Nodup.of_map _ hcases)
      intro a ha b hb hwire
      have hcase := (hagree a (codingKeys_subset ha) b (codingKeys_subset hb)).mpr hwire
      exact Prod.ext hcase hwire

/-- The code for a discriminated union of an accepted schema has one enum of coding keys.
The first of them is the tag's, no two have the same case name, and each is one that the
tag or a payload needs. They are faithful to the wire exactly when the keys that the union
needs agree: no two of them with the same case name have different wire keys, and no two
with the same wire key have different case names. -/
theorem codingKeys_faithful_iff {schema : Schema} {name : String} {d : UnionDef}
    {disc : Discriminator} (hverify : verify schema = .ok ())
    (hentry : (name, .union d) ∈ schema.types.entries) (hdisc : d.discriminator = some disc)
    (lead : String) :
    (∃ front back, unionLines (.ofSchema lead schema) name d =
      .ok (front ++ codingKeyLines (codingKeys d disc) ++ back)) ∧
    (codingKeys d disc).head? = some (tagKey disc, disc.field) ∧
    ((codingKeys d disc).map Prod.fst).Nodup ∧
    (∀ key ∈ codingKeys d disc, key ∈ neededKeys d disc) ∧
    (FaithfulKeys d disc (codingKeys d disc) ↔ KeysAgree (neededKeys d disc)) := by
  have haccepted := (verify_eq_ok_iff.mp hverify _ hentry).definition
  exact ⟨unionLines_codingKeys haccepted hdisc _ name, rfl, nodup_firstKeys _ _,
    fun _ => codingKeys_subset, faithfulKeys_iff_keysAgree d disc⟩

/-- Two notices whose identifiers have the same name in code; `wire` is the wire key of the
second. -/
def noticeUnion (wire : String) : UnionDef :=
  { direction := .both, doc := none, discriminator := some ⟨"type", .inline⟩
    unknownHandling := none
    variants := .ofList
      [("created", .ofPayload (.inline (.ofList [("id", .ofType "string")]))),
        ("deleted", .ofPayload (.inline
          (.ofList [("id", ⟨"string", some wire, true, none⟩)])))] }

def noticeSchema (wire : String) : Schema :=
  { version := schemaVersion, provider := "shop"
    types := .ofList [("Notice", .union (noticeUnion wire))] }

/-- Under one wire key the identifiers share a coding key. -/
theorem codingKeys_faithful_noticeSchema :
    verify (noticeSchema "id") = .ok () ∧
      KeysAgree (neededKeys (noticeUnion "id") ⟨"type", .inline⟩) ∧
      FaithfulKeys (noticeUnion "id") ⟨"type", .inline⟩
        (codingKeys (noticeUnion "id") ⟨"type", .inline⟩) := by
  have hverify : verify (noticeSchema "id") = .ok () := by decide +kernel
  have hneeded : neededKeys (noticeUnion "id") ⟨"type", .inline⟩ =
      [("type", "type"), ("id", "id"), ("id", "id")] := by decide +kernel
  have hagree : KeysAgree (neededKeys (noticeUnion "id") ⟨"type", .inline⟩) := by
    rw [hneeded]
    intro a ha b hb
    simp only [List.mem_cons, List.not_mem_nil, or_false, or_self] at ha hb
    rcases ha with rfl | rfl <;> rcases hb with rfl | rfl <;> decide
  have hentry : ("Notice", TypeDef.union (noticeUnion "id")) ∈
      (noticeSchema "id").types.entries := List.mem_singleton.mpr rfl
  have hdisc : (noticeUnion "id").discriminator = some ⟨"type", .inline⟩ := rfl
  obtain ⟨-, -, -, -, hiff⟩ := codingKeys_faithful_iff hverify hentry hdisc ""
  exact ⟨hverify, hagree, hiff.mpr hagree⟩

/-- Under different wire keys the second identifier is read and written under the wire key of
the first. -/
theorem codingKeys_unfaithful_noticeSchema :
    verify (noticeSchema "deleted_id") = .ok () ∧
      codingKeys (noticeUnion "deleted_id") ⟨"type", .inline⟩ =
        [("type", "type"), ("id", "id")] ∧
      ¬ FaithfulKeys (noticeUnion "deleted_id") ⟨"type", .inline⟩
        (codingKeys (noticeUnion "deleted_id") ⟨"type", .inline⟩) := by
  have hkeys : codingKeys (noticeUnion "deleted_id") ⟨"type", .inline⟩ =
      [("type", "type"), ("id", "id")] := by decide +kernel
  refine ⟨by decide +kernel, hkeys, fun hfaithful => ?_⟩
  rw [faithfulKeys_iff_keysAgree] at hfaithful
  have hneeded : neededKeys (noticeUnion "deleted_id") ⟨"type", .inline⟩ =
      [("type", "type"), ("id", "id"), ("id", "deleted_id")] := by decide +kernel
  rw [hneeded] at hfaithful
  exact absurd ((hfaithful ("id", "id") (by decide) ("id", "deleted_id") (by decide)).mp rfl)
    (by decide)

end WireSchema.Generation
