import Mathlib.Data.List.Induction
import WireSchema.Extraction.Evidence
import WireSchema.Proofs.Lookup

/-!
# The tags that evidence gives

Claims of a tag for a case are settled in the order in which they come: the first for a
case and for a tag counts, the others are passed over. So no case loses a tag through a
later claim, and what decoding alone tells stays when encoding is read as well.
-/

namespace WireSchema.Extraction

/-! ## One claim -/

/-- The tags that a list of claims leaves, of which those for other names than `cases` count
for nothing. -/
structure Settled (cases : List String) (claims : List (String × String))
    (tags : NameMap String) : Prop where
  among : ∀ {case_ tag}, tags.get? case_ = some tag → case_ ∈ cases
  claimed : ∀ {case_ tag}, tags.get? case_ = some tag → (tag, case_) ∈ claims
  distinct : ∀ {case_ other tag}, tags.get? case_ = some tag → tags.get? other = some tag →
    case_ = other
  /-- A claim is passed over only if its case has a tag or its tag a case. -/
  settled : ∀ claim ∈ claims, claim.2 ∈ cases →
    (∃ tag, tags.get? claim.2 = some tag) ∨ ∃ case_, tags.get? case_ = some claim.1

variable {cases : List String} {claims : List (String × String)} {tags : NameMap String}

theorem settled_empty (cases : List String) : Settled cases [] .empty where
  among h := nomatch h
  claimed h := nomatch h
  distinct h := nomatch h
  settled _ h := nomatch h

/-- A claim is passed over or binds a case that has no tag to a tag that no case has. -/
theorem claimTag_cases (cases : List String) (tags : NameMap String) (claim : String × String) :
    (claimTag cases tags claim = tags ∧
        (claim.2 ∈ cases → (∃ tag, tags.get? claim.2 = some tag) ∨
          ∃ case_, tags.get? case_ = some claim.1)) ∨
      (claimTag cases tags claim = tags.insert claim.2 claim.1 ∧ claim.2 ∈ cases ∧
        tags.get? claim.2 = none ∧ ∀ case_, tags.get? case_ ≠ some claim.1) := by
  rw [claimTag]
  split
  · next hskip =>
    refine .inl ⟨rfl, fun hcase => ?_⟩
    rw [Bool.or_assoc, List.contains_iff_mem.mpr hcase, Bool.not_true, Bool.false_or, Bool.or_eq_true,
      NameMap.contains_eq_isSome, Option.isSome_iff_exists] at hskip
    exact hskip.imp id fun htag => NameMap.mem_values_iff.mp (List.elem_iff.mp htag)
  · next hnew =>
    simp only [Bool.or_eq_true, Bool.not_eq_true', not_or, Bool.not_eq_false] at hnew
    obtain ⟨⟨hcase, hname⟩, htag⟩ := hnew
    refine .inr ⟨rfl, List.elem_iff.mp hcase, ?_, fun case_ hget => ?_⟩
    · rw [NameMap.contains_eq_isSome] at hname
      exact Option.not_isSome_iff_eq_none.mp hname
    · exact htag (List.elem_iff.mpr (NameMap.mem_values_iff.mpr ⟨case_, hget⟩))

/-- A tag stays with its case. -/
theorem get?_claimTag_of_get? (claim : String × String) {case_ tag : String}
    (h : tags.get? case_ = some tag) : (claimTag cases tags claim).get? case_ = some tag := by
  rcases claimTag_cases cases tags claim with ⟨hsame, -⟩ | ⟨hnew, -, hfree, -⟩
  · rwa [hsame]
  · have hne : case_ ≠ claim.2 := by
      rintro rfl
      rw [hfree] at h
      cases h
    rw [hnew, NameMap.get?_insert, if_neg hne, h]

theorem Settled.claimTag (h : Settled cases claims tags) (claim : String × String) :
    Settled cases (claims ++ [claim]) (claimTag cases tags claim) := by
  have hkeep : ∀ other ∈ claims, other.2 ∈ cases →
      (∃ tag, (Extraction.claimTag cases tags claim).get? other.2 = some tag) ∨
        ∃ case_, (Extraction.claimTag cases tags claim).get? case_ = some other.1 := by
    intro other hother hcase
    rcases h.settled other hother hcase with ⟨tag, htag⟩ | ⟨case_, htag⟩
    · exact .inl ⟨tag, get?_claimTag_of_get? claim htag⟩
    · exact .inr ⟨case_, get?_claimTag_of_get? claim htag⟩
  rcases claimTag_cases cases tags claim with ⟨hsame, hpassed⟩ | ⟨hnew, hcase, hfree, hunused⟩
  · rw [hsame] at hkeep ⊢
    refine ⟨h.among, fun hget => List.mem_append_left _ (h.claimed hget), h.distinct, ?_⟩
    intro other hother hcase
    rcases List.mem_append.mp hother with hold | hlast
    · exact hkeep other hold hcase
    · cases List.mem_singleton.mp hlast
      exact hpassed hcase
  · have hget : ∀ {case_ tag}, (tags.insert claim.2 claim.1).get? case_ = some tag →
        (case_ = claim.2 ∧ tag = claim.1) ∨ tags.get? case_ = some tag := by
      intro case_ tag hget
      rw [NameMap.get?_insert] at hget
      split at hget
      · next hname => exact .inl ⟨hname, (Option.some.inj hget).symm⟩
      · exact .inr hget
    rw [hnew] at hkeep ⊢
    refine ⟨fun htag => ?_, fun htag => ?_, fun hleft hright => ?_, fun other hother hother' => ?_⟩
    · rcases hget htag with ⟨rfl, -⟩ | hold
      · exact hcase
      · exact h.among hold
    · rcases hget htag with ⟨rfl, rfl⟩ | hold
      · exact List.mem_append_right _ List.mem_cons_self
      · exact List.mem_append_left _ (h.claimed hold)
    · rcases hget hleft with ⟨rfl, rfl⟩ | hleft <;> rcases hget hright with ⟨rfl, hsame⟩ | hright
      · rfl
      · exact absurd hright (hunused _)
      · exact absurd (hsame ▸ hleft) (hunused _)
      · exact h.distinct hleft hright
    · rcases List.mem_append.mp hother with hold | hlast
      · exact hkeep other hold hother'
      · cases List.mem_singleton.mp hlast
        exact .inl ⟨claim.1, by rw [NameMap.get?_insert, if_pos rfl]⟩

/-! ## All claims -/

/-- Claims after others keep every tag. -/
theorem get?_foldl_claimTag (claims : List (String × String)) {case_ tag : String}
    (h : tags.get? case_ = some tag) :
    (claims.foldl (claimTag cases) tags).get? case_ = some tag := by
  induction claims generalizing tags with
  | nil => exact h
  | cons claim later ih => exact ih (get?_claimTag_of_get? claim h)

theorem settled_claimTags (cases : List String) (claims : List (String × String)) :
    Settled cases claims (claimTags cases claims) := by
  induction claims using List.reverseRecOn with
  | nil => exact settled_empty cases
  | append_singleton earlier claim ih =>
    rw [claimTags, List.foldl_append]
    exact ih.claimTag claim

/-- The first claim of a case and of a tag counts. -/
example : (claimTags ["note", "task"] [("memo", "note"), ("memo", "task"), ("todo", "note"),
    ("job", "task"), ("other", "mail")]).entries = [("note", "memo"), ("task", "job")] := by
  decide +kernel

theorem get?_claimTags_append (earlier later : List (String × String)) {case_ tag : String}
    (h : (claimTags cases earlier).get? case_ = some tag) :
    (claimTags cases (earlier ++ later)).get? case_ = some tag := by
  rw [claimTags, List.foldl_append]
  exact get?_foldl_claimTag later h

/-! ## Unions -/

namespace UnionEvidence

def decoding (union : UnionEvidence) : DecodeEvidence :=
  (union.decodeBody.map decodeEvidence).getD .empty

def encoding (union : UnionEvidence) : EncodeEvidence :=
  (union.encodeBody.map encodeEvidence).getD .empty

def tagKey (union : UnionEvidence) : Option String :=
  union.decoding.tagKey.or union.encoding.tagKey

def decodeOnly (union : UnionEvidence) : UnionEvidence :=
  { union with encodeBody := none }

/-- The key that the initializer shows stays the key when the encoder is read as well. -/
theorem tagKey_of_decodeOnly {union : UnionEvidence} {key : String}
    (h : union.decodeOnly.tagKey = some key) : union.tagKey = some key := by
  have hdecoding : union.decoding.tagKey = some key := Option.or_none.symm.trans h
  rw [tagKey, hdecoding, Option.some_or]

end UnionEvidence

variable {union : UnionEvidence}

theorem rejectsUnknown_unionShape (union : UnionEvidence) :
    (unionShape union).rejectsUnknown = union.decoding.rejectsUnknown := by
  unfold unionShape
  dsimp only
  split <;> rfl

theorem unionShape_of_tagKey_none (h : union.tagKey = none) :
    (unionShape union).discriminator = none ∧ (unionShape union).tags = .empty ∧
      (unionShape union).unmatched = [] := by
  have hkey : (union.decoding.tagKey.or union.encoding.tagKey) = none := h
  unfold unionShape
  dsimp only
  split
  · exact ⟨rfl, rfl, rfl⟩
  · next hsome => cases hsome.symm.trans hkey

/-- With a key for the tag there is a discriminator, and the claims of both are settled. -/
theorem unionShape_of_tagKey_some {key : String} (h : union.tagKey = some key) :
    (∃ joint, (unionShape union).discriminator = some joint ∧
        joint.field = (union.codingKeys.get? key).getD key) ∧
      (unionShape union).tags =
        claimTags union.cases (union.decoding.tags ++ union.encoding.tags) ∧
      (unionShape union).unmatched = union.cases.filter fun case_ =>
        ((unionShape union).tags.get? case_).isNone && union.fallback != some case_ := by
  have hkey : (union.decoding.tagKey.or union.encoding.tagKey) = some key := h
  unfold unionShape
  dsimp only
  split
  · next hnone => cases hnone.symm.trans hkey
  · next found hsome =>
    cases hsome.symm.trans hkey
    refine ⟨⟨_, rfl, rfl⟩, rfl, List.filter_congr fun case_ _ => ?_⟩
    rw [NameMap.contains_eq_isSome, Option.not_isSome]

/-- Whatever tags there are, they are what the claims leave. -/
theorem settled_of_discriminator (h : (unionShape union).discriminator.isSome = true) :
    Settled union.cases (union.decoding.tags ++ union.encoding.tags) (unionShape union).tags ∧
      (unionShape union).unmatched = union.cases.filter fun case_ =>
        ((unionShape union).tags.get? case_).isNone && union.fallback != some case_ := by
  cases hkey : union.tagKey with
  | none =>
    rw [(unionShape_of_tagKey_none hkey).1] at h
    cases h
  | some key =>
    obtain ⟨-, htags, hunmatched⟩ := unionShape_of_tagKey_some hkey
    refine ⟨?_, hunmatched⟩
    rw [htags]
    exact settled_claimTags _ _

theorem empty_of_discriminator (h : (unionShape union).discriminator = none) :
    (unionShape union).tags = .empty ∧ (unionShape union).unmatched = [] := by
  cases hkey : union.tagKey with
  | none => exact (unionShape_of_tagKey_none hkey).2
  | some key =>
    obtain ⟨⟨joint, hjoint, -⟩, -⟩ := unionShape_of_tagKey_some hkey
    cases hjoint.symm.trans h

theorem settled_of_get? {case_ tag : String} (h : (unionShape union).tags.get? case_ = some tag) :
    Settled union.cases (union.decoding.tags ++ union.encoding.tags) (unionShape union).tags := by
  cases hdisc : (unionShape union).discriminator with
  | none =>
    rw [(empty_of_discriminator hdisc).1] at h
    cases h
  | some joint => exact (settled_of_discriminator (by rw [hdisc]; rfl)).1

/-! ### Without the encoder -/

theorem get?_tags_of_decodeOnly {case_ tag : String}
    (h : (unionShape union.decodeOnly).tags.get? case_ = some tag) :
    (unionShape union).tags.get? case_ = some tag := by
  cases halone : union.decodeOnly.tagKey with
  | none =>
    rw [(unionShape_of_tagKey_none halone).2.1] at h
    cases h
  | some key =>
    obtain ⟨-, htags', -⟩ := unionShape_of_tagKey_some halone
    obtain ⟨-, htags, -⟩ := unionShape_of_tagKey_some (UnionEvidence.tagKey_of_decodeOnly halone)
    have hclaims : union.decodeOnly.decoding.tags ++ union.decodeOnly.encoding.tags =
      union.decoding.tags := List.append_nil _
    rw [htags', hclaims] at h
    rw [htags]
    exact get?_claimTags_append _ _ h

theorem field_of_decodeOnly {alone : Discriminator}
    (h : (unionShape union.decodeOnly).discriminator = some alone) :
    ∃ joint, (unionShape union).discriminator = some joint ∧ joint.field = alone.field := by
  cases halone : union.decodeOnly.tagKey with
  | none =>
    rw [(unionShape_of_tagKey_none halone).1] at h
    cases h
  | some key =>
    obtain ⟨⟨found, hfound, hfield'⟩, -⟩ := unionShape_of_tagKey_some halone
    obtain ⟨⟨joint, hjoint, hfield⟩, -⟩ :=
      unionShape_of_tagKey_some (UnionEvidence.tagKey_of_decodeOnly halone)
    cases hfound.symm.trans h
    exact ⟨joint, hjoint, hfield.trans hfield'.symm⟩

theorem rejectsUnknown_decodeOnly (union : UnionEvidence) :
    (unionShape union.decodeOnly).rejectsUnknown = (unionShape union).rejectsUnknown :=
  (rejectsUnknown_unionShape union.decodeOnly).trans (rejectsUnknown_unionShape union).symm

/-- The tags of a union are a one-to-one map from some of its cases, and the cases without a
tag are reported, other than the fallback. What the encoder shows fills gaps only: it takes
nothing from what the initializer shows alone. -/
theorem unionShape_tags (union : UnionEvidence) :
    let shape := unionShape union
    let decoded := unionShape union.decodeOnly
    (∀ case_ tag, shape.tags.get? case_ = some tag → case_ ∈ union.cases) ∧
      (∀ case_ other tag, shape.tags.get? case_ = some tag → shape.tags.get? other = some tag →
        case_ = other) ∧
      (shape.discriminator.isSome = true →
        Settled union.cases (union.decoding.tags ++ union.encoding.tags) shape.tags ∧
          shape.unmatched = union.cases.filter fun case_ =>
            (shape.tags.get? case_).isNone && union.fallback != some case_) ∧
      (shape.discriminator = none → shape.tags = .empty ∧ shape.unmatched = []) ∧
      (∀ case_ tag, decoded.tags.get? case_ = some tag → shape.tags.get? case_ = some tag) ∧
      decoded.rejectsUnknown = shape.rejectsUnknown ∧
      ∀ alone, decoded.discriminator = some alone →
        ∃ joint, shape.discriminator = some joint ∧ joint.field = alone.field := by
  exact ⟨fun _ _ hget => (settled_of_get? hget).among hget,
    fun _ _ _ hleft hright => (settled_of_get? hleft).distinct hleft hright,
    settled_of_discriminator, empty_of_discriminator, fun _ _ => get?_tags_of_decodeOnly,
    rejectsUnknown_decodeOnly union, fun _ => field_of_decodeOnly⟩

end WireSchema.Extraction
