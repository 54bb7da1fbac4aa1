import WireSchema.Proofs.Number.Integer
import WireSchema.Proofs.Text.Blank
import WireSchema.Proofs.Text.CamelCase
import WireSchema.Schema.Basic

/-!
# Raw-valued unions

A union without a discriminator is an enum of numbers on the wire if every variant but
the fallback is a unit tagged with a number. The kinds of the numbers are looked at one
after the other, but whether there is one kind for all does not depend on the order.
-/

namespace WireSchema

namespace RawKind

open Text (isIdentifier)

theorem isIdentStart_of_isDigit {c : Char} (h : c.isDigit = true) :
    Text.isIdentStart c = false := by
  have hascii : ∀ n < 128, (Char.ofNat n).isDigit = true →
      Text.isIdentStart (Char.ofNat n) = false := by
    decide
  have hcode : c.toNat < 128 := Text.toNat_lt_of_isAlphanum (by simp [Char.isAlphanum, h])
  have hchar := hascii c.toNat hcode
  rw [Char.ofNat_toNat] at hchar
  exact hchar h

/-- The text starts with a digit or a minus sign. -/
def StartsNumber (tag : String) : Prop :=
  ∃ c later, tag.toList = c :: later ∧ (c.isDigit = true ∨ c = '-')

theorem startsNumber_decimal (n : Int) : StartsNumber (Number.decimal n) := by
  rw [StartsNumber, Number.decimal, String.toList_ofList]
  cases n with
  | ofNat n =>
    obtain ⟨c, later, hdigits⟩ := List.exists_cons_of_ne_nil (Number.natDigits_ne_nil n)
    exact ⟨c, later, hdigits,
      .inl (Number.isDigit_of_mem_natDigits (hdigits ▸ List.mem_cons_self))⟩
  | negSucc n => exact ⟨'-', _, rfl, .inr rfl⟩

theorem isIntTag_iff {tag : String} :
    isIntTag tag = true ↔ ∃ n, Number.isInt64 n = true ∧ tag = Number.decimal n := by
  unfold isIntTag
  constructor
  · intro h
    split at h
    · next n hread => exact ⟨n, Number.isInt64_of_readInt64? hread, (beq_iff_eq.mp h).symm⟩
    · cases h
  · rintro ⟨n, hn, rfl⟩
    have hread : Number.readInt64? 10 (Number.decimal n).toList = some n := by
      rw [Number.decimal, String.toList_ofList, Number.readInt64?_decimalChars hn]
    rw [hread]
    exact beq_self_eq_true _

theorem startsNumber_of_isIntTag {tag : String} (h : isIntTag tag = true) :
    StartsNumber tag := by
  obtain ⟨n, -, rfl⟩ := isIntTag_iff.mp h
  exact startsNumber_decimal n

theorem startsNumber_of_isFloatTag {tag : String} (h : isFloatTag tag = true) :
    StartsNumber tag := by
  unfold isFloatTag at h
  simp only [Bool.and_eq_true] at h
  obtain ⟨⟨⟨hhead, -⟩, -⟩, -⟩ := h
  cases hstrip : Text.stripStart? ['-'] tag.toList with
  | some digits => exact ⟨'-', digits, Text.eq_append_of_stripStart? hstrip, .inr rfl⟩
  | none =>
    rw [hstrip, Option.getD_none] at hhead
    cases hchars : tag.toList with
    | nil => rw [hchars] at hhead; cases hhead
    | cons c later =>
      rw [hchars] at hhead
      exact ⟨c, later, hchars, .inl hhead⟩

theorem startsNumber_of_ofTag? {tag : String} (h : (ofTag? tag).isSome = true) :
    StartsNumber tag := by
  unfold ofTag? at h
  split at h
  · next hint => exact startsNumber_of_isIntTag hint
  · split at h
    · next hfloat => exact startsNumber_of_isFloatTag hfloat
    · cases h

theorem ofTag?_eq_int_iff {tag : String} : ofTag? tag = some int ↔ isIntTag tag = true := by
  unfold ofTag?
  cases isIntTag tag with
  | true => simp
  | false => simp

/-- No name is a number. -/
theorem ofTag?_eq_none_of_isIdentifier {name : String} (h : isIdentifier name = true) :
    ofTag? name = none := by
  rw [← Option.not_isSome_iff_eq_none]
  intro hsome
  obtain ⟨c, later, hchars, hc⟩ := startsNumber_of_ofTag? hsome
  rw [isIdentifier, hchars, Text.isIdentChars, Bool.and_eq_true] at h
  rcases hc with hdigit | rfl
  · exact absurd h.1 (by simp [isIdentStart_of_isDigit hdigit])
  · exact absurd h.1 (by decide)

end RawKind

namespace UnionDef

theorem isSome_rawKindOf?_iff {variant : VariantDef} :
    (rawKindOf? variant).isSome = true ↔
      variant.payload = .unit ∧
        ∃ tag, variant.tag = some tag ∧ (RawKind.ofTag? tag).isSome = true := by
  rw [rawKindOf?, VariantDef.isUnit]
  by_cases hunit : variant.payload = .unit
  · cases htag : variant.tag <;> simp [hunit]
  · simp [hunit]

/-- The kind that covers others is there if none of these is missing. It is that of integers if all
of them are. -/
theorem coveringKind?_eq_some_iff {kinds : List (Option RawKind)} {kind : RawKind} :
    coveringKind? kinds = some kind ↔
      kinds ≠ [] ∧ (∀ other ∈ kinds, other.isSome = true) ∧
        (kind = .int ↔ ∀ other ∈ kinds, other = some .int) := by
  fun_induction coveringKind? kinds generalizing kind with
  | case1 => simp
  | case2 kind? => rcases kind? with _ | _ | _ <;> cases kind <;> simp
  | case3 later hlater a b hcovered ih =>
    obtain ⟨-, hsome, hint⟩ := ih.mp hcovered
    have hmerge : a.merge b = .int ↔ a = .int ∧ b = .int := by
      cases a <;> cases b <;> simp [RawKind.merge]
    simp only [ne_eq, List.cons_ne_nil, not_false_eq_true, true_and, List.forall_mem_cons,
      Option.isSome_some, Option.some.injEq, ← hint, ← hmerge]
    constructor
    · rintro rfl
      exact ⟨hsome, Iff.rfl⟩
    · rintro ⟨-, hkind⟩
      cases kind <;> cases hmerged : a.merge b <;> simp_all
  | case4 kind? later hlater hnone ih =>
    simp only [reduceCtorEq, false_iff, not_and, List.forall_mem_cons]
    rintro - ⟨hkind, hall⟩ -
    obtain ⟨a, rfl⟩ := Option.isSome_iff_exists.mp hkind
    by_cases hints : ∀ other ∈ later, other = some .int
    · exact hnone a .int rfl (ih.mpr ⟨by simpa using hlater, hall, by simpa using hints⟩)
    · exact hnone a .float rfl (ih.mpr ⟨by simpa using hlater, hall, by simpa using hints⟩)

theorem isSome_coveringKind?_iff {kinds : List (Option RawKind)} :
    (coveringKind? kinds).isSome = true ↔ kinds ≠ [] ∧ ∀ kind ∈ kinds, kind.isSome = true := by
  simp only [Option.isSome_iff_exists, coveringKind?_eq_some_iff]
  constructor
  · rintro ⟨kind, hne, hsome, -⟩
    exact ⟨hne, hsome⟩
  · rintro ⟨hne, hsome⟩
    by_cases hints : ∀ kind ∈ kinds, kind = some .int
    · exact ⟨.int, hne, hsome, by simpa using hints⟩
    · exact ⟨.float, hne, hsome, by simpa using hints⟩

/-- Kinds are covered by the same kind with further ones that are integers. -/
theorem coveringKind?_of_subset {kinds kinds' : List (Option RawKind)} {kind : RawKind}
    (h : coveringKind? kinds = some kind) (hkept : ∀ other ∈ kinds, other ∈ kinds')
    (hadded : ∀ other ∈ kinds', other ∈ kinds ∨ other = some .int) :
    coveringKind? kinds' = some kind := by
  obtain ⟨hne, hsome, hint⟩ := coveringKind?_eq_some_iff.mp h
  refine coveringKind?_eq_some_iff.mpr ⟨?_, fun other hother => ?_, hint.trans ⟨?_, ?_⟩⟩
  · rintro rfl
    exact hne (List.eq_nil_iff_forall_not_mem.mpr fun other hother => nomatch hkept other hother)
  · rcases hadded other hother with hold | rfl
    · exact hsome other hold
    · rfl
  · exact fun hints other hother => (hadded other hother).elim (hints other) id
  · exact fun hints other hother => hints other (hkept other hother)

theorem rawValueType_eq_some_iff {d : UnionDef} {kind : RawKind} :
    d.rawValueType = some kind ↔ d.discriminator = none ∧
      coveringKind? ((d.variants.entries.filter fun entry => !d.isFallback entry.1).map
        fun entry => rawKindOf? entry.2) = some kind := by
  rw [rawValueType]
  cases d.discriminator <;> simp

/-- The variants with a tag of their own are there, and all are units tagged with numbers. -/
structure IsNumbered (d : UnionDef) : Prop where
  discriminator : d.discriminator = none
  variants : ∃ entry ∈ d.variants.entries, d.isFallback entry.1 = false
  numbers : ∀ entry ∈ d.variants.entries, d.isFallback entry.1 = false →
    entry.2.payload = .unit ∧
      ∃ tag, entry.2.tag = some tag ∧ (RawKind.ofTag? tag).isSome = true

theorem isSome_rawValueType_iff {d : UnionDef} :
    d.rawValueType.isSome = true ↔ d.IsNumbered := by
  rw [rawValueType]
  cases hdisc : d.discriminator with
  | some disc => exact ⟨nofun, fun h => nomatch hdisc.symm.trans h.discriminator⟩
  | none =>
    rw [if_neg (by simp), isSome_coveringKind?_iff]
    simp only [ne_eq, List.map_eq_nil_iff, List.filter_eq_nil_iff, List.forall_mem_map,
      List.mem_filter, isSome_rawKindOf?_iff]
    constructor
    · rintro ⟨hvariants, hnumbers⟩
      refine ⟨hdisc, ?_, fun entry hentry hown => hnumbers entry ⟨hentry, by simp [hown]⟩⟩
      simpa using hvariants
    · rintro ⟨-, hvariants, hnumbers⟩
      refine ⟨by simpa using hvariants, fun entry hentry => hnumbers entry hentry.1 ?_⟩
      simpa using hentry.2

end UnionDef

end WireSchema
