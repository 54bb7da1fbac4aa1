import WireSchema.Proofs.Generation.Plain

/-!
# Optional fields in texts and in code

Whether a field is optional is read off the end of its type text and its `required` flag, and
code decides on the type itself. Both come to the same for every text that denotes a type,
however it is spaced and however many question marks it ends in, because the last mark of a
text belongs to the outermost type.
-/

namespace WireSchema

open Generation (Namer)
open TypeExpr (parse)

namespace FieldDef

variable {field : FieldDef} {t : TypeExpr}

/-- Marks at the end of the text count for the type in any case, so only `required` is left to
fold in. -/
theorem foldedType_eq (h : parse field.type = .ok t) :
    field.foldedType t = if field.required then t else t.asOptional := by
  have hends := TypeExpr.endsOptional_iff h
  unfold foldedType isOptional
  cases field.required with
  | false => rfl
  | true =>
    cases hmark : endsOptional field.type with
    | false => rfl
    | true =>
      -- The flag is set, so the mark alone decides, and then the type is optional as it stands.
      show t.asOptional = t
      rw [TypeExpr.asOptional, if_pos (hends.mp hmark)]

/-- Without types in the schema, and without a lead, code takes types as they are. -/
theorem fieldType_of_noTypes (h : parse field.type = .ok t) {schema : Schema}
    (hempty : schema.types = .empty) :
    (Namer.ofSchema "" schema).fieldType field = .ok (field.foldedType t) := by
  have hwell : (field.foldedType t).WellFormed :=
    TypeExpr.parse_wellFormed (parse_foldedType h)
  have hreference : ∀ name, (Namer.ofSchema "" schema).reference name = name := by
    intro name
    rw [Namer.reference, Namer.ofSchema, hempty]
    rfl
  rw [Namer.fieldType_of_parse _ h, TypeExpr.rename_eq_self hreference hwell]

/-- A field is optional exactly if its canonical text denotes an optional type. This text denotes
the type of the field, made optional unless the field is required, and that is the type of the
field in code. -/
theorem optionality_agrees (h : parse field.type = .ok t) :
    (field.isOptional = true ↔ ∃ u, parse field.canonicalType = .ok (.optional u)) ∧
      parse field.canonicalType = .ok (if field.required then t else t.asOptional) ∧
      ∀ schema : Schema, schema.types = .empty →
        (Namer.ofSchema "" schema).fieldType field = parse field.canonicalType := by
  have hcanonical : parse field.canonicalType = .ok (field.foldedType t) := parse_canonicalType h
  refine ⟨?_, ?_, fun schema hempty => ?_⟩
  · rw [hcanonical, ← isOptional_foldedType h]
    cases field.foldedType t <;> simp [TypeExpr.isOptional]
  · rw [hcanonical, foldedType_eq h]
  · rw [fieldType_of_noTypes h hempty, hcanonical]

/-- A field that may be missing, with two marks inside its type and none at the end. -/
def spacedField : FieldDef :=
  { type := " map[ string ,int ? ?] \n", wireName := none, required := false, doc := none }

theorem optionality_agrees_spacedField :
    parse spacedField.type = .ok (.map (.primitive .string) (.optional (.primitive .int))) ∧
      (spacedField.isOptional = true ↔
        ∃ u, parse spacedField.canonicalType = .ok (.optional u)) ∧
      parse spacedField.canonicalType =
        .ok (.optional (.map (.primitive .string) (.optional (.primitive .int)))) ∧
      (Namer.ofSchema "" (.ofProvider "shop")).fieldType spacedField =
        parse spacedField.canonicalType := by
  have hparse : parse spacedField.type =
      .ok (.map (.primitive .string) (.optional (.primitive .int))) := by decide +kernel
  obtain ⟨hoptional, hcanonical, hcode⟩ := optionality_agrees hparse
  exact ⟨hparse, hoptional, hcanonical, hcode _ rfl⟩

end FieldDef

end WireSchema
