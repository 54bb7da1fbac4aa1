import WireSchema.Proofs.Swift.WrittenType

/-!
# Which types come back from their text

The text of a type is read back as the type exactly if the type is plain. A type that is
not plain loses something: a name that means something else in Swift is read as that, an
optional inside an optional is written as one, and a name that is no sequence of
identifiers is never read as a name.

What is kept of a type that a source names is its text in the type grammar. There the names
of the primitives are written in lower case, and in a source such a name may be that of
another type: this is all that can be lost.
-/

namespace WireSchema

namespace TypeExpr

theorem ofName_eq_custom_iff {name : String} :
    ofName name = custom name ↔ Primitive.ofName? name = none := by
  unfold ofName
  cases Primitive.ofName? name with
  | none => simp
  | some p => simp

/-- The text of a type denotes the type itself if no name in it is that of a primitive. -/
theorem reread_eq_self_iff {t : TypeExpr} :
    t.reread = t ↔ ∀ name ∈ t.customNames, Primitive.ofName? name = none := by
  induction t with
  | primitive p => simp [reread, customNames]
  | list t ih => simpa [reread, customNames] using ih
  | map key value ihkey ihvalue =>
    simp [reread, customNames, ihkey, ihvalue, or_imp, forall_and]
  | optional t ih => simpa [reread, customNames] using ih
  | custom name => simpa [reread, customNames] using ofName_eq_custom_iff

end TypeExpr

namespace Swift

/-! ## From a type to its text in a source and back -/

theorem localName_ne_of_qualified {name : String} (h : "Swift.".toList <+: name.toList) :
    localName name ≠ name := by
  obtain ⟨later, hlater⟩ := h
  intro hsame
  have hlocal : (localName name).toList = later := by
    rw [localName, ← hlater, Text.stripStart?_append, Option.getD_some, String.toList_ofList]
  have hlength := congrArg List.length hlater
  rw [← hlocal, hsame, List.length_append] at hlength
  have hpositive : 0 < "Swift.".toList.length := by decide
  omega

/-- Only a plain name means itself. -/
theorem isPlainName_of_nameMeaning {name : String} (hdotted : IsDotted name.toList)
    (h : nameMeaning name = .custom name) : IsPlainName name := by
  unfold nameMeaning at h
  cases hprimitive : primitiveOf? (localName name) with
  | some p =>
    rw [hprimitive] at h
    cases h
  | none =>
    rw [hprimitive] at h
    have hlocal : localName name = name := TypeExpr.custom.inj h
    exact ⟨hdotted, fun hqualified => localName_ne_of_qualified hqualified hlocal,
      hlocal ▸ hprimitive⟩

theorem isPlain_of_textMeaning {t : TypeExpr} (hwritable : IsWritable t)
    (h : textMeaning t = t) : IsPlain t := by
  induction t with
  | primitive p => trivial
  | list t ih => exact ih hwritable (TypeExpr.list.inj h)
  | map key value ihkey ihvalue =>
    obtain ⟨hkey, hvalue⟩ := TypeExpr.map.inj h
    exact ⟨ihkey hwritable.1 hkey, ihvalue hwritable.2 hvalue⟩
  | optional t ih => exact ⟨ih hwritable.1 (TypeExpr.optional.inj h), hwritable.2⟩
  | custom name => exact isPlainName_of_nameMeaning hwritable h

/-- A type comes back from its text in Swift exactly if it is plain: no optional is directly
inside another, and every name in it is a sequence of identifiers with dots between them that
neither starts with the module of the basic types nor is one of these types. -/
theorem readType_typeText_eq_ok_iff {t : TypeExpr} :
    readType (typeText t) = .ok t ↔ IsPlain t := by
  constructor
  · intro h
    -- Whatever is read can be written, so what is known of the texts of writable types applies.
    have hwritable := readType_isWritable h
    have hmeaning := readType_of_isWritable hwritable
    exact isPlain_of_textMeaning hwritable (Except.ok.inj (hmeaning.symm.trans h))
  · exact readType_typeText

/-! ## From a source to the text that is kept -/

/-- The text that is kept of a type in a source denotes the type, with every name that is also
the name of a primitive taken for that; so it denotes the type that was read exactly if no name
in it is one of those. -/
theorem parse_text_eq_ok_iff_of_readType {source : String} {t : TypeExpr}
    (h : readType source = .ok t) :
    TypeExpr.parse t.text = .ok t.reread ∧
      (TypeExpr.parse t.text = .ok t ↔
        ∀ name ∈ t.customNames, Primitive.ofName? name = none) := by
  have hparse := parse_text_of_readType h
  refine ⟨hparse, ?_⟩
  rw [hparse, ← TypeExpr.reread_eq_self_iff]
  exact ⟨Except.ok.inj, congrArg Except.ok⟩

theorem parse_text_eq_ok_iff_of_readType_catalog :
    let source := "Swift.Dictionary<String, [Shop . Item]>!"
    let t : TypeExpr := .optional (.map (.primitive .string) (.list (.custom "Shop.Item")))
    readType source = .ok t ∧ TypeExpr.parse t.text = .ok t := by
  intro source t
  have hread : readType source = .ok t := by decide +kernel
  exact ⟨hread, (parse_text_eq_ok_iff_of_readType hread).2.mpr (by decide)⟩

/-- A type of the name `string` is kept as a text that denotes the primitive. -/
theorem parse_text_of_readType_string :
    let t : TypeExpr := .custom "string"
    readType "string" = .ok t ∧ TypeExpr.parse t.text = .ok (.primitive .string) ∧
      TypeExpr.parse t.text ≠ .ok t := by
  decide +kernel

end Swift

end WireSchema
