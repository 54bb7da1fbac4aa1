import WireSchema.Proofs.TypeExpr.Derivation

/-!
# Canonical texts

Every type that a text denotes has a text of its own, which denotes it again. So there is
one canonical text for each well-formed type, and two texts have a canonical text in
common exactly if they denote one type.
-/

namespace WireSchema.TypeExpr

/-! ## Derivations and well-formed types -/

namespace Derivation

theorem marked_wellFormed {base : TypeExpr} (hwell : base.WellFormed)
    (hbase : base.isOptional = false) (marks : Nat) : (marked marks base).WellFormed := by
  unfold marked
  split
  · exact hwell
  · exact ⟨hwell, hbase⟩

theorem type_wellFormed {d : Derivation} (h : ∀ token ∈ d.tokens, token.IsProper) :
    d.type.WellFormed := by
  induction d with
  | name text marks =>
    have hname := isTypeName_of_isProper (h (.name text) (by simp [tokens]))
    exact marked_wellFormed (ofName_wellFormed hname) (isOptional_ofName text) marks
  | list element marks ih =>
    have helement := ih fun token htoken => h token (by simp [tokens, htoken])
    exact marked_wellFormed (show (TypeExpr.list element.type).WellFormed from helement) rfl marks
  | map key value marks ihkey ihvalue =>
    have hkey := ihkey fun token htoken => h token (by simp [tokens, htoken])
    have hvalue := ihvalue fun token htoken => h token (by simp [tokens, htoken])
    exact marked_wellFormed
      (show (TypeExpr.map key.type value.type).WellFormed from ⟨hkey, hvalue⟩) rfl marks

end Derivation

/-- The tokens of a well-formed type are derived with it as their type. -/
theorem exists_derivation {t : TypeExpr} (h : t.WellFormed) :
    ∃ d : Derivation, d.type = t ∧ d.tokens = t.tokens := by
  induction t with
  | primitive p => exact ⟨.name p.name 0, ofName_name p, rfl⟩
  | custom name =>
    exact ⟨.name name 0, by simp [Derivation.type, Derivation.marked, ofName, h.2], rfl⟩
  | list t ih =>
    obtain ⟨d, rfl, htokens⟩ := ih h
    exact ⟨.list d 0, rfl, by simp [Derivation.tokens, Derivation.questions, tokens, htokens]⟩
  | map key value ihkey ihvalue =>
    obtain ⟨dkey, rfl, hkey⟩ := ihkey h.1
    obtain ⟨dvalue, rfl, hvalue⟩ := ihvalue h.2
    exact ⟨.map dkey dvalue 0, rfl,
      by simp [Derivation.tokens, Derivation.questions, tokens, hkey, hvalue]⟩
  | optional t ih =>
    obtain ⟨d, rfl, htokens⟩ := ih h.1
    refine ⟨d.withMark, ?_, by rw [d.tokens_withMark, htokens, tokens]⟩
    rw [d.type_withMark, asOptional_of_not_isOptional h.2]

/-- A well-formed type is read back from its text. -/
theorem parse_text {t : TypeExpr} (h : t.WellFormed) : parse t.text = .ok t := by
  obtain ⟨d, htype, htokens⟩ := exists_derivation h
  have htext := tokenize_text h endsName_nil tokenize_nil
  rw [List.append_nil, List.append_nil, ← htokens] at htext
  exact parse_eq_ok_iff_derives.mpr ⟨d, splits_of_tokenize htext, htype⟩

theorem parse_wellFormed {source : String} {t : TypeExpr} (h : parse source = .ok t) :
    t.WellFormed := by
  obtain ⟨d, hderives, rfl⟩ := parse_eq_ok_iff_derives.mp h
  exact Derivation.type_wellFormed (isProper_of_tokenize (tokenize_of_splits hderives))

/-! ## Canonical texts -/

/-- The text of what was read denotes the same type. -/
theorem parse_text_of_parse {source : String} {t : TypeExpr} (h : parse source = .ok t) :
    parse t.text = .ok t :=
  parse_text (parse_wellFormed h)

theorem canonicalize_eq_ok_iff {source text : String} :
    canonicalize source = .ok text ↔ ∃ t, parse source = .ok t ∧ t.text = text :=
  map_eq_ok_iff

/-- Canonical form is reached in one step. -/
theorem canonicalize_of_canonicalize {source text : String} (h : canonicalize source = .ok text) :
    canonicalize text = .ok text := by
  obtain ⟨t, hparse, rfl⟩ := canonicalize_eq_ok_iff.mp h
  exact canonicalize_eq_ok_iff.mpr ⟨t, parse_text_of_parse hparse, rfl⟩

theorem text_injective {t u : TypeExpr} (ht : t.WellFormed) (hu : u.WellFormed)
    (h : t.text = u.text) : t = u := by
  have hread := parse_text hu
  rw [← h, parse_text ht] at hread
  exact Except.ok.inj hread

theorem exists_parse_iff_wellFormed {t : TypeExpr} :
    (∃ source, parse source = .ok t) ↔ t.WellFormed :=
  ⟨fun ⟨_, h⟩ => parse_wellFormed h, fun h => ⟨t.text, parse_text h⟩⟩

/-- A text that has a canonical text has it in one step, and one that has none keeps its fault. -/
theorem canonicalize_bind_canonicalize (source : String) :
    (canonicalize source >>= canonicalize) = canonicalize source := by
  cases htext : canonicalize source with
  | error fault => rfl
  | ok text => exact canonicalize_of_canonicalize htext

theorem exists_canonicalize_iff {a b : String} :
    (∃ text, canonicalize a = .ok text ∧ canonicalize b = .ok text) ↔
      ∃ t, parse a = .ok t ∧ parse b = .ok t := by
  constructor
  · rintro ⟨text, ha, hb⟩
    obtain ⟨t, hparse, rfl⟩ := canonicalize_eq_ok_iff.mp ha
    obtain ⟨u, hother, htext⟩ := canonicalize_eq_ok_iff.mp hb
    rw [text_injective (parse_wellFormed hother) (parse_wellFormed hparse) htext] at hother
    exact ⟨t, hparse, hother⟩
  · rintro ⟨t, ha, hb⟩
    exact ⟨t.text, canonicalize_eq_ok_iff.mpr ⟨t, ha, rfl⟩, canonicalize_eq_ok_iff.mpr ⟨t, hb, rfl⟩⟩

/-- Displayed types read back: the types that are read are the well-formed ones, and each of
them is what its text is read as. So the canonical text of a text is reached in one step, and
it is the same for two texts exactly if they are read as the same type. -/
theorem text_readsBack :
    (∀ t : TypeExpr, (∃ source, parse source = .ok t) ↔ t.WellFormed) ∧
      (∀ t : TypeExpr, t.WellFormed → parse t.text = .ok t) ∧
      (∀ source, (canonicalize source >>= canonicalize) = canonicalize source) ∧
      ∀ a b, (∃ text, canonicalize a = .ok text ∧ canonicalize b = .ok text) ↔
        ∃ t, parse a = .ok t ∧ parse b = .ok t :=
  ⟨fun _ => exists_parse_iff_wellFormed, fun _ => parse_text, canonicalize_bind_canonicalize,
    fun _ _ => exists_canonicalize_iff⟩

end WireSchema.TypeExpr
