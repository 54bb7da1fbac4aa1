import WireSchema.Proofs.TypeExpr.Tokens

/-!
# Types and their texts

`WellFormed` types are the ones that a text can denote. The written form of such a type
has the tokens of the type, and what the reader does with tokens is said once: a base
that is a name, a list or a map, and the question marks after it.
-/

namespace WireSchema.TypeExpr

open Text (isBlank isIdentStart isIdentRest)

/-! ## Well-formed types -/

/-- Is the text one token of the grammar that is a name? -/
def isTypeName (name : String) : Bool :=
  match name.toList with
  | [] => false
  | c :: rest => isIdentStart c && rest.all isNameRest

/-- The types that a text can denote: names are single tokens and none of the primitives,
and no optional is directly inside another. -/
def WellFormed : TypeExpr → Prop
  | primitive _ => True
  | list t => t.WellFormed
  | map key value => key.WellFormed ∧ value.WellFormed
  | optional t => t.WellFormed ∧ t.isOptional = false
  | custom name => isTypeName name = true ∧ Primitive.ofName? name = none

def tokens : TypeExpr → List Token
  | primitive p => [.name p.name]
  | list t => .name "list" :: .openBracket :: (t.tokens ++ [.closeBracket])
  | map key value =>
    .name "map" :: .openBracket :: (key.tokens ++ .comma :: (value.tokens ++ [.closeBracket]))
  | optional t => t.tokens ++ [.question]
  | custom name => [.name name]

theorem asOptional_of_not_isOptional {t : TypeExpr} (h : t.isOptional = false) :
    t.asOptional = optional t := by
  simp [asOptional, h]

@[simp] theorem asOptional_optional (t : TypeExpr) : (optional t).asOptional = optional t := rfl

theorem asOptional_wellFormed {t : TypeExpr} (h : t.WellFormed) : t.asOptional.WellFormed := by
  cases hopt : t.isOptional with
  | true => simpa [asOptional, hopt] using h
  | false =>
    rw [asOptional_of_not_isOptional hopt]
    exact ⟨h, hopt⟩

theorem ofName_wellFormed {name : String} (h : isTypeName name = true) :
    (ofName name).WellFormed := by
  unfold ofName
  cases hname : Primitive.ofName? name with
  | some p => trivial
  | none => exact ⟨h, hname⟩

@[simp] theorem isOptional_ofName (name : String) : (ofName name).isOptional = false := by
  unfold ofName
  split <;> rfl

@[simp] theorem ofName?_name (p : Primitive) : Primitive.ofName? p.name = some p := by
  cases p <;> decide

@[simp] theorem ofName_name (p : Primitive) : ofName p.name = primitive p := by
  simp [ofName]

/-! ## Texts of types -/

theorem isNameRest_of_isTypeName {name : String} (h : isTypeName name = true) :
    ∀ c ∈ name.toList, isNameRest c = true := by
  unfold isTypeName at h
  split at h
  · cases h
  · next c rest hchars =>
    simp only [Bool.and_eq_true, List.all_eq_true] at h
    intro d hd
    rw [hchars] at hd
    rcases List.mem_cons.mp hd with rfl | hd
    · exact isNameRest_of_isIdentStart h.1
    · exact h.2 d hd

theorem tokenize_of_isTypeName {name : String} {after : List Char} {ts : List Token}
    (hname : isTypeName name = true) (hends : EndsName after) (h : tokenize after = .ok ts) :
    tokenize (name.toList ++ after) = .ok (.name name :: ts) := by
  unfold isTypeName at hname
  split at hname
  · cases hname
  · next c rest hchars =>
    simp only [Bool.and_eq_true] at hname
    have htake : rest.takeWhile isNameRest = rest :=
      List.takeWhile_eq_self_iff.mpr (List.all_eq_true.mp hname.2)
    have hdrop : rest.dropWhile isNameRest = [] :=
      List.dropWhile_eq_nil_iff.mpr (List.all_eq_true.mp hname.2)
    rw [hchars, List.cons_append, tokenize_name hname.1, takeWhile_append_endsName hends,
      dropWhile_append_endsName hends, htake, hdrop, List.nil_append, h, ← hchars,
      String.ofList_toList]
    rfl

theorem isTypeName_primitive (p : Primitive) : isTypeName p.name = true := by
  cases p <;> decide

/-- The written form of a type has the tokens of the type. -/
theorem tokenize_text {t : TypeExpr} (hwell : t.WellFormed) {after : List Char} {ts : List Token}
    (hends : EndsName after) (h : tokenize after = .ok ts) :
    tokenize (t.text.toList ++ after) = .ok (t.tokens ++ ts) := by
  induction t generalizing after ts with
  | primitive p => exact tokenize_of_isTypeName (isTypeName_primitive p) hends h
  | custom name => exact tokenize_of_isTypeName hwell.1 hends h
  | list t ih =>
    have hclose : tokenize (']' :: after) = .ok (.closeBracket :: ts) :=
      tokenize_of_symbol rfl h
    have helement := ih hwell (endsName_cons (by decide)) hclose
    have hopen : tokenize ('[' :: (t.text.toList ++ ']' :: after)) =
        .ok (.openBracket :: (t.tokens ++ .closeBracket :: ts)) :=
      tokenize_of_symbol rfl helement
    have hlist := tokenize_of_isTypeName (show isTypeName "list" = true by decide)
      (endsName_cons (by decide)) hopen
    simpa [text, tokens] using hlist
  | map key value ihkey ihvalue =>
    have hclose : tokenize (']' :: after) = .ok (.closeBracket :: ts) :=
      tokenize_of_symbol rfl h
    have hvalue := ihvalue hwell.2 (endsName_cons (by decide)) hclose
    have hcomma : tokenize (',' :: ' ' :: (value.text.toList ++ ']' :: after)) =
        .ok (.comma :: (value.tokens ++ .closeBracket :: ts)) :=
      tokenize_of_symbol rfl ((tokenize_blank (by decide)).trans hvalue)
    have hkey := ihkey hwell.1 (endsName_cons (by decide)) hcomma
    have hopen : tokenize ('[' :: (key.text.toList ++
        ',' :: ' ' :: (value.text.toList ++ ']' :: after))) =
        .ok (.openBracket :: (key.tokens ++ .comma :: (value.tokens ++ .closeBracket :: ts))) :=
      tokenize_of_symbol rfl hkey
    have hmap := tokenize_of_isTypeName (show isTypeName "map" = true by decide)
      (endsName_cons (by decide)) hopen
    simpa [text, tokens] using hmap
  | optional t ih =>
    have hquestion : tokenize ('?' :: after) = .ok (.question :: ts) :=
      tokenize_of_symbol rfl h
    have hwrapped := ih hwell.1 (endsName_cons (by decide)) hquestion
    simpa [text, tokens] using hwrapped

/-- No type is followed by an opening bracket. -/
def EndsType (after : List Token) : Prop :=
  after.head? ≠ some .openBracket

theorem endsType_cons {token : Token} {after : List Token} (h : token ≠ .openBracket) :
    EndsType (token :: after) := by
  simpa [EndsType] using h

/-- A name stands for itself unless it opens a list or a map. -/
theorem parseTokens_name {source name : String} {after : List Token}
    (h : after.head? = some .openBracket → name ≠ "list" ∧ name ≠ "map") :
    parseTokens source (.name name :: after) = .ok (closeType (ofName name) after) := by
  rw [parseTokens_eq]
  cases after with
  | nil => rfl
  | cons token later =>
    cases token with
    | openBracket => simp [h rfl]
    | _ => rfl

/-! ## What is read -/

theorem isTypeName_of_isProper {name : String} (h : (Token.name name).IsProper) :
    isTypeName name = true := by
  obtain ⟨c, rest, hchars, hstart, hrest⟩ := h
  simp [isTypeName, hchars, hstart, List.all_eq_true.mpr hrest]

theorem expect_eq_ok {source : String} {wanted : Token} {ts after : List Token}
    (h : expect source wanted ts = .ok after) : ts = wanted :: after := by
  cases ts with
  | nil => cases h
  | cons token rest =>
    simp only [expect] at h
    split at h
    · next hwanted =>
      cases h
      rw [hwanted]
    · cases h

/-- What a successful reading is: a base that is not optional, spelled by the tokens in front,
and closed by the question marks after it. The base is a name, a list or a map. -/
theorem parseTokens_eq_ok {source : String} {ts rest : List Token} {t : TypeExpr}
    (h : parseTokens source ts = .ok (t, rest)) :
    ∃ base after, closeType base after = (t, rest) ∧ base.isOptional = false ∧
      ((∃ name, ts = .name name :: after ∧ base = ofName name ∧
          (after.head? = some .openBracket → name ≠ "list" ∧ name ≠ "map")) ∨
        (∃ element inner, ts = .name "list" :: .openBracket :: inner ∧ base = list element ∧
          parseTokens source inner = .ok (element, .closeBracket :: after)) ∨
        (∃ key value inner values, ts = .name "map" :: .openBracket :: inner ∧
          base = map key value ∧ parseTokens source inner = .ok (key, .comma :: values) ∧
          parseTokens source values = .ok (value, .closeBracket :: after))) := by
  rw [parseTokens_eq] at h
  split at h
  · cases h
  · next name inner =>
    by_cases hlist : name = "list"
    · rw [if_pos hlist] at h
      obtain ⟨⟨element, afterElement⟩, helement, h⟩ := Outcome.bind_eq_ok_iff.mp h
      obtain ⟨after, hclose, h⟩ := Outcome.bind_eq_ok_iff.mp h
      cases h
      rw [expect_eq_ok hclose] at helement
      exact ⟨list element, after, rfl, rfl,
        .inr (.inl ⟨element, inner, hlist ▸ rfl, rfl, helement⟩)⟩
    · rw [if_neg hlist] at h
      by_cases hmap : name = "map"
      · rw [if_pos hmap] at h
        obtain ⟨⟨key, afterKey⟩, hkey, h⟩ := Outcome.bind_eq_ok_iff.mp h
        obtain ⟨values, hcomma, h⟩ := Outcome.bind_eq_ok_iff.mp h
        obtain ⟨⟨value, afterValue⟩, hvalue, h⟩ := Outcome.bind_eq_ok_iff.mp h
        obtain ⟨after, hclose, h⟩ := Outcome.bind_eq_ok_iff.mp h
        cases h
        rw [expect_eq_ok hcomma] at hkey
        rw [expect_eq_ok hclose] at hvalue
        exact ⟨map key value, after, rfl, rfl,
          .inr (.inr ⟨key, value, inner, values, hmap ▸ rfl, rfl, hkey, hvalue⟩)⟩
      · rw [if_neg hmap] at h
        cases h
        exact ⟨ofName name, _, rfl, by simp, .inl ⟨name, rfl, rfl, fun _ => ⟨hlist, hmap⟩⟩⟩
  · next name after hends =>
    cases h
    refine ⟨ofName name, after, rfl, by simp, .inl ⟨name, rfl, rfl, fun hopen => ?_⟩⟩
    cases after with
    | nil => cases hopen
    | cons token later =>
      cases hopen
      exact absurd rfl (hends later)
  · cases h

/-- A type is read from a text exactly if it is read from all the tokens of the text. -/
theorem parse_eq_ok_iff {source : String} {t : TypeExpr} :
    parse source = .ok t ↔
      ∃ ts, tokenize source.toList = .ok ts ∧ parseTokens source ts = .ok (t, []) := by
  unfold parse
  cases htokens : tokenize source.toList with
  | error stray => simp
  | ok ts =>
    cases hread : parseTokens source ts with
    | error fault => simp [hread]
    | ok pair =>
      obtain ⟨value, rest⟩ := pair
      cases rest <;> simp [hread]

end WireSchema.TypeExpr
