import WireSchema.Proofs.Swift.Names
import WireSchema.Proofs.Swift.PlainType
import WireSchema.Proofs.TypeExpr.Canonical

/-!
# Names in types

Names in a source are identifiers with dots between them, and stay so when dotted names are
put together or lose their module. The text of a type with such names denotes a type again.
It need not be the same one: a custom name may be spelled like a primitive of the schema
language.
-/

namespace WireSchema

open Text (isIdentStart isIdentRest isIdentChars isIdentifier)

/-! ## Dotted names -/

namespace Swift

theorem isDotted_append_cons {first later : List Char} :
    IsDotted (first ++ '.' :: later) ↔ IsDotted first ∧ IsDotted later := by
  have hsplit : (first ++ '.' :: later).splitOn '.' = first.splitOn '.' ++ later.splitOn '.' :=
    List.splitOnP_append_cons first later rfl
  simp only [IsDotted, hsplit, List.mem_append, or_imp, forall_and]

theorem splitOn_of_isIdentChars {part : List Char} (h : isIdentChars part = true) :
    part.splitOn '.' = [part] := by
  have hdot : ∀ l ∈ [part], '.' ∉ l := by
    intro l hl hmem
    rw [List.mem_singleton.mp hl] at hmem
    exact absurd (isIdentRest_of_mem h '.' hmem) (by decide)
  have hsplit := List.splitOn_intercalate '.' hdot (List.cons_ne_nil _ _)
  rwa [List.intercalate_singleton] at hsplit

theorem isDotted_of_isIdentChars {part : List Char} (h : isIdentChars part = true) :
    IsDotted part := by
  rw [IsDotted, splitOn_of_isIdentChars h]
  simpa using h

/-- A dotted name is one token of the type grammar. -/
theorem isTypeName_of_isDotted {name : String} (h : IsDotted name.toList) :
    TypeExpr.isTypeName name = true := by
  obtain ⟨c, rest, hchars, hstart⟩ :=
    exists_cons_of_dotted (List.splitOn_ne_nil '.' name.toList) h
  have hall : ∀ d ∈ rest, TypeExpr.isNameRest d = true := by
    intro d hd
    have hmem : d ∈ ['.'].intercalate (name.toList.splitOn '.') := by
      rw [hchars]
      exact List.mem_cons_of_mem c hd
    rcases mem_dotted h hmem with hname | rfl
    · rw [TypeExpr.isNameRest, hname, Bool.true_or]
    · rfl
  rw [List.intercalate_splitOn] at hchars
  rw [TypeExpr.isTypeName, hchars]
  simp only [Bool.and_eq_true, List.all_eq_true]
  exact ⟨hstart, hall⟩

theorem qualifiedName_isDotted {name : String} {tokens : List Token}
    (hname : IsDotted name.toList) (htokens : NamesIdentify tokens) :
    IsDotted (qualifiedName name tokens).1.toList := by
  fun_induction qualifiedName name tokens with
  | case1 name dot part rest hpart ih =>
    simp only [Bool.and_eq_true] at hpart
    have hidentifier := htokens part (by simp) hpart.2
    refine ih ?_ (htokens.of_suffix ((List.suffix_cons part rest).trans (List.suffix_cons dot _)))
    have hdotted := isDotted_append_cons.mpr ⟨hname, isDotted_of_isIdentChars hidentifier⟩
    simpa using hdotted
  | case2 => exact hname
  | case3 => exact hname

theorem localName_isDotted {name : String} (h : IsDotted name.toList) :
    IsDotted (localName name).toList := by
  rw [localName, String.toList_ofList, Text.stripStart?]
  by_cases hqualified : "Swift.".toList.isPrefixOf name.toList = true
  · obtain ⟨later, hlater⟩ := List.isPrefixOf_iff_prefix.mp hqualified
    rw [if_pos hqualified, ← hlater, List.drop_left, Option.getD_some]
    have hsplit : IsDotted ("Swift".toList ++ '.' :: later) := by
      rw [← hlater] at h
      exact h
    exact (isDotted_append_cons.mp hsplit).2
  · rw [if_neg hqualified]
    exact h

end Swift

/-! ## Spelled types -/

namespace TypeExpr

/-- Are all names in the type tokens of the grammar, and does no optional stand directly
in another? -/
def IsSpelled : TypeExpr → Prop
  | primitive _ => True
  | list t => t.IsSpelled
  | map key value => key.IsSpelled ∧ value.IsSpelled
  | optional t => t.IsSpelled ∧ t.isOptional = false
  | custom name => isTypeName name = true

/-- The type that the text of a spelled type denotes: a name of a primitive is that
primitive. -/
def reread : TypeExpr → TypeExpr
  | primitive p => primitive p
  | list t => list t.reread
  | map key value => map key.reread value.reread
  | optional t => optional t.reread
  | custom name => ofName name

@[simp] theorem isOptional_reread (t : TypeExpr) : t.reread.isOptional = t.isOptional := by
  cases t with
  | custom name => exact isOptional_ofName name
  | primitive | list | map | optional => rfl

theorem text_ofName (name : String) : (ofName name).text = name := by
  unfold ofName
  split
  · next p hname =>
    have hfind := List.find?_some hname
    simpa [text] using hfind
  · rfl

theorem text_reread (t : TypeExpr) : t.reread.text = t.text := by
  induction t with
  | primitive p => rfl
  | custom name => exact text_ofName name
  | list t ih => simp only [reread, text, ih]
  | map key value ihkey ihvalue => simp only [reread, text, ihkey, ihvalue]
  | optional t ih => simp only [reread, text, ih]

theorem reread_wellFormed {t : TypeExpr} (h : t.IsSpelled) : t.reread.WellFormed := by
  induction t with
  | primitive p => trivial
  | custom name => exact ofName_wellFormed h
  | list t ih => exact ih h
  | map key value ihkey ihvalue => exact ⟨ihkey h.1, ihvalue h.2⟩
  | optional t ih => exact ⟨ih h.1, by rw [isOptional_reread, h.2]⟩

theorem parse_text_of_isSpelled {t : TypeExpr} (h : t.IsSpelled) :
    parse t.text = .ok t.reread := by
  rw [← text_reread]
  exact parse_text (reread_wellFormed h)

end TypeExpr

/-! ## What is read of tokens -/

namespace Swift

open Outcome (bind_eq_ok_iff)

theorem IsWritable.isSpelled {t : TypeExpr} (h : IsWritable t) : t.IsSpelled := by
  induction t with
  | primitive p => trivial
  | list t ih => exact ih h
  | map key value ihkey ihvalue => exact ⟨ihkey h.1, ihvalue h.2⟩
  | optional t ih => exact ⟨ih h.1, h.2⟩
  | custom name => exact isTypeName_of_isDotted h

theorem asOptional_isWritable {t : TypeExpr} (h : IsWritable t) : IsWritable t.asOptional := by
  cases hopt : t.isOptional with
  | true => simpa [TypeExpr.asOptional, hopt] using h
  | false =>
    rw [TypeExpr.asOptional_of_not_isOptional hopt]
    exact ⟨h, hopt⟩

theorem readTypeTokens_properSuffix {tokens rest : List Token} {t : TypeExpr}
    (h : readTypeTokens tokens = .ok (t, rest)) : ProperSuffix rest tokens := by
  rw [readTypeTokens] at h
  cases htaken : takeType tokens with
  | error fault =>
    rw [htaken] at h
    cases h
  | ok taken =>
    rw [htaken] at h
    cases h
    exact taken.proper

/-- What is read before the marks of optionality are taken in, and the tokens left after it:
a list, a map, a type in parentheses, a name with arguments or a name. -/
inductive ReadsBase : List Token → TypeExpr → List Token → Prop where
  | list {opener : Token} {after afterElement rest : List Token} {element : TypeExpr}
    (hopen : opener.isWord "[" = true)
    (helement : readTypeTokens after = .ok (element, afterElement))
    (hclose : expectWord "]" afterElement = .ok rest) :
    ReadsBase (opener :: after) (.list element) rest
  | map {opener : Token} {after afterKey values afterValue rest : List Token}
    {key value : TypeExpr} (hopen : opener.isWord "[" = true)
    (hkey : readTypeTokens after = .ok (key, afterKey))
    (hcolon : passWord? ":" afterKey = some values)
    (hvalue : readTypeTokens values = .ok (value, afterValue))
    (hclose : expectWord "]" afterValue = .ok rest) :
    ReadsBase (opener :: after) (.map key value) rest
  | inner {opener : Token} {after afterInner rest : List Token} {t : TypeExpr}
    (hopen : opener.isWord "(" = true)
    (hinner : readTypeTokens after = .ok (t, afterInner))
    (hclose : expectWord ")" afterInner = .ok rest) (harrow : wordNext rest "->" = false) :
    ReadsBase (opener :: after) t rest
  | generic {token : Token} {after inside afterArguments rest : List Token}
    {arguments : List TypeExpr} {t : TypeExpr} (hname : token.isIdentifier = true)
    (hopen : passWord? "<" (qualifiedName token.text after).2 = some inside)
    (harguments : readArguments inside = .ok (arguments, afterArguments))
    (hclose : expectWord ">" afterArguments = .ok rest)
    (ht : namedType (localName (qualifiedName token.text after).1) arguments = .ok t) :
    ReadsBase (token :: after) t rest
  | name {token : Token} {after : List Token} {t : TypeExpr} (hname : token.isIdentifier = true)
    (ht : namedType (localName (qualifiedName token.text after).1) [] = .ok t) :
    ReadsBase (token :: after) t (qualifiedName token.text after).2

theorem readTypeTokens_eq_ok {tokens rest : List Token} {t : TypeExpr}
    (h : readTypeTokens tokens = .ok (t, rest)) :
    ∃ base after, ReadsBase tokens base after ∧ closeType base after = (t, rest) := by
  rw [readTypeTokens_eq] at h
  cases tokens with
  | nil => cases h
  | cons token after =>
    dsimp only at h
    split at h
    · next hopen =>
      obtain ⟨⟨element, afterElement⟩, helement, h⟩ := bind_eq_ok_iff.mp h
      dsimp only at h
      split at h
      · next values hcolon =>
        obtain ⟨⟨value, afterValue⟩, hvalue, h⟩ := bind_eq_ok_iff.mp h
        obtain ⟨left, hclose, h⟩ := bind_eq_ok_iff.mp h
        exact ⟨_, left, .map hopen helement hcolon hvalue hclose, Except.ok.inj h⟩
      · obtain ⟨left, hclose, h⟩ := bind_eq_ok_iff.mp h
        exact ⟨_, left, .list hopen helement hclose, Except.ok.inj h⟩
    split at h
    · next hopen =>
      obtain ⟨⟨inner, afterInner⟩, hinner, h⟩ := bind_eq_ok_iff.mp h
      obtain ⟨left, hclose, h⟩ := bind_eq_ok_iff.mp h
      dsimp only at h
      split at h
      · cases h
      · next harrow =>
        exact ⟨_, left, .inner hopen hinner hclose (by simpa using harrow), Except.ok.inj h⟩
    split at h
    · next hname =>
      split at h
      · next inside hopen =>
        obtain ⟨⟨arguments, afterArguments⟩, harguments, h⟩ := bind_eq_ok_iff.mp h
        obtain ⟨left, hclose, h⟩ := bind_eq_ok_iff.mp h
        obtain ⟨base, hbase, h⟩ := bind_eq_ok_iff.mp h
        exact ⟨base, left, .generic hname hopen harguments hclose hbase, Except.ok.inj h⟩
      · obtain ⟨base, hbase, h⟩ := bind_eq_ok_iff.mp h
        exact ⟨base, _, .name hname hbase, Except.ok.inj h⟩
    · cases h

end Swift

end WireSchema
