import WireSchema.Text.Identifier

/-!
# Case names for wire strings

Whatever a wire string holds, its case name is an identifier: what is rewritten is
made of letters and digits, and an underscore comes before a digit at the front. What is
rewritten once is not rewritten again.
-/

namespace WireSchema.Text

theorem toNat_lt_of_isAlphanum {c : Char} (h : c.isAlphanum = true) : c.toNat < 128 := by
  delta Char.isAlphanum Char.isAlpha Char.isUpper Char.isLower Char.isDigit at h
  simp only [Bool.or_eq_true, Bool.and_eq_true, decide_eq_true_eq, ge_iff_le,
    UInt32.le_iff_toNat_le] at h
  have hval : c.toNat = c.val.toNat := rfl
  have hbounds : 'Z'.val.toNat < 128 ∧ 'z'.val.toNat < 128 ∧ '9'.val.toNat < 128 := by decide
  omega

/-- The case of a letter does not matter for its being a letter or digit. -/
theorem isAlphanum_changeCase {c : Char} (h : c.isAlphanum = true) :
    c.toLower.isAlphanum = true ∧ c.toUpper.isAlphanum = true := by
  have hascii : ∀ n < 128, (Char.ofNat n).isAlphanum = true →
      (Char.ofNat n).toLower.isAlphanum = true ∧ (Char.ofNat n).toUpper.isAlphanum = true := by
    decide
  have hchar := hascii c.toNat (toNat_lt_of_isAlphanum h)
  rw [Char.ofNat_toNat] at hchar
  exact hchar h

theorem isAlphanum_of_mem_alphanumericWords {cs word : List Char}
    (hword : word ∈ alphanumericWords cs) {c : Char} (hc : c ∈ word) : c.isAlphanum = true := by
  induction cs generalizing word with
  | nil => cases hword
  | cons d rest ih =>
    unfold alphanumericWords at hword
    split at hword
    · next hd =>
      split at hword
      · next e more first later hwords =>
        have hlater : ∀ other ∈ first :: later, c ∈ other → c.isAlphanum = true := by
          intro other hother hmem
          exact ih (hwords ▸ hother) hmem
        split at hword
        · rcases List.mem_cons.mp hword with rfl | hword
          · rcases List.mem_cons.mp hc with rfl | hc
            · exact hd
            · exact hlater first List.mem_cons_self hc
          · exact hlater word (List.mem_cons_of_mem first hword) hc
        · rcases List.mem_cons.mp hword with rfl | hword
          · rw [List.mem_singleton.mp hc]
            exact hd
          · exact hlater word hword hc
      · rcases List.mem_cons.mp hword with rfl | hword
        · rw [List.mem_singleton.mp hc]
          exact hd
        · exact ih hword hc
    · exact ih hword hc

theorem isAlphanum_of_mem_camelCased {words : List (List Char)}
    (hwords : ∀ word ∈ words, ∀ c ∈ word, c.isAlphanum = true) {c : Char}
    (hc : c ∈ camelCased words) : c.isAlphanum = true := by
  have hcapital : ∀ word ∈ words, c ∈ capitalized word → c.isAlphanum = true := by
    intro word hword hmem
    cases word with
    | nil => cases hmem
    | cons d rest =>
      rcases List.mem_cons.mp hmem with rfl | hmem
      · exact (isAlphanum_changeCase (hwords _ hword d List.mem_cons_self)).2
      · exact hwords _ hword c (List.mem_cons_of_mem d hmem)
  cases words with
  | nil => cases hc
  | cons first later =>
    rcases List.mem_append.mp hc with hfirst | hlater
    · cases first with
      | nil => cases hfirst
      | cons d rest =>
        rcases List.mem_cons.mp hfirst with rfl | hmem
        · exact (isAlphanum_changeCase (hwords _ List.mem_cons_self d List.mem_cons_self)).1
        · exact hwords _ List.mem_cons_self c (List.mem_cons_of_mem d hmem)
    · obtain ⟨word, hword, hmem⟩ := List.mem_flatten.mp hlater
      obtain ⟨original, horiginal, rfl⟩ := List.mem_map.mp hword
      exact hcapital original (List.mem_cons_of_mem first horiginal) hmem

theorem isIdentChars_withIdentStart {cs : List Char} (h : ∀ c ∈ cs, c.isAlphanum = true) :
    isIdentChars (withIdentStart cs) = true := by
  have hrest : ∀ ds : List Char, (∀ d ∈ ds, d.isAlphanum = true) → ds.all isIdentRest = true := by
    intro ds hds
    refine List.all_eq_true.mpr fun d hd => ?_
    rw [isIdentRest, hds d hd, Bool.true_or]
  cases cs with
  | nil => rfl
  | cons c rest =>
    rw [withIdentStart]
    by_cases hdigit : c.isDigit = true
    · rw [if_pos hdigit, isIdentChars, hrest _ h]
      rfl
    · have halpha : c.isAlpha = true := by
        have hc := h c List.mem_cons_self
        rw [Char.isAlphanum, Bool.eq_false_iff.mpr hdigit, Bool.or_false] at hc
        exact hc
      rw [if_neg hdigit, isIdentChars, isIdentStart, halpha,
        hrest rest fun d hd => h d (List.mem_cons_of_mem c hd)]
      rfl

/-- A text in lower camel case is an identifier. -/
theorem isIdentifier_lowerCamelCase (s : String) : isIdentifier (lowerCamelCase s) = true := by
  rw [lowerCamelCase, isIdentifier, String.toList_ofList]
  refine isIdentChars_withIdentStart fun c hc => ?_
  exact isAlphanum_of_mem_camelCased
    (fun word hword d hd => isAlphanum_of_mem_alphanumericWords hword hd) hc

/-- The case name of a wire string is an identifier. -/
theorem isIdentifier_keyCaseName (wire : String) : isIdentifier (keyCaseName wire) = true := by
  unfold keyCaseName
  split
  · next h => exact h
  · exact isIdentifier_lowerCamelCase wire

/-! ## Rewriting twice -/

theorem keyCaseName_eq_self_iff {wire : String} :
    keyCaseName wire = wire ↔ isIdentifier wire = true := by
  constructor
  · intro h
    rw [← h]
    exact isIdentifier_keyCaseName wire
  · intro h
    rw [keyCaseName, if_pos h]

theorem ne_nil_of_mem_alphanumericWords {cs word : List Char}
    (hword : word ∈ alphanumericWords cs) : word ≠ [] := by
  induction cs generalizing word with
  | nil => cases hword
  | cons d rest ih =>
    unfold alphanumericWords at hword
    split at hword
    · split at hword
      · next first later hwords =>
        split at hword
        · rcases List.mem_cons.mp hword with rfl | hword
          · exact List.cons_ne_nil _ _
          · exact ih (hwords ▸ List.mem_cons_of_mem first hword)
        · rcases List.mem_cons.mp hword with rfl | hword
          · exact List.cons_ne_nil _ _
          · exact ih (hwords ▸ hword)
      · rcases List.mem_cons.mp hword with rfl | hword
        · exact List.cons_ne_nil _ _
        · exact ih hword
    · exact ih hword

/-- Letters and digits with nothing between them are one word. -/
theorem alphanumericWords_of_forall {c : Char} {rest : List Char}
    (h : ∀ d ∈ c :: rest, d.isAlphanum = true) :
    alphanumericWords (c :: rest) = [c :: rest] := by
  induction rest generalizing c with
  | nil =>
    rw [alphanumericWords.eq_def]
    exact if_pos (h c List.mem_cons_self)
  | cons d later ih =>
    have hlater := ih fun e he => h e (List.mem_cons_of_mem c he)
    rw [alphanumericWords.eq_def]
    dsimp only
    rw [if_pos (h c List.mem_cons_self), hlater]
    exact if_pos (h d (List.mem_cons_of_mem c List.mem_cons_self))

/-- The underscore at the front belongs to no word. -/
theorem alphanumericWords_withIdentStart (cs : List Char) :
    alphanumericWords (withIdentStart cs) = alphanumericWords cs := by
  have hunderscore (ds : List Char) : alphanumericWords ('_' :: ds) = alphanumericWords ds := by
    rw [alphanumericWords.eq_def]
    exact if_neg (by decide)
  cases cs with
  | nil => exact hunderscore []
  | cons c rest =>
    rw [withIdentStart]
    split
    · exact hunderscore (c :: rest)
    · rfl

theorem toLower_toLower_of_isAlphanum {c : Char} (h : c.isAlphanum = true) :
    c.toLower.toLower = c.toLower := by
  have hascii : ∀ n < 128, (Char.ofNat n).toLower.toLower = (Char.ofNat n).toLower := by decide
  have hchar := hascii c.toNat (toNat_lt_of_isAlphanum h)
  rwa [Char.ofNat_toNat] at hchar

/-- What is in lower camel case starts in lower case already. -/
theorem decapitalized_camelCased (cs : List Char) :
    decapitalized (camelCased (alphanumericWords cs)) = camelCased (alphanumericWords cs) := by
  cases hwords : alphanumericWords cs with
  | nil => rfl
  | cons first later =>
    have hfirst : first ∈ alphanumericWords cs := hwords ▸ List.mem_cons_self
    obtain ⟨c, rest, rfl⟩ := List.exists_cons_of_ne_nil (ne_nil_of_mem_alphanumericWords hfirst)
    have hc := isAlphanum_of_mem_alphanumericWords hfirst List.mem_cons_self
    simp only [camelCased, decapitalized, List.cons_append, toLower_toLower_of_isAlphanum hc]

/-- Running the words of a text together leaves one word, which stays as it is. -/
theorem camelCased_alphanumericWords_camelCased (cs : List Char) :
    camelCased (alphanumericWords (camelCased (alphanumericWords cs))) =
      camelCased (alphanumericWords cs) := by
  have hlower := decapitalized_camelCased cs
  have halphanum : ∀ c ∈ camelCased (alphanumericWords cs), c.isAlphanum = true := fun c hc =>
    isAlphanum_of_mem_camelCased
      (fun word hword d hd => isAlphanum_of_mem_alphanumericWords hword hd) hc
  generalize camelCased (alphanumericWords cs) = joined at hlower halphanum
  cases joined with
  | nil => rfl
  | cons c rest =>
    rw [alphanumericWords_of_forall halphanum]
    rw [camelCased, List.map_nil, List.flatten_nil, List.append_nil, hlower]

theorem lowerCamelCase_lowerCamelCase (s : String) :
    lowerCamelCase (lowerCamelCase s) = lowerCamelCase s := by
  rw [lowerCamelCase, lowerCamelCase, String.toList_ofList, alphanumericWords_withIdentStart,
    camelCased_alphanumericWords_camelCased]

/-- The case name of a wire string can be used as it is: it is an identifier, it is the string
itself exactly if that is one, and it is its own case name. So it is with lower camel case. -/
theorem keyCaseName_settles (wire : String) :
    isIdentifier (keyCaseName wire) = true ∧
      (keyCaseName wire = wire ↔ isIdentifier wire = true) ∧
      keyCaseName (keyCaseName wire) = keyCaseName wire ∧
      isIdentifier (lowerCamelCase wire) = true ∧
      lowerCamelCase (lowerCamelCase wire) = lowerCamelCase wire :=
  ⟨isIdentifier_keyCaseName wire, keyCaseName_eq_self_iff,
    keyCaseName_eq_self_iff.mpr (isIdentifier_keyCaseName wire),
    isIdentifier_lowerCamelCase wire, lowerCamelCase_lowerCamelCase wire⟩

end WireSchema.Text
