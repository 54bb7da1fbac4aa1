import Mathlib.Data.List.Forall2
import WireSchema.Proofs.Extraction.Arms

/-!
# Words and literals in generated code

The searches for evidence look for a few words in a row. Names and types of a schema
stand between such words in generated code, so what matters is what they cannot be: a
name is no symbol, and a type holds no literal.
-/

namespace WireSchema.Extraction

open Swift
open Text (isIdentifier)

/-! ## Words in a row -/

theorem passWords?_append_cons {words : List String} {a : List Token} {token : Token}
    (h : ∀ word ∈ words, token.isWord word = false) (b : List Token) :
    (passWords? words (a ++ token :: b)).isSome = (passWords? words a).isSome := by
  induction words generalizing a with
  | nil => rfl
  | cons word words ih =>
    cases a with
    | nil =>
      have hword := h word List.mem_cons_self
      simp [passWords?, hword]
    | cons first later =>
      rw [List.cons_append, passWords?, passWords?]
      split
      · exact ih fun next hnext => h next (List.mem_cons_of_mem _ hnext)
      · rfl

theorem containsWords_nil (word : String) (words : List String) :
    containsWords (word :: words) [] = false := rfl

theorem containsWords_cons (words : List String) (token : Token) (rest : List Token) :
    containsWords words (token :: rest) =
      ((passWords? words (token :: rest)).isSome || containsWords words rest) := by
  rw [containsWords, containsWords, firstShape?, Option.isSome_or]

/-- A token that does not begin the words is passed over. -/
theorem containsWords_cons_of_not {word : String} {words : List String} {token : Token}
    (h : token.isWord word = false) (rest : List Token) :
    containsWords (word :: words) (token :: rest) = containsWords (word :: words) rest := by
  rw [containsWords_cons, passWords?, h]
  rfl

/-- Words in a row stand on one side of a token that is none of them. -/
theorem containsWords_append_cons {word : String} {words : List String} {token : Token}
    (h : ∀ other ∈ word :: words, token.isWord other = false) (a b : List Token) :
    containsWords (word :: words) (a ++ token :: b) =
      (containsWords (word :: words) a || containsWords (word :: words) b) := by
  induction a with
  | nil => exact containsWords_cons_of_not (h word List.mem_cons_self) b
  | cons first later ih =>
    have hpass := passWords?_append_cons (a := first :: later) h b
    rw [List.cons_append] at hpass
    rw [List.cons_append, containsWords_cons, containsWords_cons, hpass, ih, Bool.or_assoc]

/-- The words come next somewhere. -/
theorem containsWords_append {words : List String} {b : List Token}
    (h : (passWords? words b).isSome = true) (a : List Token) :
    containsWords words (a ++ b) = true := by
  induction a with
  | nil =>
    cases b with
    | nil => exact h
    | cons token rest => rw [List.nil_append, containsWords_cons, h, Bool.true_or]
  | cons first later ih => rw [List.cons_append, containsWords_cons, ih, Bool.or_true]

/-- The words come next if the first tokens are they. -/
theorem isSome_passWords?_iff {words : List String} {tokens : List Token} :
    (passWords? words tokens).isSome = true ↔
      ∃ found, found <+: tokens ∧ List.Forall₂ (fun word token => token.isWord word = true) words found := by
  induction words generalizing tokens with
  | nil => exact ⟨fun _ => ⟨[], List.nil_prefix, .nil⟩, fun _ => rfl⟩
  | cons word words ih =>
    cases tokens with
    | nil =>
      refine ⟨nofun, fun ⟨found, hfound, hmatch⟩ => ?_⟩
      rw [List.prefix_nil.mp hfound] at hmatch
      cases hmatch
    | cons token rest =>
      rw [passWords?]
      constructor
      · intro hsome
        by_cases hword : token.isWord word = true
        · rw [if_pos hword] at hsome
          obtain ⟨found, hfound, hmatch⟩ := ih.mp hsome
          exact ⟨token :: found, (List.prefix_cons_inj token).mpr hfound, .cons hword hmatch⟩
        · rw [if_neg hword] at hsome
          cases hsome
      · rintro ⟨found, hfound, hmatch⟩
        cases hmatch with
        | cons hword hmatch =>
          obtain ⟨rfl, hlater⟩ := List.cons_prefix_cons.mp hfound
          rw [if_pos hword]
          exact ih.mpr ⟨_, hlater, hmatch⟩

/-- Words are in the tokens if a part of these are they. -/
theorem containsWords_iff {words : List String} {tokens : List Token} :
    containsWords words tokens = true ↔
      ∃ found, found <:+: tokens ∧ List.Forall₂ (fun word token => token.isWord word = true) words found := by
  induction tokens with
  | nil =>
    have hnil : containsWords words [] = (passWords? words []).isSome := rfl
    rw [hnil, isSome_passWords?_iff]
    simp only [List.prefix_nil, List.infix_nil]
  | cons token rest ih =>
    rw [containsWords_cons, Bool.or_eq_true, isSome_passWords?_iff, ih]
    simp only [List.infix_cons_iff]
    constructor
    · rintro (⟨found, hfound, hmatch⟩ | ⟨found, hfound, hmatch⟩)
      · exact ⟨found, .inl hfound, hmatch⟩
      · exact ⟨found, .inr hfound, hmatch⟩
    · rintro ⟨found, hfound | hfound, hmatch⟩
      · exact .inl ⟨found, hfound, hmatch⟩
      · exact .inr ⟨found, hfound, hmatch⟩

/-! ## Missing words -/

def lacks (word : String) (faces : List Face) : Bool :=
  faces.all fun face => !face.isWord word

theorem lacks_append (word : String) (fs gs : List Face) :
    lacks word (fs ++ gs) = (lacks word fs && lacks word gs) :=
  List.all_append

theorem lacks_word {name word : String} (hname : isIdentifier name = true)
    (hword : isIdentifier word = false) (faces : List Face) :
    lacks word (.word name :: faces) = lacks word faces := by
  rw [lacks, List.all_cons, Face.isWord_word_of_isIdentifier hname hword]
  rfl

theorem passWords?_of_lacks {words : List String} {word : String} (hword : word ∈ words)
    {faces : List Face} (h : lacks word faces = true) : passWords? words (placed faces) = none := by
  induction words generalizing faces with
  | nil => cases hword
  | cons first words ih =>
    cases faces with
    | nil => rfl
    | cons face later =>
      obtain ⟨hface, hlater⟩ := (Bool.and_eq_true _ _).mp h
      rw [placed_cons, passWords?, Face.isWord_token]
      rcases List.mem_cons.mp hword with rfl | hwords
      · rw [if_neg (by simpa using hface)]
      · split
        · exact ih hwords hlater
        · rfl

/-- Words in a row are missing where one of them is. -/
theorem containsWords_of_lacks {words : List String} {word : String} (hword : word ∈ words)
    {faces : List Face} (h : lacks word faces = true) :
    containsWords words (placed faces) = false := by
  induction faces with
  | nil =>
    have hnone := passWords?_of_lacks hword h
    rw [containsWords, placed, List.map_nil, firstShape?]
    rw [placed, List.map_nil] at hnone
    rw [hnone]
    rfl
  | cons face later ih =>
    have hnone := passWords?_of_lacks hword h
    rw [placed_cons] at hnone
    rw [placed_cons, containsWords_cons, hnone, ih ((Bool.and_eq_true _ _).mp h).2]
    rfl

theorem isWord_of_lacks {word : String} {faces : List Face} (h : lacks word faces = true) :
    ∀ token ∈ placed faces, token.isWord word = false := by
  intro token htoken
  obtain ⟨face, hface, rfl⟩ := List.mem_map.mp htoken
  simpa using List.all_eq_true.mp h face hface

/-- A token that does not begin the words is passed over, and so are any number of them. -/
theorem containsWords_append_of_lacks {word : String} (words : List String) {front : List Face}
    (h : lacks word front = true) (rest : List Token) :
    containsWords (word :: words) (placed front ++ rest) = containsWords (word :: words) rest := by
  induction front with
  | nil => rfl
  | cons face later ih =>
    obtain ⟨hface, hlater⟩ := (Bool.and_eq_true _ _).mp h
    rw [placed_cons, List.cons_append, containsWords_cons_of_not (by simpa using hface), ih hlater]

/-- What comes after words is found only where the words are. -/
theorem firstShape?_of_containsWords {α : Type} {words : List String} {read? : List Token → Option α}
    {tokens : List Token} (h : containsWords words tokens = false) :
    firstShape? (fun tokens => (passWords? words tokens).bind read?) tokens = none := by
  induction tokens with
  | nil =>
    have hnone : passWords? words [] = none := by
      simpa [containsWords, firstShape?] using h
    rw [firstShape?, hnone]
    rfl
  | cons token later ih =>
    rw [containsWords_cons, Bool.or_eq_false_iff] at h
    have hnone : passWords? words (token :: later) = none :=
      Option.not_isSome_iff_eq_none.mp (by simp [h.1])
    rw [firstShape?, hnone, Option.bind_none, Option.none_or, ih h.2]

theorem assignedCase?_of_lacks {faces : List Face} (h : lacks "=" faces = true) :
    assignedCase? (placed faces) = none :=
  firstShape?_of_containsWords (containsWords_of_lacks (by decide) h)

theorem lacks_comma_typeFaces {t : TypeExpr} (h : IsWritable t) :
    lacks "," (typeFaces t) = true := by
  have hcomma : isIdentifier "," = false := by decide
  induction t with
  | primitive p => exact lacks_word (isIdentifier_primitiveText p) hcomma []
  | list t ih =>
    have hlist : lacks "," (typeFaces (.list t)) = lacks "," (typeFaces t ++ [.symbol "]"]) := rfl
    rw [hlist, lacks_append, ih h]
    rfl
  | map key value ihkey ihvalue =>
    have hmap : lacks "," (typeFaces (.map key value)) =
        lacks "," ((typeFaces key ++ .symbol ":" :: typeFaces value) ++ [.symbol "]"]) := rfl
    have hvalue : lacks "," (.symbol ":" :: typeFaces value) = lacks "," (typeFaces value) := rfl
    rw [hmap, lacks_append, lacks_append, hvalue, ihkey h.1, ihvalue h.2]
    rfl
  | optional t ih =>
    rw [typeFaces, lacks_append, ih h.1]
    rfl
  | custom name =>
    have hparts : ∀ parts : List (List Char), (∀ part ∈ parts, Text.isIdentChars part = true) →
        lacks "," (dottedFaces parts) = true := by
      intro parts hidentifiers
      fun_induction dottedFaces parts with
      | case1 => rfl
      | case2 part =>
        exact lacks_word (isIdentifier_ofList (hidentifiers part List.mem_cons_self)) hcomma []
      | case3 part more _ ih =>
        have hmore := ih fun next hnext => hidentifiers next (List.mem_cons_of_mem part hnext)
        have hpart := isIdentifier_ofList (hidentifiers part List.mem_cons_self)
        rw [lacks_word hpart hcomma]
        exact hmore
    exact hparts _ h

/-! ## Literals -/

def literalsIn (faces : List Face) : List Face :=
  faces.filter fun face => face.1 == .string

theorem literalsIn_append (fs gs : List Face) :
    literalsIn (fs ++ gs) = literalsIn fs ++ literalsIn gs :=
  List.filter_append ..

theorem filter_kind_placed (faces : List Face) :
    ((placed faces).filter fun token => token.kind == .string) = placed (literalsIn faces) :=
  List.filter_map

theorem literalsIn_commaFaces {items : List (List Face)} (h : ∀ item ∈ items, literalsIn item = []) :
    literalsIn (commaFaces items) = [] := by
  fun_induction commaFaces items with
  | case1 => rfl
  | case2 item => exact h item List.mem_cons_self
  | case3 item later hlater ih =>
    have hmore := ih fun next hnext => h next (List.mem_cons_of_mem item hnext)
    rw [literalsIn_append, h item List.mem_cons_self]
    exact hmore

theorem literalsIn_dottedFaces (parts : List (List Char)) :
    literalsIn (dottedFaces parts) = [] := by
  fun_induction dottedFaces parts with
  | case1 => rfl
  | case2 part => rfl
  | case3 part more _ ih => exact ih

theorem literalsIn_typeFaces (t : TypeExpr) : literalsIn (typeFaces t) = [] := by
  induction t with
  | primitive p => rfl
  | list t ih =>
    have hlist : literalsIn (typeFaces (.list t)) = literalsIn (typeFaces t) ++ [] :=
      literalsIn_append _ _
    rw [hlist, ih, List.append_nil]
  | map key value ihkey ihvalue =>
    have hmap : literalsIn (typeFaces (.map key value)) =
        literalsIn ((typeFaces key ++ .symbol ":" :: typeFaces value) ++ [.symbol "]"]) := rfl
    have hvalue : literalsIn (.symbol ":" :: typeFaces value) = literalsIn (typeFaces value) := rfl
    rw [hmap, literalsIn_append, literalsIn_append, hvalue, ihkey, ihvalue]
    rfl
  | optional t ih =>
    rw [typeFaces, literalsIn_append, ih]
    rfl
  | custom name => exact literalsIn_dottedFaces _

end WireSchema.Extraction
