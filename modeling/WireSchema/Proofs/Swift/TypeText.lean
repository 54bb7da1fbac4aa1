import WireSchema.Proofs.Swift.PlainType
import WireSchema.Proofs.Text.Blank
import WireSchema.Swift.Parser.TypeText

/-!
# The parts of types in the parser

How the parser reads the parts that types are made of, names with dots and what stands in
brackets, and the text that it makes of their tokens.
-/

namespace WireSchema.Swift

open Outcome (bind_eq_ok_iff)
open Text (isIdentStart isIdentRest isIdentChars isIdentifier isBlank)

/-! ## The tokens of a type -/

def endsType (token : Token) : Bool :=
  !(isTypeMark token || isEffect token || token.isWord "->" || token.isWord "&" ||
    token.isWord "." || token.isWord "<")

/-- What follows a type that has ended. -/
theorem endsType_eq {token : Token} (h : endsType token = true) :
    isTypeMark token = false ∧ isEffect token = false ∧ token.isWord "->" = false ∧
      token.isWord "&" = false ∧ token.isWord "." = false ∧ token.isWord "<" = false := by
  simpa [endsType, and_assoc] using h

def endsTypeName (token : Token) : Bool :=
  !(token.isWord "." || token.isWord "<")

theorem readTypePath_nil {tokens : List Token} (h : tokens.head?.all endsTypeName = true) :
    readTypePath tokens = .ok ([], tokens) := by
  rw [readTypePath_eq]
  cases tokens with
  | nil => rfl
  | cons token rest =>
    obtain ⟨hdot, hopen⟩ : token.isWord "." = false ∧ token.isWord "<" = false := by
      simpa [endsTypeName] using h
    have harguments : readTypeArguments (token :: rest) = .ok ([], token :: rest) := by
      simp [readTypeArguments, wordNext, comesNext, hopen]
      rfl
    have hmember : splitMember? (token :: rest) = none := by
      unfold splitMember?
      split
      · next heq => cases heq; simp [hdot]
      · rfl
    refine bind_eq_ok_iff.mpr ⟨_, harguments, ?_⟩
    dsimp only
    rw [hmember]
    rfl

theorem dottedFaces_cons (part : List Char) (parts : List (List Char)) :
    ∃ later, dottedFaces (part :: parts) = .word (String.ofList part) :: later := by
  cases parts with
  | nil => exact ⟨[], rfl⟩
  | cons => exact ⟨_, rfl⟩

/-- The parts of a name after the first are read one by one. -/
theorem readTypePath_dotted {part : List Char} {parts : List (List Char)} {at_ : Position}
    {tokens rest : List Token}
    (htokens : ((Face.word (String.ofList part)).token at_ :: tokens).map Token.face =
      dottedFaces (part :: parts))
    (hrest : rest.head?.all endsTypeName = true) :
    readTypePath (tokens ++ rest) = .ok (tokens, rest) := by
  induction parts generalizing part at_ tokens with
  | nil =>
    cases List.map_eq_nil_iff.mp (List.cons.inj htokens).2
    exact readTypePath_nil hrest
  | cons next parts ih =>
    obtain ⟨dotAt, afterDot, rfl, htail⟩ := map_face_eq_cons.mp (List.cons.inj htokens).2
    obtain ⟨later, hlater⟩ := dottedFaces_cons next parts
    rw [hlater] at htail
    obtain ⟨partAt, tokens, rfl, hmore⟩ := map_face_eq_cons.mp htail
    have htokens' : ((Face.word (String.ofList next)).token partAt :: tokens).map Token.face =
        dottedFaces (next :: parts) := by
      rw [hlater, List.map_cons, hmore, Face.face_token]
    rw [readTypePath_eq]
    refine bind_eq_ok_iff.mpr ⟨([], _), rfl, ?_⟩
    exact bind_eq_ok_iff.mpr ⟨_, ih htokens', rfl⟩

theorem splitQualifiers_bracket (at_ : Position) (rest : List Token) :
    splitQualifiers ((Face.symbol "[").token at_ :: rest) =
      ([], (Face.symbol "[").token at_ :: rest) := by
  cases rest with
  | nil => rfl
  | cons next rest => rfl

/-- Is the token one that a word in front of a type may stand before? -/
def startsType (token : Token) : Bool :=
  token.isIdentifier || token.isWord "[" || token.isWord "("

theorem splitQualifiers_word {name : String} {rest : List Token} (at_ : Position)
    (hname : isIdentifier name = true)
    (h : name ∉ typePrefixes ∨ rest.head?.any startsType = false) :
    splitQualifiers ((Face.word name).token at_ :: rest) =
      ([], (Face.word name).token at_ :: rest) := by
  cases rest with
  | nil => rfl
  | cons next rest =>
    have hat : (Face.word name).isWord "@" = false :=
      Face.isWord_word_of_isIdentifier hname (by decide)
    rw [splitQualifiers, Face.isWord_token, hat, Bool.false_and, if_neg (by simp), if_neg]
    rcases h with h | h
    · simp [Face.word, h]
    · have hnext : startsType next = false := h
      rw [startsType] at hnext
      simp [hnext]

theorem map_face_bracketed {tokens : List Token} {first last : Face} {faces : List Face}
    (h : tokens.map Token.face = first :: (faces ++ [last])) :
    ∃ firstAt inner lastAt, tokens = first.token firstAt :: (inner ++ [last.token lastAt]) ∧
      inner.map Token.face = faces := by
  obtain ⟨firstAt, rest, rfl, hrest⟩ := map_face_eq_cons.mp h
  obtain ⟨inner, lastAt, rfl, hinner⟩ := map_face_eq_concat hrest
  exact ⟨firstAt, inner, lastAt, rfl, hinner⟩

theorem readTypeCore_bracketed {tokens rest : List Token} {faces : List Face}
    (htokens : tokens.map Token.face = .symbol "[" :: (faces ++ [.symbol "]"]))
    (hfaces : Balanced "[" "]" faces) : readTypeCore (tokens ++ rest) = .ok (tokens, rest) := by
  obtain ⟨firstAt, inner, lastAt, rfl, hinner⟩ := map_face_bracketed htokens
  rw [← hinner] at hfaces
  have hgroup : readGroup "[" "]" ((Face.symbol "[").token firstAt ::
      (inner ++ (Face.symbol "]").token lastAt :: rest)) = .ok (⟨_, inner, _⟩, rest) :=
    readGroup_balanced rfl rfl rfl hfaces rest
  rw [List.cons_append, List.append_assoc, List.singleton_append, readTypeCore, if_pos (by rfl)]
  exact bind_eq_ok_iff.mpr ⟨_, hgroup, rfl⟩

theorem readTypeCore_word {name : String} {at_ : Position} {tokens tokens' rest : List Token}
    (hname : isIdentifier name = true) (hpath : readTypePath tokens = .ok (tokens', rest)) :
    readTypeCore ((Face.word name).token at_ :: tokens) =
      .ok ((Face.word name).token at_ :: tokens', rest) := by
  have hbracket : (Face.word name).isWord "[" = false :=
    Face.isWord_word_of_isIdentifier hname (by decide)
  have hparen : (Face.word name).isWord "(" = false :=
    Face.isWord_word_of_isIdentifier hname (by decide)
  rw [readTypeCore, Face.isWord_token, Face.isWord_token, hbracket, hparen, if_neg (by simp),
    if_neg (by simp), if_pos (by rfl)]
  exact bind_eq_ok_iff.mpr ⟨_, hpath, rfl⟩

/-- Is no word in front of the type, not even if its own name is such a word? -/
def StartsPlainly (t : TypeExpr) (rest : List Token) : Prop :=
  (∀ name, t = .custom name → name ∉ typePrefixes) ∨ rest.head?.any startsType = false

/-- Writable types that are no word in front of another type, so anything may come after
them. -/
structure StandsAlone (t : TypeExpr) : Prop where
  writable : IsWritable t
  noPrefix : ∀ name, t = .custom name → name ∉ typePrefixes

theorem standsAlone_primitive (p : Primitive) : StandsAlone (.primitive p) :=
  ⟨trivial, by rintro _ ⟨⟩⟩

theorem standsAlone_custom {name : String} (h : IsDotted name.toList) (hname : name ∉ typePrefixes) :
    StandsAlone (.custom name) :=
  ⟨h, by rintro _ ⟨⟩; exact hname⟩

/-! ## The text that the parser makes -/

theorem typeRunChars_cons (token : Token) {rest : List Token}
    (h : rest.head?.any (spaceBetween token) = false) :
    typeRunChars (token :: rest) = typeTokenChars token ++ typeRunChars rest := by
  cases rest with
  | nil => simp [typeRunChars]
  | cons next later =>
    have hspace : spaceBetween token next = false := h
    rw [typeRunChars, hspace]
    simp

theorem typeTokenChars_word {name : String} (h : isIdentifier name = true) (at_ : Position) :
    typeTokenChars ((Face.word name).token at_) = name.toList := by
  have harrow : (Face.word name).isWord "->" = false :=
    Face.isWord_word_of_isIdentifier h (by decide)
  have hand : (Face.word name).isWord "&" = false :=
    Face.isWord_word_of_isIdentifier h (by decide)
  rw [typeTokenChars, Face.isWord_token, Face.isWord_token, harrow, hand]
  rfl

theorem spaceBetween_word {name : String} (h : isIdentifier name = true) (at_ : Position)
    {next : Token} (hnext : next.isIdentifier = false) :
    spaceBetween ((Face.word name).token at_) next = false := by
  have hcolon : (Face.word name).isWord ":" = false :=
    Face.isWord_word_of_isIdentifier h (by decide)
  have hcomma : (Face.word name).isWord "," = false :=
    Face.isWord_word_of_isIdentifier h (by decide)
  simp [spaceBetween, hcolon, hcomma, hnext]

theorem typeRunChars_word {name : String} (h : isIdentifier name = true) (at_ : Position)
    {rest : List Token} (hrest : rest.head?.any Token.isIdentifier = false) :
    typeRunChars ((Face.word name).token at_ :: rest) = name.toList ++ typeRunChars rest := by
  rw [typeRunChars_cons, typeTokenChars_word h]
  cases rest with
  | nil => rfl
  | cons next later => exact spaceBetween_word h at_ hrest

def tightSymbols : List String :=
  ["[", "]", "(", ")", "<", ">", ".", "?", "!", "??"]

theorem typeRunChars_symbol {symbol : String} (h : symbol ∈ tightSymbols) (at_ : Position)
    (rest : List Token) :
    typeRunChars ((Face.symbol symbol).token at_ :: rest) =
      symbol.toList ++ typeRunChars rest := by
  simp only [tightSymbols, List.mem_cons, List.not_mem_nil, or_false] at h
  have hspace : ∀ next, spaceBetween ((Face.symbol symbol).token at_) next = false := by
    intro next
    rcases h with rfl | rfl | rfl | rfl | rfl | rfl | rfl | rfl | rfl | rfl
    all_goals rfl
  have hchars : typeTokenChars ((Face.symbol symbol).token at_) = symbol.toList := by
    rcases h with rfl | rfl | rfl | rfl | rfl | rfl | rfl | rfl | rfl | rfl
    all_goals rfl
  rw [typeRunChars_cons, hchars]
  cases rest with
  | nil => rfl
  | cons next later => exact hspace next

/-- Behind a colon and a comma stands a space. -/
theorem typeRunChars_separator {symbol : String} (h : symbol ∈ [":", ","]) (at_ : Position)
    {rest : List Token} (hrest : rest ≠ []) :
    typeRunChars ((Face.symbol symbol).token at_ :: rest) =
      symbol.toList ++ ' ' :: typeRunChars rest := by
  obtain ⟨next, later, rfl⟩ := List.exists_cons_of_ne_nil hrest
  simp only [List.mem_cons, List.not_mem_nil, or_false] at h
  have hspace : spaceBetween ((Face.symbol symbol).token at_) next = true := by
    rcases h with rfl | rfl
    all_goals rfl
  have hchars : typeTokenChars ((Face.symbol symbol).token at_) = symbol.toList := by
    rcases h with rfl | rfl
    all_goals rfl
  rw [typeRunChars, hspace, hchars, if_pos rfl, List.append_assoc, List.singleton_append]

theorem typeRunChars_dotted {parts : List (List Char)}
    (hparts : ∀ part ∈ parts, isIdentChars part = true) {tokens rest : List Token}
    (htokens : tokens.map Token.face = dottedFaces parts)
    (hrest : rest.head?.any Token.isIdentifier = false) :
    typeRunChars (tokens ++ rest) = ['.'].intercalate parts ++ typeRunChars rest := by
  fun_induction dottedFaces parts generalizing tokens with
  | case1 =>
    cases List.map_eq_nil_iff.mp htokens
    rfl
  | case2 part =>
    have hpart := isIdentifier_ofList (hparts part List.mem_cons_self)
    obtain ⟨at_, tail, rfl, htail⟩ := map_face_eq_cons.mp htokens
    cases List.map_eq_nil_iff.mp htail
    rw [List.singleton_append, typeRunChars_word hpart at_ hrest, String.toList_ofList,
      List.intercalate_singleton]
  | case3 part more hmore ih =>
    have hpart := isIdentifier_ofList (hparts part List.mem_cons_self)
    obtain ⟨at_, tail, rfl, htail⟩ := map_face_eq_cons.mp htokens
    obtain ⟨dotAt, tail, rfl, hmoreFaces⟩ := map_face_eq_cons.mp htail
    have hlater := ih (fun next hnext => hparts next (List.mem_cons_of_mem part hnext)) hmoreFaces
    obtain ⟨next, more, rfl⟩ := List.exists_cons_of_ne_nil hmore
    rw [List.cons_append, List.cons_append, typeRunChars_word hpart at_ rfl,
      typeRunChars_symbol (by decide), hlater, List.intercalate_cons_cons, String.toList_ofList]
    simp only [List.append_assoc]
    rfl

theorem isBlank_of_isIdentRest {c : Char} (h : isIdentRest c = true) : isBlank c = false := by
  have hpoints : ∀ n ∈ blankPoints, isIdentRest (Char.ofNat n) = false := by decide
  rw [Bool.eq_false_iff]
  intro hblank
  have hpoint := hpoints c.toNat (toNat_mem_blankPoints hblank)
  rw [Char.ofNat_toNat, h] at hpoint
  cases hpoint

theorem isBlank_of_mem_dotted {parts : List (List Char)}
    (hparts : ∀ part ∈ parts, isIdentChars part = true) :
    ∀ c ∈ ['.'].intercalate parts, isBlank c = false := by
  intro c hc
  rcases mem_dotted hparts hc with hname | rfl
  · exact isBlank_of_isIdentRest hname
  · decide

theorem IsDotted.isBlank_of_mem {name : List Char} (h : IsDotted name) :
    ∀ c ∈ name, isBlank c = false := by
  have hparts := isBlank_of_mem_dotted h
  rwa [List.intercalate_splitOn] at hparts

end WireSchema.Swift
