import WireSchema.Proofs.Swift.Outline
import WireSchema.Proofs.Swift.WrittenType

/-!
# Items of generated code

How the parser reads the items that generated code is made of: what stands in front
of them, cases, properties and functions.
-/

namespace WireSchema.Swift

open Outcome (bind_eq_ok_iff)
open Text (isIdentifier)

/-! ## What an item ends before -/

/-- The token that an item ends before is none of the words that could go on with it. -/
theorem isWord_of_startsItem {token : Token} (h : startsItem token.face = true) {text : String}
    (htext : text ∉ ["public", "case", "enum", "\x7d"]) : token.isWord text = false := by
  obtain ⟨kind, word, at_⟩ := token
  simp only [startsItem, Token.face, Bool.or_eq_true, List.contains_iff_mem, List.mem_cons,
    List.not_mem_nil, or_false, Face.word, Face.symbol, Prod.mk.injEq, beq_iff_eq] at h
  simp only [List.mem_cons, List.not_mem_nil, or_false, not_or] at htext
  obtain ⟨hpublic, hcase, henum, hclose⟩ := htext
  rcases h with rfl | ⟨rfl, rfl⟩ | ⟨rfl, rfl⟩ | ⟨rfl, rfl⟩ | ⟨rfl, rfl⟩
  · rfl
  · exact beq_false_of_ne (Ne.symm hpublic)
  · exact beq_false_of_ne (Ne.symm hcase)
  · exact beq_false_of_ne (Ne.symm henum)
  · exact beq_false_of_ne (Ne.symm hclose)

theorem StartsItem.exists_cons {tokens : List Token} (h : StartsItem tokens) :
    ∃ token later, tokens = token :: later ∧ startsItem token.face = true := by
  cases tokens with
  | nil => cases h
  | cons token later => exact ⟨token, later, rfl, h⟩

theorem StartsItem.passWord? {tokens : List Token} (h : StartsItem tokens) {text : String}
    (htext : text ∉ ["public", "case", "enum", "\x7d"]) : passWord? text tokens = none := by
  obtain ⟨token, later, rfl, htoken⟩ := h.exists_cons
  rw [Swift.passWord?, isWord_of_startsItem htoken htext]
  rfl

theorem StartsItem.wordNext {tokens : List Token} (h : StartsItem tokens) {text : String}
    (htext : text ∉ ["public", "case", "enum", "\x7d"]) : wordNext tokens text = false := by
  obtain ⟨token, later, rfl, htoken⟩ := h.exists_cons
  exact isWord_of_startsItem htoken htext

theorem endsType_of_startsItem {token : Token} (h : startsItem token.face = true) :
    endsType token = true := by
  have heffect : isEffect token = false := by
    obtain ⟨kind, word, at_⟩ := token
    simp only [startsItem, Token.face, Bool.or_eq_true, List.contains_iff_mem, List.mem_cons,
      List.not_mem_nil, or_false, Face.word, Face.symbol, Prod.mk.injEq, beq_iff_eq] at h
    rcases h with rfl | ⟨rfl, rfl⟩ | ⟨rfl, rfl⟩ | ⟨rfl, rfl⟩ | ⟨rfl, rfl⟩
    all_goals rfl
  have hword : ∀ text ∈ ["?", "!", "...", "->", "&", ".", "<"], token.isWord text = false := by
    intro text htext
    refine isWord_of_startsItem h ?_
    revert text
    decide
  simp [endsType, isTypeMark, heffect, hword]

theorem StartsItem.all_endsType {tokens : List Token} (h : StartsItem tokens) :
    tokens.head?.all endsType = true := by
  obtain ⟨token, later, rfl, htoken⟩ := h.exists_cons
  exact endsType_of_startsItem htoken

/-! ## In front of an item -/

/-- Words that stand in front of no declaration and are no modifier of one. -/
theorem readHeading_word {name : String} (at_ : Position) (rest : List Token)
    (hname : name ∉ "class" :: modifiers) (hat : name ≠ "@") :
    readHeading ((Face.word name).token at_ :: rest) =
      .ok (.empty, (Face.word name).token at_ :: rest) := by
  have hpart : readHeadingPart? ((Face.word name).token at_ :: rest) = .ok none := by
    obtain ⟨hclass, hmodifier⟩ := not_or.mp (fun h => hname (List.mem_cons.mpr h))
    have hclass' : (Face.word name).isWord "class" = false := beq_false_of_ne hclass
    have hat' : (Face.word name).isWord "@" = false := beq_false_of_ne hat
    rw [readHeadingPart?, if_neg (by simp [Face.word]), if_neg (by simp [hat']),
      if_neg (by simp [Face.word, hmodifier]), if_neg (by simp [hclass'])]
    rfl
  rw [readHeading_eq]
  exact bind_eq_ok_iff.mpr ⟨_, hpart, rfl⟩

/-- The comments in front of an item. -/
theorem readHeading_docs {docs : List String} {tokens rest rest' : List Token} {heading : Heading}
    (htokens : tokens.map Token.face = docs.map Face.doc)
    (hrest : readHeading rest = .ok (heading, rest')) :
    readHeading (tokens ++ rest) =
      .ok ({ heading with docs := docs ++ heading.docs }, rest') := by
  induction docs generalizing tokens with
  | nil =>
    cases List.map_eq_nil_iff.mp htokens
    exact hrest
  | cons doc docs ih =>
    obtain ⟨at_, later, rfl, hlater⟩ := map_face_eq_cons.mp htokens
    have hpart : readHeadingPart? ((Face.doc doc).token at_ :: (later ++ rest)) =
        .ok (some (.doc doc, later ++ rest)) := rfl
    rw [List.cons_append, readHeading_eq]
    refine bind_eq_ok_iff.mpr ⟨_, hpart, ?_⟩
    exact bind_eq_ok_iff.mpr ⟨_, ih hlater, rfl⟩

theorem readHeading_public (at_ : Position) {rest rest' : List Token} {heading : Heading}
    (hparen : wordNext rest "(" = false) (hrest : readHeading rest = .ok (heading, rest')) :
    readHeading ((Face.word "public").token at_ :: rest) = .ok (heading, rest') := by
  have hargument : dropModifierArgument rest = rest := by
    unfold dropModifierArgument
    split
    · next first second third later =>
      have hfirst : first.isWord "(" = false := hparen
      rw [hfirst, Bool.false_and, Bool.false_and, if_neg (by simp)]
    · rfl
  have hpart : readHeadingPart? ((Face.word "public").token at_ :: rest) =
      .ok (some (.modifier false, rest)) := by
    show Except.ok (some (HeadingPart.modifier false, dropModifierArgument rest)) = _
    rw [hargument]
  rw [readHeading_eq]
  refine bind_eq_ok_iff.mpr ⟨_, hpart, ?_⟩
  refine bind_eq_ok_iff.mpr ⟨_, hrest, ?_⟩
  dsimp only
  rw [Heading.withPart, Bool.false_or]
  rfl

/-! ## Lists -/

def commaFaces : List (List Face) → List Face
  | [] => []
  | [item] => item
  | item :: later => item ++ .symbol "," :: commaFaces later

/-- Items are read one by one if each is read before a comma. -/
theorem readList_commaFaces {α ι : Type} {read : Reader α} {advances : Advances read}
    {items : List ι} {faces : ι → List Face} {value : ι → α} {stop : Token → Bool}
    (hne : items ≠ [])
    (hread : ∀ item ∈ items, ∀ tokens rest, tokens.map Token.face = faces item →
      rest.head?.all stop = true → read (tokens ++ rest) = .ok (value item, rest))
    (hcomma : ∀ at_, stop ((Face.symbol ",").token at_) = true) {tokens rest : List Token}
    (htokens : tokens.map Token.face = commaFaces (items.map faces))
    (hrest : rest.head?.all stop = true) (hend : passWord? "," rest = none) :
    readList read advances (tokens ++ rest) = .ok (items.map value, rest) := by
  induction items generalizing tokens with
  | nil => exact absurd rfl hne
  | cons item later ih =>
    have hitem := hread item List.mem_cons_self
    rw [readList_eq]
    cases later with
    | nil =>
      refine bind_eq_ok_iff.mpr ⟨_, hitem tokens rest htokens hrest, ?_⟩
      dsimp only
      rw [hend]
      rfl
    | cons next later =>
      obtain ⟨first, tail, rfl, hfirst, htail⟩ := map_face_eq_append.mp htokens
      obtain ⟨at_, tail, rfl, hlater⟩ := map_face_eq_cons.mp htail
      have hmore := ih (List.cons_ne_nil _ _)
        (fun item hmem => hread item (List.mem_cons_of_mem _ hmem)) hlater
      rw [List.append_assoc, List.cons_append]
      refine bind_eq_ok_iff.mpr ⟨_, hitem first _ hfirst (hcomma at_), ?_⟩
      exact bind_eq_ok_iff.mpr ⟨_, hmore, rfl⟩

theorem readIdentifier_word (name : String) (at_ : Position) (rest : List Token) :
    readIdentifier ((Face.word name).token at_ :: rest) =
      .ok ((Face.word name).token at_, rest) := rfl

/-! ## Cases -/

/-- A value that a case carries: its label, if it has one, and its type. -/
abbrev CaseValue := Option String × TypeExpr

def valueFaces : CaseValue → List Face
  | (some label, t) => .word label :: .symbol ":" :: typeFaces t
  | (none, t) => typeFaces t

def payloadFaces (values : List CaseValue) : List Face :=
  if values.isEmpty then []
  else .symbol "(" :: (commaFaces (values.map valueFaces) ++ [.symbol ")"])

/-- The value as it is read; the wildcard labels nothing. -/
def associatedValue (value : CaseValue) : AssociatedValue :=
  ⟨value.1.filter (· != "_"), typeText value.2⟩

def IsWritableValue (value : CaseValue) : Prop :=
  IsWritable value.2 ∧ ∀ label ∈ value.1, isIdentifier label = true

/-- Does a value of a case end before this token? -/
def endsValue (token : Token) : Bool :=
  [Face.symbol ",", .symbol ")"].contains token.face

theorem eq_of_endsValue {token : Token} (h : endsValue token = true) :
    token = (Face.symbol ",").token token.position ∨
      token = (Face.symbol ")").token token.position := by
  obtain ⟨kind, text, at_⟩ := token
  simp only [endsValue, Token.face, List.contains_iff_mem, List.mem_cons, List.not_mem_nil,
    or_false, Face.symbol, Prod.mk.injEq] at h
  rcases h with ⟨rfl, rfl⟩ | ⟨rfl, rfl⟩
  · exact .inl rfl
  · exact .inr rfl

theorem endsType_of_endsValue {token : Token} (h : endsValue token = true) :
    endsType token = true ∧ startsType token = false ∧ token.isWord ":" = false ∧
      token.isWord "=" = false ∧ token.isIdentifier = false := by
  rcases eq_of_endsValue h with heq | heq
  · rw [heq]
    exact ⟨rfl, rfl, rfl, rfl, rfl⟩
  · rw [heq]
    exact ⟨rfl, rfl, rfl, rfl, rfl⟩

/-- A type without a label before it. -/
theorem splitLabel_typeFaces {t : TypeExpr} (h : IsWritable t) {tokens rest : List Token}
    (htokens : tokens.map Token.face = typeFaces t) (hrest : rest.head?.all endsValue = true) :
    splitLabel (tokens ++ rest) = (none, tokens ++ rest) := by
  obtain ⟨face, more, hfaces, hface⟩ := (typeTree t h).exists_faces_eq_cons
  rw [faces_typeTree] at hfaces
  obtain ⟨at_, later, rfl, rfl⟩ := map_face_eq_cons.mp (htokens.trans hfaces)
  rw [List.cons_append]
  cases hmore : later ++ rest with
  | nil => rfl
  | cons second more =>
    rcases hface with rfl | rfl | ⟨name, -, rfl, hfollows⟩
    · rfl
    · rfl
    · have hsecond : startsType second = false ∧ second.isWord ":" = false := by
        cases later with
        | nil =>
          rw [List.nil_append] at hmore
          rw [hmore] at hrest
          obtain ⟨-, hstart, hcolon, -⟩ := endsType_of_endsValue hrest
          exact ⟨hstart, hcolon⟩
        | cons next later =>
          cases hmore
          have hnext : second.face.followsName = true := hfollows
          exact Face.followsName_eq hnext second.position
      simp only [startsType, Bool.or_eq_false_iff] at hsecond
      rw [splitLabel, hsecond.2, hsecond.1.1.1]
      simp

/-- A value of a case is read up to the comma or the parenthesis after it. -/
theorem readAssociatedValue_valueFaces {value : CaseValue} (h : IsWritableValue value)
    {tokens rest : List Token} (htokens : tokens.map Token.face = valueFaces value)
    (hrest : rest.head?.all endsValue = true) :
    readAssociatedValue (tokens ++ rest) = .ok (associatedValue value, rest) := by
  obtain ⟨label, t⟩ := value
  have hends : rest.head?.all endsType = true ∧ StartsPlainly t rest ∧
      skipAssignment rest = (false, rest) := by
    cases rest with
    | nil => exact ⟨rfl, .inr rfl, rfl⟩
    | cons token rest =>
      obtain ⟨htype, hstart, -, hequals, -⟩ := endsType_of_endsValue hrest
      refine ⟨htype, .inr hstart, ?_⟩
      rw [skipAssignment, passWord?, hequals]
      rfl
  obtain ⟨htype, hstart, hassignment⟩ := hends
  cases label with
  | none =>
    unfold readAssociatedValue
    rw [splitLabel_typeFaces h.1 htokens hrest]
    refine bind_eq_ok_iff.mpr ⟨_, readTypeText_typeFaces h.1 htokens htype hstart, ?_⟩
    dsimp only
    rw [hassignment]
    rfl
  | some label =>
    obtain ⟨labelAt, tail, rfl, htail⟩ := map_face_eq_cons.mp htokens
    obtain ⟨colonAt, typeTokens, rfl, htype'⟩ := map_face_eq_cons.mp htail
    have hsplit : splitLabel ((Face.word label).token labelAt ::
        (Face.symbol ":").token colonAt :: (typeTokens ++ rest)) =
          (some label, typeTokens ++ rest) := rfl
    unfold readAssociatedValue
    rw [List.cons_append, List.cons_append, hsplit]
    refine bind_eq_ok_iff.mpr ⟨_, readTypeText_typeFaces h.1 htype' htype hstart, ?_⟩
    dsimp only
    rw [hassignment]
    rfl

theorem passWord?_append {tokens : List Token} {face : Face} {faces : List Face} {text : String}
    (htokens : tokens.map Token.face = face :: faces) (hface : face.isWord text = false)
    (rest : List Token) : passWord? text (tokens ++ rest) = none := by
  obtain ⟨at_, later, rfl, -⟩ := map_face_eq_cons.mp htokens
  rw [List.cons_append, passWord?, Face.isWord_token, hface]
  rfl

/-- A value of a case does not start with a closing parenthesis. -/
theorem exists_cons_valueFaces {value : CaseValue} (h : IsWritableValue value) :
    ∃ face later, valueFaces value = face :: later ∧ face.isWord ")" = false := by
  obtain ⟨label, t⟩ := value
  cases label with
  | none =>
    obtain ⟨face, more, hfaces, hface⟩ := (typeTree t h.1).exists_faces_eq_cons
    rw [faces_typeTree] at hfaces
    refine ⟨face, more, hfaces, ?_⟩
    rcases hface with rfl | rfl | ⟨name, hname, rfl, -⟩
    · rfl
    · rfl
    · exact Face.isWord_word_of_isIdentifier hname (by decide)
  | some label =>
    exact ⟨_, _, rfl, Face.isWord_word_of_isIdentifier (h.2 label rfl) (by decide)⟩

theorem exists_cons_commaFaces {first : List Face} {face : Face} {more : List Face}
    (hfirst : first = face :: more) (items : List (List Face)) :
    ∃ later, commaFaces (first :: items) = face :: later := by
  subst hfirst
  cases items with
  | nil => exact ⟨more, rfl⟩
  | cons next items => exact ⟨_, rfl⟩

/-- The values of a case are read whatever comes after them, unless there are none. -/
theorem readPayload_payloadFaces {values : List CaseValue}
    (h : ∀ value ∈ values, IsWritableValue value) {tokens rest : List Token}
    (htokens : tokens.map Token.face = payloadFaces values)
    (hrest : passWord? "(" rest = none) :
    readPayload (tokens ++ rest) = .ok (values.map associatedValue, rest) := by
  cases values with
  | nil =>
    cases List.map_eq_nil_iff.mp htokens
    rw [List.nil_append, readPayload, hrest]
    rfl
  | cons value values =>
    have hfaces : tokens.map Token.face =
        .symbol "(" :: (commaFaces ((value :: values).map valueFaces) ++ [.symbol ")"]) := htokens
    obtain ⟨firstAt, inner, lastAt, rfl, hinner⟩ := map_face_bracketed hfaces
    have hlist : readList readAssociatedValue readAssociatedValue_advances
        (inner ++ (Face.symbol ")").token lastAt :: rest) =
          .ok ((value :: values).map associatedValue, (Face.symbol ")").token lastAt :: rest) :=
      readList_commaFaces (List.cons_ne_nil _ _)
        (fun item hitem tokens rest htokens hrest =>
          readAssociatedValue_valueFaces (h item hitem) htokens hrest)
        (fun _ => rfl) hinner rfl rfl
    obtain ⟨face, more, hvalue, hface⟩ := exists_cons_valueFaces (h value List.mem_cons_self)
    obtain ⟨later, hfirst⟩ := exists_cons_commaFaces hvalue (values.map valueFaces)
    have hopen := passWord?_append (hinner.trans hfirst) hface ((Face.symbol ")").token lastAt :: rest)
    rw [readPayload, List.cons_append, List.append_assoc, List.singleton_append]
    have hpass : passWord? "(" ((Face.symbol "(").token firstAt ::
        (inner ++ (Face.symbol ")").token lastAt :: rest)) = some _ := rfl
    rw [hpass]
    dsimp only
    rw [hopen]
    refine bind_eq_ok_iff.mpr ⟨_, hlist, ?_⟩
    exact bind_eq_ok_iff.mpr ⟨((Face.symbol ")").token lastAt, rest), rfl, rfl⟩

/-! ## Headings -/

/-- Comments, and the modifier of what is public. -/
def headingFaces (docs : List String) (isPublic : Bool) : List Face :=
  docs.map Face.doc ++ if isPublic then [.word "public"] else []

/-- What is read of a heading before a keyword. -/
theorem readHeading_headingFaces {docs : List String} {isPublic : Bool} {keyword : String}
    {more : List Face} {tokens : List Token}
    (htokens : tokens.map Token.face = headingFaces docs isPublic ++ .word keyword :: more)
    (hkeyword : keyword ∉ "class" :: "@" :: "(" :: modifiers) (rest : List Token) :
    ∃ at_ after, after.map Token.face = more ∧
      readHeading (tokens ++ rest) =
        .ok (⟨docs, [], false⟩, (Face.word keyword).token at_ :: (after ++ rest)) := by
  simp only [List.mem_cons, not_or] at hkeyword
  obtain ⟨hclass, hat, hparen, hmodifier⟩ := hkeyword
  have hword : keyword ∉ "class" :: modifiers := by simp [hclass, hmodifier]
  obtain ⟨front, tail, rfl, hfront, htail⟩ := map_face_eq_append.mp htokens
  obtain ⟨at_, after, rfl, hafter⟩ := map_face_eq_cons.mp htail
  refine ⟨at_, after, hafter, ?_⟩
  have hkeyword := readHeading_word at_ (after ++ rest) hword hat
  obtain ⟨comments, publics, rfl, hcomments, hpublics⟩ := map_face_eq_append.mp hfront
  have hpublic : readHeading (publics ++ (Face.word keyword).token at_ :: (after ++ rest)) =
      .ok (.empty, (Face.word keyword).token at_ :: (after ++ rest)) := by
    cases isPublic with
    | false =>
      cases List.map_eq_nil_iff.mp hpublics
      exact hkeyword
    | true =>
      obtain ⟨publicAt, tail, rfl, htail⟩ := map_face_eq_cons.mp hpublics
      cases List.map_eq_nil_iff.mp htail
      exact readHeading_public publicAt (beq_false_of_ne hparen) hkeyword
  have hdocs := readHeading_docs hcomments hpublic
  rw [Heading.empty, List.append_nil] at hdocs
  simpa using hdocs

/-- An item of a body is read after its heading. -/
theorem nextBodyItem_headingFaces {docs : List String} {isPublic : Bool} {keyword : String}
    {more : List Face} {tokens : List Token}
    (htokens : tokens.map Token.face = headingFaces docs isPublic ++ .word keyword :: more)
    (hkeyword : keyword ∉ "\x7d" :: "class" :: "@" :: "(" :: modifiers) (rest : List Token) :
    ∃ at_ after, after.map Token.face = more ∧
      nextBodyItem (tokens ++ rest) =
        readKeywordItem ⟨docs, [], false⟩ ((Face.word keyword).token at_) (after ++ rest) := by
  obtain ⟨hclose, hkeyword⟩ := not_or.mp fun h => hkeyword (List.mem_cons.mpr h)
  obtain ⟨at_, after, hafter, hheading⟩ := readHeading_headingFaces htokens hkeyword rest
  refine ⟨at_, after, hafter, ?_⟩
  have hclose' : (Face.word keyword).isWord "\x7d" = false := beq_false_of_ne hclose
  rw [nextBodyItem, hheading]
  show readBodyItem ⟨docs, [], false⟩ ((Face.word keyword).token at_) (after ++ rest) = _
  rw [readBodyItem, Face.isWord_token, hclose', if_neg (by simp), if_pos (by rfl)]

theorem head?_headingFaces_startsItem {docs : List String} {isPublic : Bool} {keyword : Face}
    (hstart : isPublic = true ∨ startsItem keyword = true) (more : List Face) :
    (headingFaces docs isPublic ++ keyword :: more).head?.any startsItem = true := by
  cases docs with
  | cons doc docs => rfl
  | nil =>
    cases isPublic with
    | true => rfl
    | false => exact hstart.resolve_left (by simp)

/-! ## Cases as items -/

def caseFaces (docs : List String) (name : String) (values : List CaseValue)
    (raw : Option String) : List Face :=
  headingFaces docs false ++ .word "case" :: .word name ::
    (payloadFaces values ++ raw.toList.flatMap fun text => [.symbol "=", .quoted text])

/-- The case that they are read as. -/
def enumCase (docs : List String) (name : String) (values : List CaseValue)
    (raw : Option String) : EnumCase :=
  { name, position := .start, docs, rawValue := raw.map .string
    associated := values.map associatedValue }

theorem splitRawValue_quoted (text : String) (equalsAt at_ : Position) (rest : List Token) :
    splitRawValue ((Face.symbol "=").token equalsAt :: (Face.quoted text).token at_ :: rest) =
      (some (.string text), rest) := by
  show (some (RawLiteral.string (stringValue (stringLiteral text))), rest) = _
  rw [stringValue_stringLiteral]

theorem readCase_caseFaces {docs : List String} {name : String} {values : List CaseValue}
    {raw : Option String} (hvalues : ∀ value ∈ values, IsWritableValue value) {tokens rest : List Token}
    (htokens : tokens.map Token.face = .word name ::
      (payloadFaces values ++ raw.toList.flatMap fun text => [.symbol "=", .quoted text]))
    (hrest : StartsItem rest) :
    ∃ at_, readCase docs (tokens ++ rest) =
      .ok ({ enumCase docs name values raw with position := at_ }, rest) := by
  obtain ⟨at_, tail, rfl, htail⟩ := map_face_eq_cons.mp htokens
  obtain ⟨payload, rawTokens, rfl, hpayload, hraw⟩ := map_face_eq_append.mp htail
  refine ⟨at_, ?_⟩
  have hafter : passWord? "(" (rawTokens ++ rest) = none ∧
      splitRawValue (rawTokens ++ rest) = (raw.map .string, rest) := by
    cases raw with
    | none =>
      cases List.map_eq_nil_iff.mp hraw
      refine ⟨hrest.passWord? (by decide), ?_⟩
      rw [List.nil_append, splitRawValue, hrest.passWord? (by decide)]
      rfl
    | some text =>
      obtain ⟨equalsAt, tail, rfl, htext⟩ := map_face_eq_cons.mp hraw
      obtain ⟨textAt, tail, rfl, hnil⟩ := map_face_eq_cons.mp htext
      cases List.map_eq_nil_iff.mp hnil
      exact ⟨rfl, splitRawValue_quoted text equalsAt textAt rest⟩
  obtain ⟨hparen, hraw'⟩ := hafter
  have hpayload' := readPayload_payloadFaces hvalues hpayload hparen
  rw [List.cons_append, List.append_assoc]
  refine bind_eq_ok_iff.mpr ⟨_, readIdentifier_word name at_ _, ?_⟩
  refine bind_eq_ok_iff.mpr ⟨_, hpayload', ?_⟩
  dsimp only
  rw [hraw']
  rfl

/-- A case is read as an item of a body. -/
theorem readsBody_case (docs : List String) (name : String) {values : List CaseValue}
    (raw : Option String) (hvalues : ∀ value ∈ values, IsWritableValue value) :
    ReadsBody (caseFaces docs name values raw)
      (.ofCases [enumCase docs name values raw]) := by
  refine .of_item fun tokens rest htokens hrest => ?_
  obtain ⟨caseAt, after, hafter, hitem⟩ :=
    nextBodyItem_headingFaces htokens (by decide) rest
  obtain ⟨at_, hcase⟩ := readCase_caseFaces hvalues hafter hrest
  have hcases : readCases docs (after ++ rest) =
      .ok ([{ enumCase docs name values raw with position := at_ }], rest) := by
    rw [readCases, readList_eq]
    refine bind_eq_ok_iff.mpr ⟨_, hcase, ?_⟩
    dsimp only
    rw [hrest.passWord? (by decide)]
    rfl
  refine ⟨[.cases [{ enumCase docs name values raw with position := at_ }]], rfl, ?_⟩
  rw [hitem]
  exact bind_eq_ok_iff.mpr ⟨_, hcases, rfl⟩

end WireSchema.Swift
