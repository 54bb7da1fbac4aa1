import WireSchema.Proofs.Swift.Items

/-!
# Clauses of inheritance

What a type or an extension inherits from stands between its name and its body: types with
commas between them, each of which may be composed of several protocols. A composition is kept
as one text.
-/

namespace WireSchema.Swift

open Outcome (bind_eq_ok_iff)
open Text (isIdentifier isBlank)

/-! ## Headers -/

/-- Does a type in a clause end before this token, even one whose name may stand in front of
another type? -/
def endsEntry (token : Token) : Bool :=
  endsType token && !startsType token

theorem all_endsType_of_endsEntry {tokens : List Token} (h : tokens.head?.all endsEntry = true) :
    tokens.head?.all endsType = true ∧ tokens.head?.any startsType = false := by
  cases tokens with
  | nil => exact ⟨rfl, rfl⟩
  | cons token later => simpa [endsEntry] using h

/-- Tokens of the faces are read as the text where one of the types of a clause may end. -/
def ReadsEntry (faces : List Face) (text : String) : Prop :=
  ∀ tokens rest, tokens.map Token.face = faces → rest.head?.all endsEntry = true →
    readTypeText (tokens ++ rest) = .ok (text, rest)

/-- The faces of a clause with the given types; without types there is no clause. -/
def clauseFaces (entries : List (List Face)) : List Face :=
  if entries.isEmpty then [] else .symbol ":" :: commaFaces entries

def declFaces (keyword name : String) (entries : List (List Face)) (body : List Face) :
    List Face :=
  .word keyword :: .word name ::
    (clauseFaces entries ++ .symbol "\x7b" :: (body ++ [.symbol "\x7d"]))

theorem skipGroup_of_not_wordNext {opener closer : String} {tokens : List Token}
    (h : wordNext tokens opener = false) : skipGroup opener closer tokens = .ok tokens := by
  rw [skipGroup, h]
  rfl

theorem splitDottedTail_of_not_wordNext {tokens : List Token} (h : wordNext tokens "." = false) :
    splitDottedTail tokens = ("", tokens) := by
  unfold splitDottedTail
  split
  · next dot part later =>
    have hdot : dot.isWord "." = false := h
    rw [hdot, Bool.false_and, if_neg (by simp)]
  · rfl

/-- What follows the name of a declaration is neither generic parameters nor a further part of
the name. -/
theorem wordNext_clause {entries : List (List Face)} {after : List Face} {tokens : List Token}
    (htokens : tokens.map Token.face = clauseFaces entries ++ .symbol "\x7b" :: after)
    (rest : List Token) :
    wordNext (tokens ++ rest) "<" = false ∧ wordNext (tokens ++ rest) "." = false := by
  cases entries with
  | nil =>
    obtain ⟨openAt, later, rfl, -⟩ := map_face_eq_cons.mp htokens
    exact ⟨rfl, rfl⟩
  | cons entry entries =>
    obtain ⟨colonAt, later, rfl, -⟩ := map_face_eq_cons.mp htokens
    exact ⟨rfl, rfl⟩

section

variable {ι : Type} {items : List ι} {faces : ι → List Face} {text : ι → String}
  {after : List Face} {tokens : List Token}

/-- A clause is read up to the body if each of its types is read up to its end. -/
theorem readBodyStart_clause
    (hread : ∀ item ∈ items, ReadsEntry (faces item) (text item))
    (htokens : tokens.map Token.face = clauseFaces (items.map faces) ++ .symbol "\x7b" :: after)
    (rest : List Token) :
    ∃ body, body.map Token.face = after ∧
      readBodyStart (tokens ++ rest) = .ok (items.map text, body ++ rest) := by
  obtain ⟨clause, block, rfl, hclause, hblock⟩ := map_face_eq_append.mp htokens
  obtain ⟨openAt, body, rfl, hbody⟩ := map_face_eq_cons.mp hblock
  refine ⟨body, hbody, ?_⟩
  have hinheritance : readInheritance (clause ++ (Face.symbol "\x7b").token openAt ::
      (body ++ rest)) =
        .ok (items.map text, (Face.symbol "\x7b").token openAt :: (body ++ rest)) := by
    cases items with
    | nil =>
      cases List.map_eq_nil_iff.mp hclause
      rfl
    | cons item items =>
      obtain ⟨colonAt, types, rfl, htypes⟩ := map_face_eq_cons.mp hclause
      have hlist : readList readTypeText readTypeText_advances (types ++
          (Face.symbol "\x7b").token openAt :: (body ++ rest)) =
            .ok ((item :: items).map text, _) :=
        readList_commaFaces (List.cons_ne_nil _ _) hread (fun _ => rfl) htypes rfl rfl
      exact hlist
  rw [List.append_assoc, List.cons_append]
  refine bind_eq_ok_iff.mpr ⟨_, hinheritance, ?_⟩
  exact bind_eq_ok_iff.mpr ⟨((Face.symbol "\x7b").token openAt, _), rfl, rfl⟩

/-- The header of a type is read up to its body. -/
theorem readTypeHeader_clause (heading : Heading) (kind : DeclKind) {name : String}
    (hread : ∀ item ∈ items, ReadsEntry (faces item) (text item))
    (htokens : tokens.map Token.face =
      .word name :: (clauseFaces (items.map faces) ++ .symbol "\x7b" :: after))
    (rest : List Token) :
    ∃ nameAt body, body.map Token.face = after ∧
      readTypeHeader heading kind (tokens ++ rest) =
        .ok (⟨kind, name, nameAt, heading.docs, heading.attributes, false, items.map text⟩,
          body ++ rest) := by
  obtain ⟨nameAt, afterName, rfl, hafterName⟩ := map_face_eq_cons.mp htokens
  obtain ⟨body, hbody, hstart⟩ := readBodyStart_clause hread hafterName rest
  obtain ⟨hgeneric, -⟩ := wordNext_clause hafterName rest
  refine ⟨nameAt, body, hbody, ?_⟩
  rw [List.cons_append]
  refine bind_eq_ok_iff.mpr ⟨_, readIdentifier_word name nameAt _, ?_⟩
  refine bind_eq_ok_iff.mpr ⟨_, skipGroup_of_not_wordNext hgeneric, ?_⟩
  refine bind_eq_ok_iff.mpr ⟨_, hstart, ?_⟩
  dsimp only
  rw [hgeneric]
  rfl

/-- The header of an extension is read up to its body. -/
theorem readExtensionHeader_clause {name : String}
    (hread : ∀ item ∈ items, ReadsEntry (faces item) (text item))
    (htokens : tokens.map Token.face =
      .word name :: (clauseFaces (items.map faces) ++ .symbol "\x7b" :: after))
    (rest : List Token) :
    ∃ nameAt body, body.map Token.face = after ∧
      readExtensionHeader (tokens ++ rest) =
        .ok (⟨name, nameAt, items.map text⟩, body ++ rest) := by
  obtain ⟨nameAt, afterName, rfl, hafterName⟩ := map_face_eq_cons.mp htokens
  obtain ⟨body, hbody, hstart⟩ := readBodyStart_clause hread hafterName rest
  obtain ⟨-, hdot⟩ := wordNext_clause hafterName rest
  refine ⟨nameAt, body, hbody, ?_⟩
  rw [List.cons_append]
  refine bind_eq_ok_iff.mpr ⟨_, readIdentifier_word name nameAt _, ?_⟩
  dsimp only
  rw [splitDottedTail_of_not_wordNext hdot]
  refine bind_eq_ok_iff.mpr ⟨_, hstart, ?_⟩
  dsimp only
  rw [Face.text_token, String.append_empty]
  rfl

end

/-! ## Compositions -/

structure Composition where
  names : List String
  nonempty : names ≠ []
  areDotted : ∀ name ∈ names, IsDotted name.toList

def composedFaces : List String → List Face
  | [] => []
  | [name] => typeFaces (.custom name)
  | name :: later => typeFaces (.custom name) ++ .symbol "&" :: composedFaces later

namespace Composition

def faces (entry : Composition) : List Face :=
  composedFaces entry.names

/-- The one text that the parser keeps of a composition. -/
def text (entry : Composition) : String :=
  " & ".intercalate entry.names

end Composition

/-- The names of a composition are read one by one. -/
theorem readTypeRun_composed {names : List String} (hne : names ≠ [])
    (hnames : ∀ name ∈ names, IsDotted name.toList) {tokens rest : List Token}
    (htokens : tokens.map Token.face = composedFaces names)
    (hrest : rest.head?.all endsEntry = true) :
    readTypeRun (tokens ++ rest) = .ok (tokens, rest) := by
  obtain ⟨hends, hstart⟩ := all_endsType_of_endsEntry hrest
  induction names generalizing tokens with
  | nil => exact absurd rfl hne
  | cons name later ih =>
    have hname : IsWritable (.custom name) := hnames name List.mem_cons_self
    cases later with
    | nil => exact readTypeRun_typeFaces hname htokens hends (.inr hstart)
    | cons next later =>
      obtain ⟨first, tail, rfl, hfirst, htail⟩ := map_face_eq_append.mp htokens
      obtain ⟨at_, more, rfl, hmore⟩ := map_face_eq_cons.mp htail
      have hoperand : readTypeOperand (first ++ (Face.symbol "&").token at_ :: (more ++ rest)) =
          .ok (first, (Face.symbol "&").token at_ :: (more ++ rest)) :=
        readTypeOperand_kept (typeTree _ hname) (map_face_typeTree hname hfirst) rfl rfl (.inr rfl)
      have hlater := ih (List.cons_ne_nil _ _)
        (fun name hmem => hnames name (List.mem_cons_of_mem _ hmem)) hmore
      rw [readTypeRun_eq, List.append_assoc, List.cons_append]
      refine bind_eq_ok_iff.mpr ⟨_, hoperand, ?_⟩
      exact bind_eq_ok_iff.mpr ⟨_, hlater, rfl⟩

theorem typeRunChars_ampersand (at_ : Position) (rest : List Token) :
    typeRunChars ((Face.symbol "&").token at_ :: rest) = " & ".toList ++ typeRunChars rest := by
  have hchars : ' ' :: ("&".toList ++ [' ']) = " & ".toList := by decide
  have hspace : rest.head?.any (spaceBetween ((Face.symbol "&").token at_)) = false := by
    cases rest with
    | nil => rfl
    | cons next later => rfl
  rw [typeRunChars_cons _ hspace, ← hchars]
  rfl

theorem typeRunChars_composed {names : List String} (hnames : ∀ name ∈ names, IsDotted name.toList)
    {tokens : List Token} (htokens : tokens.map Token.face = composedFaces names) :
    typeRunChars tokens = (" & ".intercalate names).toList := by
  induction names generalizing tokens with
  | nil =>
    cases List.map_eq_nil_iff.mp htokens
    rfl
  | cons name later ih =>
    have hname : IsWritable (.custom name) := hnames name List.mem_cons_self
    cases later with
    | nil =>
      have hchars := typeRunChars_typeFaces hname htokens
        (show ([] : List Token).head?.any _ = false from rfl)
      simpa [typeRunChars, typeText] using hchars
    | cons next later =>
      obtain ⟨first, tail, rfl, hfirst, htail⟩ := map_face_eq_append.mp htokens
      obtain ⟨at_, more, rfl, hmore⟩ := map_face_eq_cons.mp htail
      have hlater := ih (fun name hmem => hnames name (List.mem_cons_of_mem _ hmem)) hmore
      have hchars : typeRunChars (first ++ (Face.symbol "&").token at_ :: more) = _ :=
        typeRunChars_typeFaces hname hfirst rfl
      rw [hchars, typeRunChars_ampersand, hlater]
      simp only [String.toList_intercalate, List.map_cons, List.intercalate_cons_cons,
        List.append_assoc]
      rfl

/-- A composition neither starts nor ends in white space. -/
theorem exists_ends_composed {names : List String} (hne : names ≠ [])
    (hnames : ∀ name ∈ names, IsDotted name.toList) :
    ∃ first last, (" & ".intercalate names).toList.head? = some first ∧ isBlank first = false ∧
      (" & ".intercalate names).toList.getLast? = some last ∧ isBlank last = false := by
  induction names with
  | nil => exact absurd rfl hne
  | cons name later ih =>
    have hname := hnames name List.mem_cons_self
    obtain ⟨c, cs, hchars⟩ : ∃ c cs, name.toList = c :: cs := by
      obtain ⟨c, cs, hchars, -⟩ := exists_cons_of_dotted (List.splitOn_ne_nil '.' name.toList) hname
      rw [List.intercalate_splitOn] at hchars
      exact ⟨c, cs, hchars⟩
    have hfirst : isBlank c = false := hname.isBlank_of_mem c (by rw [hchars]; exact List.mem_cons_self)
    simp only [String.toList_intercalate, List.map_cons] at ih ⊢
    cases later with
    | nil =>
      obtain ⟨last, hlast⟩ := Option.ne_none_iff_exists'.mp
        (mt List.getLast?_eq_none_iff.mp (List.cons_ne_nil c cs))
      have hmem : last ∈ name.toList := by
        rw [hchars]
        exact List.mem_of_getLast? hlast
      refine ⟨c, last, ?_, hfirst, ?_, hname.isBlank_of_mem last hmem⟩
      · simp [hchars]
      · simpa [hchars] using hlast
    | cons next later =>
      obtain ⟨-, last, -, -, hlast, hblank⟩ := ih (List.cons_ne_nil _ _)
        fun name hmem => hnames name (List.mem_cons_of_mem _ hmem)
      refine ⟨c, last, ?_, hfirst, ?_, hblank⟩
      · simp [hchars]
      · simp only [List.map_cons, List.intercalate_cons_cons] at hlast ⊢
        rw [List.getLast?_append, hlast, Option.some_or]

/-- A composition is kept as the names with ampersands between them. -/
theorem readsEntry_composition (entry : Composition) : ReadsEntry entry.faces entry.text := by
  intro tokens rest htokens hrest
  have hrun := readTypeRun_composed entry.nonempty entry.areDotted htokens hrest
  refine bind_eq_ok_iff.mpr ⟨_, hrun, ?_⟩
  dsimp only
  rw [typeRunChars_composed entry.areDotted htokens]
  have htrim : Text.trimChars (" & ".intercalate entry.names).toList =
      (" & ".intercalate entry.names).toList := by
    obtain ⟨first, last, hhead, hfirst, hgetLast, hlast⟩ :=
      exists_ends_composed entry.nonempty entry.areDotted
    refine Text.trimChars_of_ends (fun c hc => ?_) (fun c hc => ?_)
    · cases hhead.symm.trans hc
      exact hfirst
    · cases hgetLast.symm.trans hc
      exact hlast
  rw [htrim, String.ofList_toList]
  rfl

end WireSchema.Swift
