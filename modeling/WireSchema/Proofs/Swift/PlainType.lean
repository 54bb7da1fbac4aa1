import Mathlib.Tactic.MkIffOfInductiveProp
import WireSchema.Proofs.Swift.Group
import WireSchema.Proofs.Swift.Spelling
import WireSchema.Swift.TypeSyntax

/-!
# Types that code can name

A type is writable if its names are identifiers with dots between them and no optional
is directly inside another. Its text is spelled by `typeFaces`. A plain type is one that
code in Swift can name as it is: moreover no name in it means something else in Swift.
-/

namespace WireSchema.Swift

open Text (isIdentStart isIdentRest isIdentChars isIdentifier isBlank)

/-! ## Plain types -/

/-- Is the name a sequence of identifiers with dots between them? -/
def IsDotted (name : List Char) : Prop :=
  ∀ part ∈ name.splitOn '.', isIdentChars part = true

instance (name : List Char) : Decidable (IsDotted name) :=
  inferInstanceAs (Decidable (∀ part ∈ name.splitOn '.', isIdentChars part = true))

/-- Identifiers with dots between them that mean no basic type in Swift. -/
@[mk_iff]
structure IsPlainName (name : String) : Prop where
  parts : ∀ part ∈ name.toList.splitOn '.', isIdentChars part = true
  unqualified : ¬ "Swift.".toList <+: name.toList
  noPrimitive : primitiveOf? name = none

instance (name : String) : Decidable (IsPlainName name) :=
  decidable_of_iff' _ (isPlainName_iff ..)

/-- Types that code in Swift can name as they are. -/
def IsPlain : TypeExpr → Prop
  | .primitive _ => True
  | .list t => IsPlain t
  | .map key value => IsPlain key ∧ IsPlain value
  | .optional t => IsPlain t ∧ t.isOptional = false
  | .custom name => IsPlainName name

/-- Types that code can write and the parser can read. -/
def IsWritable : TypeExpr → Prop
  | .primitive _ => True
  | .list t => IsWritable t
  | .map key value => IsWritable key ∧ IsWritable value
  | .optional t => IsWritable t ∧ t.isOptional = false
  | .custom name => IsDotted name.toList

theorem IsPlain.writable {t : TypeExpr} (h : IsPlain t) : IsWritable t := by
  induction t with
  | primitive p => trivial
  | list t ih => exact ih h
  | map key value ihkey ihvalue => exact ⟨ihkey h.1, ihvalue h.2⟩
  | optional t ih => exact ⟨ih h.1, h.2⟩
  | custom name => exact h.parts

def dottedFaces : List (List Char) → List Face
  | [] => []
  | [part] => [.word (String.ofList part)]
  | part :: later => .word (String.ofList part) :: .symbol "." :: dottedFaces later

def typeFaces : TypeExpr → List Face
  | .primitive p => [.word (primitiveText p)]
  | .list t => .symbol "[" :: (typeFaces t ++ [.symbol "]"])
  | .map key value =>
    .symbol "[" :: ((typeFaces key ++ .symbol ":" :: typeFaces value) ++ [.symbol "]"])
  | .optional t => typeFaces t ++ [.symbol "?"]
  | .custom name => dottedFaces (name.toList.splitOn '.')

theorem typeText_optional {t : TypeExpr} (h : t.isOptional = false) :
    typeText (.optional t) = typeText t ++ "?" := by
  cases t with
  | optional t => cases h
  | primitive | list | map | custom => rfl

/-! ## Spelling -/

theorem breaksSymbol_of_isIdentRest {c : Char} (h : isIdentRest c = true) :
    breaksSymbol c = true := by
  have hsymbols := List.any_eq_false.mp
    (show ['>', '.', '=', '&', '|', '?'].any isIdentRest = false from rfl)
  rw [breaksSymbol, Bool.not_eq_true', Bool.eq_false_iff]
  intro hc
  exact hsymbols c (List.contains_iff_mem.mp hc) h

theorem exists_cons_of_isIdentChars {cs : List Char} (h : isIdentChars cs = true) :
    ∃ c later, cs = c :: later ∧ isIdentStart c = true := by
  cases cs with
  | nil => cases h
  | cons c later => exact ⟨c, later, rfl, (isIdentChars_cons h).1⟩

theorem head?_name {name : String} (h : isIdentifier name = true) :
    name.toList.head?.any breaksSymbol = true := by
  obtain ⟨c, later, hchars, hc⟩ := exists_cons_of_isIdentChars h
  rw [hchars]
  exact breaksSymbol_of_isIdentRest (isIdentRest_of_isIdentStart hc)

/-- A name with dots starts as its first part does. -/
theorem exists_cons_of_dotted {parts : List (List Char)} (hne : parts ≠ [])
    (hparts : ∀ part ∈ parts, isIdentChars part = true) :
    ∃ c later, ['.'].intercalate parts = c :: later ∧ isIdentStart c = true := by
  obtain ⟨part, more, rfl⟩ := List.exists_cons_of_ne_nil hne
  obtain ⟨c, later, rfl, hc⟩ := exists_cons_of_isIdentChars (hparts part List.mem_cons_self)
  cases more with
  | nil => exact ⟨c, later, List.intercalate_singleton, hc⟩
  | cons next more =>
    refine ⟨c, later ++ (['.'] ++ ['.'].intercalate (next :: more)), ?_, hc⟩
    rw [List.intercalate_cons_cons]
    simp

theorem mem_dotted {parts : List (List Char)}
    (hparts : ∀ part ∈ parts, isIdentChars part = true) {c : Char}
    (hc : c ∈ ['.'].intercalate parts) : isIdentRest c = true ∨ c = '.' := by
  induction parts with
  | nil => cases hc
  | cons part more ih =>
    have hpart := hparts part List.mem_cons_self
    cases more with
    | nil =>
      rw [List.intercalate_singleton] at hc
      exact .inl (isIdentRest_of_mem hpart c hc)
    | cons next more =>
      rw [List.intercalate_cons_cons] at hc
      rcases List.mem_append.mp hc with hc | hc
      · rcases List.mem_append.mp hc with hc | hc
        · exact .inl (isIdentRest_of_mem hpart c hc)
        · exact .inr (List.mem_singleton.mp hc)
      · exact ih (fun other hother => hparts other (List.mem_cons_of_mem part hother)) hc

/-- The parts of a name, each spelled, with the dots between them. -/
theorem lexes_dotted {parts : List (List Char)} (hne : parts ≠ [])
    (hparts : ∀ part ∈ parts, isIdentChars part = true) {rest : List Char} {later : List Face}
    (hbreak : rest.head?.all breaksName = true) (hrest : Lexes rest later) :
    Lexes (['.'].intercalate parts ++ rest) (dottedFaces parts ++ later) := by
  fun_induction dottedFaces parts with
  | case1 => exact absurd rfl hne
  | case2 part =>
    have hpart := hparts part List.mem_cons_self
    rw [List.intercalate_singleton]
    exact lexes_identifier hpart (any_isIdentRest_of_all_breaksName hbreak) hrest
  | case3 part more hmore ih =>
    have hlater := fun next hnext => hparts next (List.mem_cons_of_mem part hnext)
    have htail := ih hmore hlater
    obtain ⟨c, cs, hchars, hc⟩ := exists_cons_of_dotted hmore hlater
    have hdot : Lexes ('.' :: (['.'].intercalate more ++ rest))
        (.symbol "." :: (dottedFaces more ++ later)) := by
      refine lexes_symbol (lexemeAt?_openSymbol (by decide) ?_) htail
      rw [hchars]
      exact breaksSymbol_of_isIdentRest (isIdentRest_of_isIdentStart hc)
    have hpart := lexes_identifier (hparts part List.mem_cons_self) rfl hdot
    obtain ⟨next, more, rfl⟩ := List.exists_cons_of_ne_nil hmore
    rw [List.intercalate_cons_cons]
    simpa using hpart

/-- The text of a type starts with a name or a bracket. -/
theorem exists_cons_typeText {t : TypeExpr} (h : IsWritable t) :
    ∃ c later, (typeText t).toList = c :: later ∧ (isIdentStart c = true ∨ c = '[') := by
  induction t with
  | primitive p =>
    cases p with
    | string => exact ⟨'S', _, rfl, .inl rfl⟩
    | int => exact ⟨'I', _, rfl, .inl rfl⟩
    | float => exact ⟨'D', _, rfl, .inl rfl⟩
    | bool => exact ⟨'B', _, rfl, .inl rfl⟩
    | any => exact ⟨'J', _, rfl, .inl rfl⟩
  | list t _ => exact ⟨'[', _, by simp [typeText]; rfl, .inr rfl⟩
  | map key value _ _ => exact ⟨'[', _, by simp [typeText]; rfl, .inr rfl⟩
  | optional t ih =>
    obtain ⟨c, later, hchars, hc⟩ := ih h.1
    exact ⟨c, later ++ ['?'], by rw [typeText_optional h.2, String.toList_append, hchars]; rfl, hc⟩
  | custom name =>
    obtain ⟨c, later, hchars, hc⟩ := exists_cons_of_dotted (List.splitOn_ne_nil _ _) h
    rw [List.intercalate_splitOn] at hchars
    exact ⟨c, later, hchars, .inl hc⟩

theorem head?_typeText {t : TypeExpr} (h : IsWritable t) :
    (typeText t).toList.head?.any breaksSymbol = true := by
  obtain ⟨c, later, hchars, hc⟩ := exists_cons_typeText h
  rw [hchars]
  rcases hc with hc | rfl
  · exact breaksSymbol_of_isIdentRest (isIdentRest_of_isIdentStart hc)
  · rfl

/-- A symbol that is never part of a longer one. -/
theorem spells_plainSymbol {c : Char} (h : c ∈ plainSymbols) (next : Char → Bool) :
    Spells next (String.ofList [c]) [.symbol (String.ofList [c])] := by
  refine spells_lexeme .symbol (fun rest _ => ?_) ?_
  · rw [String.toList_ofList]
    exact lexemeAt?_plainSymbol h rest
  · rw [String.toList_ofList]
    rfl

theorem spells_question : Spells breaksWord "?" [.symbol "?"] := by
  refine spells_lexeme .symbol (fun rest hrest => lexemeAt?_question ?_) rfl
  intro hhead
  change rest.head? = some '?' at hhead
  rw [hhead] at hrest
  cases hrest

theorem spells_bracketed {text : String} {faces : List Face} (h : Spells breaksWord text faces)
    (hhead : text.toList.head?.any breaksSymbol = true) (next : Char → Bool) :
    Spells next ("[" ++ text ++ "]") (.symbol "[" :: (faces ++ [.symbol "]"])) := by
  have hopen : Spells breaksSymbol "[" [.symbol "["] := spells_constant rfl rfl
  have hclose : Spells next "]" [.symbol "]"] := spells_plainSymbol (c := ']') (by decide) next
  exact (hopen.append h hhead).append hclose rfl

theorem spells_custom {name : String} (h : IsDotted name.toList) :
    Spells breaksName name (dottedFaces (name.toList.splitOn '.')) := by
  intro rest later hbreak hrest
  have hdotted := lexes_dotted (List.splitOn_ne_nil '.' name.toList) h hbreak hrest
  rwa [List.intercalate_splitOn] at hdotted

theorem isIdentifier_primitiveText (p : Primitive) : isIdentifier (primitiveText p) = true := by
  cases p <;> decide

/-- The text of a writable type is spelled by its faces. -/
theorem spells_typeText {t : TypeExpr} (h : IsWritable t) :
    Spells breaksWord (typeText t) (typeFaces t) := by
  -- What is not optional may also stand before the mark that makes it so.
  suffices (t.isOptional = false → Spells breaksName (typeText t) (typeFaces t)) ∧
      Spells breaksWord (typeText t) (typeFaces t) from this.2
  induction t with
  | primitive p =>
    have hname := spells_name (isIdentifier_primitiveText p)
    exact ⟨fun _ => hname, hname.mono fun _ => breaksName_of_breaksWord⟩
  | list t ih =>
    have hspells := spells_bracketed (ih h).2 (head?_typeText h)
    exact ⟨fun _ => hspells breaksName, hspells breaksWord⟩
  | map key value ihkey ihvalue =>
    have hcolon : Spells breaksSymbol ": " [.symbol ":"] := spells_constant rfl rfl
    have hinside := ((ihkey h.1).2.append hcolon rfl).append (ihvalue h.2).2 (head?_typeText h.2)
    have hhead : (typeText key ++ ": " ++ typeText value).toList.head?.any breaksSymbol = true := by
      obtain ⟨c, later, hchars, -⟩ := exists_cons_typeText h.1
      have hkey := head?_typeText h.1
      rw [hchars] at hkey
      rw [String.toList_append, String.toList_append, hchars]
      exact hkey
    have hspells := spells_bracketed hinside hhead
    have htext : "[" ++ (typeText key ++ ": " ++ typeText value) ++ "]" =
        typeText (.map key value) := by
      simp [typeText, String.append_assoc]
    simp only [htext, List.append_assoc, List.cons_append, List.nil_append] at hspells
    simp only [typeFaces, List.append_assoc, List.cons_append]
    exact ⟨fun _ => hspells breaksName, hspells breaksWord⟩
  | optional t ih =>
    have hspells := ((ih h.1).1 h.2).append spells_question rfl
    rw [← typeText_optional h.2] at hspells
    exact ⟨fun hopt => (nomatch (show true = false from hopt)), hspells⟩
  | custom name =>
    have hname := spells_custom h
    exact ⟨fun _ => hname, hname.mono fun _ => breaksName_of_breaksWord⟩

/-! ## Brackets -/

def bracketPairs : List (String × String) :=
  [("(", ")"), ("[", "]"), ("\x7b", "\x7d"), ("<", ">")]

theorem balanced_word {name opener closer : String} (hname : isIdentifier name = true)
    (hpair : (opener, closer) ∈ bracketPairs) : Balanced opener closer [.word name] := by
  have hbrackets : ∀ pair ∈ bracketPairs,
      isIdentifier pair.1 = false ∧ isIdentifier pair.2 = false := by decide
  obtain ⟨hopener, hcloser⟩ := hbrackets _ hpair
  exact .cons (Face.isWord_word_of_isIdentifier hname hopener)
    (Face.isWord_word_of_isIdentifier hname hcloser) .nil

/-- Symbols between the parts of a type are no brackets. -/
theorem balanced_symbol {symbol opener closer : String}
    (hsymbol : symbol ∈ [".", ":", ",", "?", "!", "??"])
    (hpair : (opener, closer) ∈ bracketPairs) : Balanced opener closer [.symbol symbol] := by
  have hbrackets : ∀ symbol ∈ [".", ":", ",", "?", "!", "??"], ∀ pair ∈ bracketPairs,
      (Face.symbol symbol).isWord pair.1 = false ∧ (Face.symbol symbol).isWord pair.2 = false := by
    decide
  obtain ⟨hopener, hcloser⟩ := hbrackets symbol hsymbol _ hpair
  exact .cons hopener hcloser .nil

/-- Two brackets are a pair of the kind that is looked for, or none of them is one of it. -/
theorem balanced_brackets {opener closer first last : String} {faces : List Face}
    (hpair : (opener, closer) ∈ bracketPairs) (hbrackets : (first, last) ∈ bracketPairs)
    (h : Balanced opener closer faces) :
    Balanced opener closer (.symbol first :: (faces ++ [.symbol last])) := by
  have hkinds : ∀ pair ∈ bracketPairs, ∀ brackets ∈ bracketPairs,
      ((Face.symbol brackets.1).isWord pair.1 = true ∧
        (Face.symbol brackets.2).isWord pair.2 = true ∧
        (Face.symbol brackets.2).isWord pair.1 = false) ∨
      ((Face.symbol brackets.1).isWord pair.1 = false ∧
        (Face.symbol brackets.1).isWord pair.2 = false ∧
        (Face.symbol brackets.2).isWord pair.1 = false ∧
        (Face.symbol brackets.2).isWord pair.2 = false) := by decide
  rcases hkinds _ hpair _ hbrackets with ⟨hfirst, hlast, hlast'⟩ | ⟨hfirst, hfirst', hlast, hlast'⟩
  · exact .group hfirst hlast hlast' h
  · exact .cons hfirst hfirst' (h.append (.cons hlast hlast' .nil))

theorem isIdentifier_ofList {part : List Char} (h : isIdentChars part = true) :
    isIdentifier (String.ofList part) = true := by
  rw [isIdentifier, String.toList_ofList, h]

theorem balanced_dottedFaces {parts : List (List Char)} {opener closer : String}
    (hparts : ∀ part ∈ parts, isIdentChars part = true)
    (hpair : (opener, closer) ∈ bracketPairs) : Balanced opener closer (dottedFaces parts) := by
  fun_induction dottedFaces parts with
  | case1 => exact .nil
  | case2 part => exact balanced_word (isIdentifier_ofList (hparts part List.mem_cons_self)) hpair
  | case3 part more _ ih =>
    have hpart := balanced_word (isIdentifier_ofList (hparts part List.mem_cons_self)) hpair
    have hmore := ih fun next hnext => hparts next (List.mem_cons_of_mem part hnext)
    have hdot : Balanced opener closer [.symbol "."] := balanced_symbol (by decide) hpair
    exact hpart.append (hdot.append hmore)

end WireSchema.Swift
