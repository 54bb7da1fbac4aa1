import Mathlib.Tactic.MkIffOfInductiveProp
import WireSchema.Proofs.Generation.CodeTypes
import WireSchema.Proofs.Lookup
import WireSchema.Proofs.Swift.TypeNames

/-!
# References in generated code

All types in generated code share one space of names: those of the schema, under their names
in code, and those from elsewhere. A reference to a type from elsewhere is captured if a type
of the schema has its name in code. Verification reserves a few names, but it looks at names
as they are in the schema, and the primitives but one are not among the reserved names. So
references keep what they stand for exactly if no name happens to be captured.
-/

namespace WireSchema.Generation

open Swift (typeText primitiveText)
open Text (isIdentChars isIdentifier)
open TypeExpr (isNameRest isTypeName)
open Verification

/-! ## References and what they stand for -/

/-- A place in a type where another one is named. -/
inductive Reference where
  | primitive (p : Primitive)
  | custom (name : String)

def references : TypeExpr → List Reference
  | .primitive p => [.primitive p]
  | .list t => references t
  | .map key value => references key ++ references value
  | .optional t => references t
  | .custom name => [.custom name]

inductive Referent where
  /-- A type of the schema. -/
  | declared (name : String)
  /-- Something in a type of the schema. -/
  | nested (name : String)
  /-- A type from elsewhere, under its name in code. -/
  | outside (name : String)
deriving DecidableEq

namespace Reference

variable (namer : Namer)

/-- What the reference stands for in the schema. -/
def meaning : Reference → Referent
  | primitive p => .outside (primitiveText p)
  | custom name => if namer.declared.contains name then .declared name else .outside name

def spelling : Reference → String
  | primitive p => primitiveText p
  | custom name => namer.reference name

end Reference

/-- The part of a name before its first dot, which is the one that is looked up. -/
def firstPart (name : String) : String :=
  String.ofList (name.toList.takeWhile (· != '.'))

/-- Do coding keys stand in the type in code? -/
def nestsCodingKeys : TypeDef → Bool
  | .struct d => d.fields.entries.any fun entry => entry.2.isRemapped entry.1
  | .union d => d.discriminator.isSome
  | _ => false

/-- The names that have a meaning of their own in the code of a type. -/
def ownNames (definition : TypeDef) : List String :=
  "Self" :: if nestsCodingKeys definition then ["CodingKeys"] else []

/-- What a name in the code of a type stands for. The names of its own come first, then the types
of the schema, which hide all others. -/
def found (namer : Namer) (own : String × TypeDef) (name : String) : Referent :=
  if (ownNames own.2).contains (firstPart name) then .nested own.1
  else
    match namer.declared.find? fun declared => namer.typeName declared == firstPart name with
    | some declared => if firstPart name == name then .declared declared else .nested declared
    | none => .outside name

/-! ## Names in the text of a type -/

/-- The longest stretches of characters of names. -/
def nameRuns (cs : List Char) : List (List Char) :=
  (cs.splitOnP fun c => !isNameRest c).filter fun run => !run.isEmpty

def namesIn (text : String) : List String :=
  (nameRuns text.toList).map String.ofList

@[simp] theorem nameRuns_nil : nameRuns [] = [] := rfl

theorem nameRuns_append_cons (front : List Char) {c : Char} (hc : isNameRest c = false)
    (back : List Char) : nameRuns (front ++ c :: back) = nameRuns front ++ nameRuns back := by
  rw [nameRuns, List.splitOnP_append_cons _ _ (by simp [hc]), List.filter_append]
  rfl

theorem nameRuns_cons {c : Char} (hc : isNameRest c = false) (cs : List Char) :
    nameRuns (c :: cs) = nameRuns cs :=
  nameRuns_append_cons [] hc cs

theorem nameRuns_name {cs : List Char} (hne : cs ≠ []) (h : ∀ c ∈ cs, isNameRest c = true) :
    nameRuns cs = [cs] := by
  have hsplit : cs.splitOnP (fun c => !isNameRest c) = [cs] :=
    List.splitOnP_eq_singleton fun c hc => by simp [h c hc]
  rw [nameRuns, hsplit]
  simp [hne]

theorem namesIn_name {name : String} (h : isTypeName name = true) : namesIn name = [name] := by
  have hchars : name.toList ≠ [] := by
    intro hnil
    rw [isTypeName, hnil] at h
    cases h
  rw [namesIn, nameRuns_name hchars (TypeExpr.isNameRest_of_isTypeName h)]
  simp

theorem namesIn_list (text : String) : namesIn ("[" ++ text ++ "]") = namesIn text := by
  have hchars : ("[" ++ text ++ "]").toList = '[' :: (text.toList ++ [']']) := by simp
  rw [namesIn, hchars, nameRuns_cons (by decide), nameRuns_append_cons _ (by decide),
    nameRuns_nil, List.append_nil, namesIn]

theorem namesIn_map (key value : String) :
    namesIn ("[" ++ key ++ ": " ++ value ++ "]") = namesIn key ++ namesIn value := by
  have hchars : ("[" ++ key ++ ": " ++ value ++ "]").toList =
      '[' :: (key.toList ++ ':' :: ' ' :: (value.toList ++ [']'])) := by simp
  rw [namesIn, hchars, nameRuns_cons (by decide), nameRuns_append_cons _ (by decide),
    nameRuns_cons (by decide), nameRuns_append_cons _ (by decide), nameRuns_nil, List.append_nil,
    List.map_append, namesIn, namesIn]

theorem namesIn_optional (text : String) : namesIn (text ++ "?") = namesIn text := by
  have hchars : (text ++ "?").toList = text.toList ++ ['?'] := by simp
  rw [namesIn, hchars, nameRuns_append_cons _ (by decide), nameRuns_nil, List.append_nil, namesIn]

theorem namesIn_typeText_asOptional (t : TypeExpr) :
    namesIn (typeText t.asOptional) = namesIn (typeText t) := by
  cases t with
  | optional t => rfl
  | _ => exact namesIn_optional _

/-- The names in the text of a type are the names by which code refers to what it refers to. -/
theorem namesIn_typeText_rename (namer : Namer) {t : TypeExpr}
    (h : ∀ reference ∈ references t, isTypeName (reference.spelling namer) = true) :
    namesIn (typeText (t.rename namer.reference)) =
      (references t).map (Reference.spelling namer) := by
  induction t with
  | primitive p => exact namesIn_name (h (.primitive p) (by simp [references]))
  | list t ih =>
    rw [references, ← ih h]
    exact namesIn_list _
  | map key value ihkey ihvalue =>
    have hkey := ihkey fun reference hmem => h reference (List.mem_append_left _ hmem)
    have hvalue := ihvalue fun reference hmem => h reference (List.mem_append_right _ hmem)
    rw [references, List.map_append, ← hkey, ← hvalue]
    exact namesIn_map _ _
  | optional t ih =>
    rw [references, ← ih h]
    exact namesIn_typeText_asOptional _
  | custom name => exact namesIn_name (h (.custom name) (by simp [references]))

/-! ## Identifiers -/

theorem isIdentifier_append {front back : String} (hfront : isIdentifier front = true)
    (hback : isIdentifier back = true) : isIdentifier (front ++ back) = true := by
  have hrest := Swift.isIdentRest_of_mem hback
  rw [isIdentifier, String.toList_append]
  rw [isIdentifier] at hfront
  cases hchars : front.toList with
  | nil => rw [hchars] at hfront; cases hfront
  | cons c cs =>
    rw [hchars, isIdentChars, Bool.and_eq_true, List.all_eq_true] at hfront
    rw [List.cons_append, isIdentChars, Bool.and_eq_true, List.all_eq_true]
    exact ⟨hfront.1, fun d hd => (List.mem_append.mp hd).elim (hfront.2 d) (hrest d)⟩

theorem isTypeName_of_isIdentifier {name : String} (h : isIdentifier name = true) :
    isTypeName name = true :=
  Swift.isTypeName_of_isDotted (Swift.isDotted_of_isIdentChars h)

theorem firstPart_of_isIdentifier {name : String} (h : isIdentifier name = true) :
    firstPart name = name := by
  have hdots : name.toList.takeWhile (· != '.') = name.toList := by
    refine List.takeWhile_eq_self_iff.mpr fun c hc => ?_
    have hrest := Swift.isIdentRest_of_mem h c hc
    refine bne_iff_ne.mpr fun hdot => ?_
    rw [hdot] at hrest
    exact absurd hrest (by decide)
  rw [firstPart, hdots, String.ofList_toList]

/-! ## Captured references -/

/-- Neither a name of the type's own nor a type of the schema is found in place of what the
reference stands for. -/
@[mk_iff]
structure IsUncaptured (namer : Namer) (own : String × TypeDef) (reference : Reference) :
    Prop where
  own : firstPart (reference.spelling namer) ∉ ownNames own.2
  schema : reference.meaning namer = .outside (reference.spelling namer) →
    ∀ declared ∈ namer.declared, namer.typeName declared ≠ firstPart (reference.spelling namer)

instance (namer : Namer) (own : String × TypeDef) (reference : Reference) :
    Decidable (IsUncaptured namer own reference) :=
  decidable_of_iff' _ (isUncaptured_iff ..)

section

variable {namer : Namer} {own : String × TypeDef}

theorem typeName_injective (namer : Namer) {a b : String}
    (h : namer.typeName a = namer.typeName b) : a = b := by
  have hchars := congrArg String.toList h
  rw [Namer.typeName, Namer.typeName, String.toList_append, String.toList_append,
    List.append_cancel_left_eq] at hchars
  exact String.toList_inj.mp hchars

theorem meaning_cases (namer : Namer) (reference : Reference) :
    (∃ name ∈ namer.declared, reference.meaning namer = .declared name ∧
        reference.spelling namer = namer.typeName name) ∨
      reference.meaning namer = .outside (reference.spelling namer) := by
  cases reference with
  | primitive p => exact .inr rfl
  | custom name =>
    rw [Reference.meaning, Reference.spelling, Namer.reference]
    by_cases hname : namer.declared.contains name = true
    · rw [if_pos hname, if_pos hname]
      exact .inl ⟨name, by simpa using hname, rfl, rfl⟩
    · rw [if_neg hname, if_neg hname]
      exact .inr rfl

theorem found_of_mem_ownNames {name : String} (h : firstPart name ∈ ownNames own.2) :
    found namer own name = .nested own.1 := by
  rw [found, if_pos (by simpa using h)]

/-- A type of the schema is found under its name in code, unless the name is one of the type's
own. -/
theorem found_typeName {name : String} (hname : name ∈ namer.declared)
    (hidentifier : isIdentifier (namer.typeName name) = true)
    (hown : firstPart (namer.typeName name) ∉ ownNames own.2) :
    found namer own (namer.typeName name) = .declared name := by
  have hfirst := firstPart_of_isIdentifier hidentifier
  rw [found, if_neg (by simpa using hown), hfirst]
  cases hfind : namer.declared.find? fun declared =>
      namer.typeName declared == namer.typeName name with
  | none =>
    have hnone := List.find?_eq_none.mp hfind name hname
    exact absurd (beq_self_eq_true _) hnone
  | some declared =>
    have hsame := List.find?_some hfind
    rw [typeName_injective namer (beq_iff_eq.mp hsame)]
    simp

theorem found_eq_outside_iff {name : String} (hown : firstPart name ∉ ownNames own.2) :
    found namer own name = .outside name ↔
      ∀ declared ∈ namer.declared, namer.typeName declared ≠ firstPart name := by
  rw [found, if_neg (by simpa using hown)]
  cases hfind : namer.declared.find? fun declared => namer.typeName declared == firstPart name with
  | none => simpa using hfind
  | some declared =>
    have hsame := List.find?_some hfind
    have hmem := List.mem_of_find?_eq_some hfind
    constructor
    · intro h
      dsimp only at h
      split at h <;> cases h
    · exact fun h => absurd (beq_iff_eq.mp hsame) (h declared hmem)

theorem found_spelling_iff
    (hdeclared : ∀ name ∈ namer.declared, isIdentifier (namer.typeName name) = true)
    (reference : Reference) :
    found namer own (reference.spelling namer) = reference.meaning namer ↔
      IsUncaptured namer own reference := by
  by_cases hown : firstPart (reference.spelling namer) ∈ ownNames own.2
  · -- No reference stands for something in the type, which is all that is found here.
    rw [found_of_mem_ownNames hown]
    refine ⟨fun hsame => ?_, fun h => absurd hown h.own⟩
    rcases meaning_cases namer reference with ⟨name, -, hmeaning, -⟩ | hmeaning
    · cases hsame.trans hmeaning
    · cases hsame.trans hmeaning
  · rcases meaning_cases namer reference with ⟨name, hname, hmeaning, hspelling⟩ | hmeaning
    · rw [hspelling] at hown
      have hfound := found_typeName hname (hdeclared name hname) hown
      rw [hspelling, hmeaning]
      refine iff_of_true hfound ⟨by rwa [hspelling], fun houtside => ?_⟩
      cases hmeaning.symm.trans houtside
    · rw [hmeaning, found_eq_outside_iff hown]
      exact ⟨fun h => ⟨hown, fun _ => h⟩, fun h => h.schema hmeaning⟩

theorem isTypeName_spelling
    (hdeclared : ∀ name ∈ namer.declared, isIdentifier (namer.typeName name) = true)
    {t : TypeExpr} (h : t.WellFormed) :
    ∀ reference ∈ references t, isTypeName (reference.spelling namer) = true := by
  induction t with
  | primitive p =>
    intro reference hreference
    rw [List.mem_singleton.mp hreference]
    exact isTypeName_of_isIdentifier (Swift.isIdentifier_primitiveText p)
  | list t ih => exact ih h
  | map key value ihkey ihvalue =>
    intro reference hreference
    exact (List.mem_append.mp hreference).elim (ihkey h.1 reference) (ihvalue h.2 reference)
  | optional t ih => exact ih h.1
  | custom name =>
    intro reference hreference
    rw [List.mem_singleton.mp hreference, Reference.spelling, Namer.reference]
    split
    · next hname => exact isTypeName_of_isIdentifier (hdeclared name (by simpa using hname))
    · exact h.1

end

/-! ## Names apart -/

section

variable (schema : Schema) (lead : String)

def codeNames : List String :=
  schema.types.names.map fun name => lead ++ name

/-- The names of types from elsewhere that a schema refers to. -/
def outsideNames : List String :=
  (schema.types.entries.flatMap fun own => (typesOf own.2).flatMap TypeExpr.customNames).filter
    fun name => !schema.types.names.contains name

/-- No type of the schema has in code a name that stands for something else. -/
@[mk_iff]
structure NamesApart : Prop where
  reserved : ∀ name ∈ codeNames schema lead, name ∉ reservedNames
  primitives : ∀ name ∈ codeNames schema lead, name ∉ Primitive.all.map primitiveText
  outside : ∀ name ∈ codeNames schema lead, name ∉ outsideNames schema

/-- Each name in the code of the types stands for what it refers to in the schema. -/
def KeepsReferences : Prop :=
  ∀ own ∈ schema.types.entries,
    ((Namer.ofSchema lead schema).codeTypes own.2).map
        (fun t => (namesIn (typeText t)).map (found (.ofSchema lead schema) own)) =
      (typesOf own.2).map
        fun t => (references t).map (Reference.meaning (.ofSchema lead schema))

end

instance (schema : Schema) (lead : String) : Decidable (NamesApart schema lead) :=
  decidable_of_iff' _ (namesApart_iff ..)

instance (schema : Schema) (lead : String) : Decidable (KeepsReferences schema lead) :=
  inferInstanceAs (Decidable (∀ own ∈ schema.types.entries, _ = _))

section

variable {schema : Schema} {lead : String}

theorem isIdentifier_of_mem_codeNames (hverify : verify schema = .ok ())
    (hlead : lead = "" ∨ isIdentifier lead = true) :
    ∀ name ∈ codeNames schema lead, isIdentifier name = true := by
  intro name hname
  obtain ⟨own, hown, rfl⟩ := List.mem_map.mp hname
  obtain ⟨entry, hentry, rfl⟩ := List.mem_map.mp hown
  have hidentifier := (verify_eq_ok_iff.mp hverify entry hentry).identifier
  rcases hlead with rfl | hlead
  · rwa [String.empty_append]
  · exact isIdentifier_append hlead hidentifier

theorem nodup_codeNames (schema : Schema) (lead : String) : (codeNames schema lead).Nodup :=
  schema.types.nodup_names.map fun _ _ h => typeName_injective (.ofSchema lead schema) h

/-- Without a lead only the primitives whose names are not reserved can be captured. -/
theorem namesApart_iff_of_noLead (hverify : verify schema = .ok ()) :
    NamesApart schema "" ↔
      ∀ name ∈ schema.types.names, name ∉ ["String", "Int", "Double", "Bool"] := by
  have hnames : codeNames schema "" = schema.types.names := by simp [codeNames]
  have hreserved : ∀ name ∈ schema.types.names, name ∉ reservedNames := by
    intro name hname
    obtain ⟨entry, hentry, rfl⟩ := List.mem_map.mp hname
    exact (verify_eq_ok_iff.mp hverify entry hentry).free
  have hspelled : ∀ name ∈ ["String", "Int", "Double", "Bool"],
      name ∈ Primitive.all.map primitiveText := by decide
  have hprimitives : ∀ name ∈ Primitive.all.map primitiveText,
      name ∈ reservedNames ∨ name ∈ ["String", "Int", "Double", "Bool"] := by decide
  constructor
  · intro h name hname hprimitive
    exact h.primitives name (hnames ▸ hname) (hspelled name hprimitive)
  · intro h
    refine ⟨?_, ?_, ?_⟩ <;> rw [hnames] <;> intro name hname hother
    · exact hreserved name hname hother
    · exact (hprimitives name hother).elim (hreserved name hname) (h name hname)
    · simp [outsideNames, hname] at hother

/-- Each name in the code of a type stands for what it refers to in the schema exactly if none
is captured. -/
theorem keepsReferences_iff_uncaptured (hverify : verify schema = .ok ())
    (hlead : lead = "" ∨ isIdentifier lead = true) :
    KeepsReferences schema lead ↔
      ∀ own ∈ schema.types.entries, ∀ t ∈ typesOf own.2, ∀ reference ∈ references t,
        IsUncaptured (.ofSchema lead schema) own reference := by
  have hdeclared : ∀ name ∈ (Namer.ofSchema lead schema).declared,
      isIdentifier ((Namer.ofSchema lead schema).typeName name) = true := fun name hname =>
    isIdentifier_of_mem_codeNames hverify hlead _ (List.mem_map_of_mem hname)
  refine forall₂_congr fun own hown => ?_
  have haccepted := (verify_eq_ok_iff.mp hverify own hown).definition
  rw [codeTypes_eq, List.map_map, List.map_inj_left]
  refine forall₂_congr fun t ht => ?_
  have hspelled := isTypeName_spelling hdeclared (wellFormed_of_mem_typesOf haccepted ht)
  rw [Function.comp_apply, namesIn_typeText_rename _ hspelled, List.map_map, List.map_inj_left]
  exact forall₂_congr fun reference _ => found_spelling_iff hdeclared reference

/-- The types of an accepted schema have names of their own in code. They differ from all other
names in use only by chance: without a lead they may be those of four primitives, and with one
they may be any. The references in code keep what they stand for exactly if none is captured. -/
theorem generate_keepsReferences_iff (hverify : verify schema = .ok ())
    (hlead : lead = "" ∨ isIdentifier lead = true) :
    (∀ name ∈ codeNames schema lead, isIdentifier name = true) ∧
      (codeNames schema lead).Nodup ∧
      (∃ files, generate schema .swift lead = .ok files ∧
        ∀ own ∈ schema.types.entries, ∃ file ∈ files, file.fileName = fileNameOf lead own.1 ∧
          ∀ t ∈ (Namer.ofSchema lead schema).codeTypes own.2, StandsIn t file.content) ∧
      (lead = "" → (NamesApart schema lead ↔
        ∀ name ∈ schema.types.names, name ∉ ["String", "Int", "Double", "Bool"])) ∧
      (KeepsReferences schema lead ↔
        ∀ own ∈ schema.types.entries, ∀ t ∈ typesOf own.2, ∀ reference ∈ references t,
          IsUncaptured (.ofSchema lead schema) own reference) := by
  obtain ⟨files, hfiles⟩ := render_succeeds hverify lead
  refine ⟨isIdentifier_of_mem_codeNames hverify hlead, nodup_codeNames schema lead,
    ⟨files, generate_of_render hverify hfiles, fun own => exists_file_standsIn hverify hfiles⟩, ?_,
    keepsReferences_iff_uncaptured hverify hlead⟩
  rintro rfl
  exact namesApart_iff_of_noLead hverify

end

def referringSchema (name type : String) : Schema :=
  { version := schemaVersion, provider := "shop"
    types := .ofList
      [(name, .struct
        { direction := .both, doc := none, fields := .ofList [("content", .ofType type)] })] }

/-- A struct that refers to itself and to a type from elsewhere keeps both references. -/
theorem generate_keepsReferences_referringSchema :
    verify (referringSchema "Item" "map[Price, list[Item]]?") = .ok () ∧
      isIdentifier "Shop" = true ∧
      KeepsReferences (referringSchema "Item" "map[Price, list[Item]]?") "Shop" := by
  have hverify : verify (referringSchema "Item" "map[Price, list[Item]]?") = .ok () := by
    decide +kernel
  have huncaptured : ∀ own ∈ (referringSchema "Item" "map[Price, list[Item]]?").types.entries,
      ∀ t ∈ typesOf own.2, ∀ reference ∈ references t,
        IsUncaptured (.ofSchema "Shop" (referringSchema "Item" "map[Price, list[Item]]?")) own
          reference := by
    decide +kernel
  have hlead : isIdentifier "Shop" = true := by decide
  obtain ⟨-, -, -, -, hkeeps⟩ := generate_keepsReferences_iff hverify (.inr hlead)
  exact ⟨hverify, hlead, hkeeps.mpr huncaptured⟩

/-- An accepted schema and a lead with which the names clash and a reference is captured. -/
structure CapturesReferences (schema : Schema) (lead : String) : Prop where
  accepted : verify schema = .ok ()
  allowed : lead = "" ∨ isIdentifier lead = true
  clashes : ¬ NamesApart schema lead
  captures : ¬ KeepsReferences schema lead

/-- A type with the name of a primitive, one that a lead gives a reserved name, and one that a lead
gives the name of a type from elsewhere. -/
theorem capturesReferences_referringSchemas :
    CapturesReferences (referringSchema "String" "string") "" ∧
      CapturesReferences (referringSchema "Value" "any") "JSON" ∧
      CapturesReferences (referringSchema "Item" "AppItem") "App" := by
  refine ⟨⟨?_, ?_, ?_, ?_⟩, ⟨?_, ?_, ?_, ?_⟩, ⟨?_, ?_, ?_, ?_⟩⟩ <;> decide +kernel

end WireSchema.Generation
