import WireSchema.Proofs.Extraction.Outline
import WireSchema.Proofs.Lookup
import WireSchema.Proofs.Swift.TypeMeaning

/-!
# Properties declared together

Several properties may be declared with one keyword and one type, which stands behind the last
of their names. The parser reads the names one by one, each with a type of its own or without
one; only the last has the type of the group.
-/

namespace WireSchema

namespace Swift

open Outcome (bind_eq_ok_iff)
open Text (isIdentifier)

/-- Stored properties that are declared together. -/
structure PropertyGroup where
  isLet : Bool
  /-- The names before the last one. -/
  earlier : List String
  last : String
  type : String
  areNames : ∀ name ∈ earlier ++ [last], isIdentifier name = true
  isDotted : IsDotted type.toList

namespace PropertyGroup

variable (group : PropertyGroup)

def names : List String :=
  group.earlier ++ [group.last]

def keyword : String :=
  if group.isLet then "let" else "var"

def faces : List Face :=
  .word group.keyword :: (group.earlier.flatMap (fun name => [.word name, .symbol ","]) ++
    .word group.last :: .symbol ":" :: typeFaces (.custom group.type))

def property (type : Option String) (name : String) : PropertyDecl :=
  { name, position := .start, docs := [], type, isStatic := false, isComputed := false
    isLet := group.isLet, hasInitializer := false }

def properties : List PropertyDecl :=
  group.earlier.map (group.property none) ++ [group.property (some group.type) group.last]

end PropertyGroup

/-! ## Reading a group -/

/-- Do the tokens start with a group, or end the body? -/
def StartsGroup (tokens : List Token) : Prop :=
  tokens.head?.any (fun token =>
    [Face.word "let", .word "var", .symbol "\x7d"].contains token.face) = true

/-- Before the next group a type ends, and so does a property. -/
theorem StartsGroup.ends {tokens : List Token} (h : StartsGroup tokens) :
    tokens.head?.all endsType = true ∧ wordNext tokens "\x7b" = false ∧
      passWord? "=" tokens = none ∧ passWord? "," tokens = none := by
  cases tokens with
  | nil => cases h
  | cons token later =>
    obtain ⟨kind, text, at_⟩ := token
    simp only [StartsGroup, List.head?_cons, Option.any_some, List.contains_iff_mem, Token.face,
      Face.word, Face.symbol, List.mem_cons, Prod.mk.injEq, List.not_mem_nil, or_false] at h
    rcases h with ⟨rfl, rfl⟩ | ⟨rfl, rfl⟩ | ⟨rfl, rfl⟩
    all_goals exact ⟨rfl, rfl, rfl, rfl⟩

/-- A name before a comma is read as a property without a type. -/
theorem readProperty_earlier {name : String} (hname : isIdentifier name = true) (isLet : Bool)
    (nameAt commaAt : Position) (rest : List Token) :
    readProperty ⟨[], [], false⟩ isLet ((Face.word name).token nameAt ::
        (Face.symbol ",").token commaAt :: rest) =
      .ok (some ⟨name, nameAt, [], none, false, false, isLet, false⟩,
        (Face.symbol ",").token commaAt :: rest) := by
  have hclause : readTypeClause ((Face.symbol ",").token commaAt :: rest) =
      .ok (none, (Face.symbol ",").token commaAt :: rest) := rfl
  have hblock : skipGroup "\x7b" "\x7d" ((Face.symbol ",").token commaAt :: rest) =
      .ok ((Face.symbol ",").token commaAt :: rest) := skipGroup_of_not_wordNext rfl
  exact readProperty_of_readTypeClause ⟨[], [], false⟩ isLet hname nameAt hclause rfl hblock

/-- The names of a group are read one by one, and the last with its type. -/
theorem readList_group (group : PropertyGroup) {earlier : List String}
    (hearlier : ∀ name ∈ earlier, isIdentifier name = true) {tokens rest : List Token}
    (htokens : tokens.map Token.face = earlier.flatMap (fun name => [.word name, .symbol ","]) ++
      .word group.last :: .symbol ":" :: typeFaces (.custom group.type))
    (hrest : StartsGroup rest)
    (hplain : group.type ∉ typePrefixes ∨ rest.head?.any startsType = false) :
    ∃ found : List PropertyDecl,
      found.map PropertyDecl.unplaced =
        earlier.map (group.property none) ++ [group.property (some group.type) group.last] ∧
      readList (readProperty ⟨[], [], false⟩ group.isLet)
        (readProperty_advances ⟨[], [], false⟩ group.isLet) (tokens ++ rest) =
          .ok (found.map some, rest) := by
  induction earlier generalizing tokens with
  | nil =>
    obtain ⟨hends, hbrace, hequals, hcomma⟩ := hrest.ends
    have hlast := group.areNames group.last (by simp)
    obtain ⟨nameAt, afterName, rfl, hafterName⟩ := map_face_eq_cons.mp htokens
    obtain ⟨colonAt, typeTokens, rfl, htypeTokens⟩ := map_face_eq_cons.mp hafterName
    have hstart : StartsPlainly (.custom group.type) rest :=
      hplain.imp_left fun hnot name hsame => by cases hsame; exact hnot
    have htype : readTypeText (typeTokens ++ rest) = .ok (group.type, rest) :=
      readTypeText_typeFaces (show IsWritable (.custom group.type) from group.isDotted)
        htypeTokens hends hstart
    have hproperty := readProperty_of_readTypeClause ⟨[], [], false⟩ group.isLet hlast nameAt
      (readTypeClause_colon colonAt htype) hequals (skipGroup_of_not_wordNext hbrace)
    have hcomputes : computesValue rest = false := by rw [computesValue, hbrace, Bool.false_and]
    rw [hcomputes] at hproperty
    refine ⟨[⟨group.last, nameAt, [], some group.type, false, false, group.isLet, false⟩], rfl, ?_⟩
    rw [List.cons_append, List.cons_append, readList_eq]
    refine bind_eq_ok_iff.mpr ⟨_, hproperty, ?_⟩
    dsimp only
    rw [hcomma]
    rfl
  | cons name earlier ih =>
    have hname := hearlier name List.mem_cons_self
    obtain ⟨nameAt, afterName, rfl, hafterName⟩ := map_face_eq_cons.mp htokens
    obtain ⟨commaAt, later, rfl, hlater⟩ := map_face_eq_cons.mp hafterName
    obtain ⟨found, hfound, hread⟩ :=
      ih (fun other hmem => hearlier other (List.mem_cons_of_mem _ hmem)) hlater
    refine ⟨⟨name, nameAt, [], none, false, false, group.isLet, false⟩ :: found, ?_, ?_⟩
    · rw [List.map_cons, hfound]
      rfl
    · rw [List.cons_append, List.cons_append, readList_eq]
      refine bind_eq_ok_iff.mpr ⟨_, readProperty_earlier hname group.isLet nameAt commaAt _, ?_⟩
      exact bind_eq_ok_iff.mpr ⟨_, hread, rfl⟩

/-- A group is read as its properties. -/
theorem nextBodyItem_group (group : PropertyGroup) {tokens rest : List Token}
    (htokens : tokens.map Token.face = group.faces) (hrest : StartsGroup rest)
    (hplain : group.type ∉ typePrefixes ∨ rest.head?.any startsType = false) :
    ∃ found : List PropertyDecl, found.map PropertyDecl.unplaced = group.properties ∧
      nextBodyItem (tokens ++ rest) = .ok (.members (found.map .property), rest) := by
  have hheaded : tokens.map Token.face = headingFaces [] false ++ group.faces := htokens
  have hkeyword : group.keyword ∉ "\x7d" :: "class" :: "@" :: "(" :: modifiers := by
    unfold PropertyGroup.keyword
    cases group.isLet <;> decide
  obtain ⟨at_, after, hafter, hitem⟩ := nextBodyItem_headingFaces hheaded hkeyword rest
  obtain ⟨found, hfound, hlist⟩ := readList_group group
    (fun name hmem => group.areNames name (List.mem_append_left _ hmem)) hafter hrest hplain
  have hproperties : readProperties ⟨[], [], false⟩ group.isLet (after ++ rest) =
      .ok (found, rest) := by
    refine bind_eq_ok_iff.mpr ⟨_, hlist, ?_⟩
    simp
    rfl
  refine ⟨found, hfound, ?_⟩
  rw [hitem]
  unfold PropertyGroup.keyword
  cases hlet : group.isLet with
  | true =>
    rw [hlet] at hproperties
    exact bind_eq_ok_iff.mpr ⟨_, hproperties, rfl⟩
  | false =>
    rw [hlet] at hproperties
    exact bind_eq_ok_iff.mpr ⟨_, hproperties, rfl⟩

/-- Only the type of the last group may be named as a word that stands in front of types, since
the next group would be taken for that type. -/
def PlainGroups (groups : List PropertyGroup) : Prop :=
  ∀ group ∈ groups.dropLast, group.type ∉ typePrefixes

theorem closesBody_groups {groups : List PropertyGroup} (hplain : PlainGroups groups) :
    ClosesBody (groups.flatMap PropertyGroup.faces)
      ⟨groups.flatMap PropertyGroup.properties, [], [], []⟩ := by
  induction groups with
  | nil =>
    intro tokens htokens at_ rest
    cases List.map_eq_nil_iff.mp htokens
    exact ⟨[], rfl, readBody_close at_ rest⟩
  | cons group later ih =>
    intro tokens htokens at_ rest
    obtain ⟨first, more, rfl, hfirst, hmore⟩ := map_face_eq_append.mp htokens
    have hlater : PlainGroups later := by
      intro other hmem
      cases later with
      | nil => cases hmem
      | cons next later => exact hplain other (List.mem_cons_of_mem _ hmem)
    obtain ⟨members, houtline, hread⟩ := ih hlater hmore at_ rest
    have hstart : StartsGroup (more ++ (Face.symbol "\x7d").token at_ :: rest) ∧
        (group.type ∉ typePrefixes ∨
          (more ++ (Face.symbol "\x7d").token at_ :: rest).head?.any startsType = false) := by
      cases later with
      | nil =>
        cases List.map_eq_nil_iff.mp hmore
        exact ⟨rfl, .inr rfl⟩
      | cons next later =>
        refine ⟨?_, .inl (hplain group List.mem_cons_self)⟩
        obtain ⟨keywordAt, tail, rfl, -⟩ := map_face_eq_cons.mp hmore
        unfold StartsGroup PropertyGroup.keyword
        cases next.isLet <;> rfl
    obtain ⟨found, hfound, hitem⟩ := nextBodyItem_group group hfirst hstart.1 hstart.2
    refine ⟨found.map .property ++ members, ?_, ?_⟩
    · rw [outline_append, outline_map_property, hfound, houtline]
      rfl
    · rw [List.append_assoc, readBody_eq]
      refine bind_eq_ok_iff.mpr ⟨_, hitem, ?_⟩
      exact bind_eq_ok_iff.mpr ⟨_, hread, rfl⟩

def groupedStructFaces (docs : List String) (isPublic : Bool) (name : String)
    (clause : List Composition) (groups : List PropertyGroup) : List Face :=
  headingFaces docs isPublic ++ declFaces "struct" name (clause.map Composition.faces)
    (groups.flatMap PropertyGroup.faces)

/-- The struct is read with all properties of its groups. -/
theorem parse_groupedStruct {docs : List String} {isPublic : Bool} {name : String}
    {clause : List Composition} {groups : List PropertyGroup} (hplain : PlainGroups groups)
    {text : String}
    (htext : Lexes text.toList (groupedStructFaces docs isPublic name clause groups)) :
    ∃ decl : TypeDecl, parse text = .ok [.type decl] ∧
      (Decl.type decl).outline =
        .type ⟨.struct, name, .start, docs, [], false, clause.map Composition.text⟩
          ⟨groups.flatMap PropertyGroup.properties, [], [], []⟩ := by
  have hstruct : DeclKind.struct ≠ .classType := by decide
  have hreads : ReadsSource (groupedStructFaces docs isPublic name clause groups)
      [.type ⟨.struct, name, .start, docs, [], false, clause.map Composition.text⟩
        ⟨groups.flatMap PropertyGroup.properties, [], [], []⟩] :=
    readsSource_typeDecl docs isPublic name hstruct
      (fun entry _ => readsEntry_composition entry) (closesBody_groups hplain)
  obtain ⟨decls, hparse, houtlines⟩ := parse_of_readsWhole htext hreads.whole
  obtain ⟨decl, later, rfl, houtline, hlater⟩ := List.map_eq_cons_iff.mp houtlines
  cases List.map_eq_nil_iff.mp hlater
  cases decl with
  | type decl => exact ⟨decl, hparse, houtline⟩
  | extension | typealias => cases houtline

end Swift

namespace Extraction

open Swift

/-! ## Fields -/

variable {groups : List PropertyGroup} {name : String}

def groupField (group : PropertyGroup) : String × FieldDef :=
  (group.last, FieldDef.ofType (nameMeaning group.type).text)

def earlierNames (groups : List PropertyGroup) : List String :=
  groups.flatMap PropertyGroup.earlier

theorem readType_groupType (group : PropertyGroup) :
    readType group.type = .ok (nameMeaning group.type) :=
  readType_of_isWritable (t := .custom group.type) group.isDotted

/-- A name before the last one is left out with a warning. -/
theorem lowerProperty_earlier (name : String) (group : PropertyGroup) (other : String) :
    lowerProperty name none (group.property none other) =
      ⟨[.missingType name other], .ok none⟩ := by
  unfold lowerProperty
  rw [if_neg (by simp [isStored, PropertyGroup.property])]
  rfl

theorem lowerProperty_last (name : String) (group : PropertyGroup) :
    lowerProperty name none (group.property (some group.type) group.last) =
      pure (some (groupField group)) :=
  lowerProperty_stored name (by simp [isStored, PropertyGroup.property]) rfl rfl
    (readType_groupType group)

def propertyField? (property : PropertyDecl) : Option (String × FieldDef) :=
  property.type.map fun type => (property.name, FieldDef.ofType (nameMeaning type).text)

theorem result_lowerProperty (name : String) (group : PropertyGroup) :
    ∀ property ∈ group.properties,
      (lowerProperty name none property).result = .ok (propertyField? property) := by
  intro property hmem
  rcases List.mem_append.mp hmem with hearlier | hlast
  · obtain ⟨other, -, rfl⟩ := List.mem_map.mp hearlier
    rw [lowerProperty_earlier]
    rfl
  · rw [List.mem_singleton.mp hlast, lowerProperty_last]
    rfl

theorem log_properties (name : String) (group : PropertyGroup) :
    group.properties.flatMap (fun property => (lowerProperty name none property).log) =
      group.earlier.map (.missingType name) := by
  have hearlier : (group.earlier.map (group.property none)).flatMap
      (fun property => (lowerProperty name none property).log) =
        group.earlier.map (.missingType name) := by
    rw [List.flatMap_map, List.map_eq_flatMap]
    simp only [lowerProperty_earlier]
  rw [PropertyGroup.properties, List.flatMap_append, hearlier, List.flatMap_singleton,
    lowerProperty_last]
  simp

theorem fields_properties (group : PropertyGroup) :
    group.properties.filterMap propertyField? = [groupField group] := by
  have hearlier : (group.earlier.map (group.property none)).filterMap propertyField? = [] := by
    simp [propertyField?, PropertyGroup.property]
  rw [PropertyGroup.properties, List.filterMap_append, hearlier]
  rfl

/-- Of the properties of each group the last becomes a field, and there is a warning for each
of the others. -/
theorem collect_groups (name : String) (groups : List PropertyGroup) :
    Logged.collect (lowerProperty name none) (groups.flatMap PropertyGroup.properties) =
      ⟨(earlierNames groups).map (.missingType name), .ok (groups.map groupField)⟩ := by
  have hresults : ∀ property ∈ groups.flatMap PropertyGroup.properties,
      (lowerProperty name none property).result = .ok (propertyField? property) := by
    intro property hmem
    obtain ⟨group, -, hproperty⟩ := List.mem_flatMap.mp hmem
    exact result_lowerProperty name group property hproperty
  rw [Logged.collect_of_result hresults, List.flatMap_assoc, List.filterMap_flatMap]
  simp only [log_properties, fields_properties, earlierNames, List.map_flatMap]
  simp [List.map_eq_flatMap]

/-! ## Names -/

theorem map_last_sublist (groups : List PropertyGroup) :
    (groups.map PropertyGroup.last).Sublist (groups.flatMap PropertyGroup.names) := by
  induction groups with
  | nil => exact .slnil
  | cons group later ih =>
    have hlast : [group.last].Sublist group.names := List.sublist_append_right _ _
    exact hlast.append ih

/-- Where all names are distinct, none is both before a last name and a last name. -/
theorem notMem_map_last (hnames : (groups.flatMap PropertyGroup.names).Nodup) :
    ∀ other ∈ earlierNames groups, other ∉ groups.map PropertyGroup.last := by
  induction groups with
  | nil => simp [earlierNames]
  | cons group later ih =>
    rw [List.flatMap_cons, List.nodup_append] at hnames
    obtain ⟨hgroup, hlater, hdisjoint⟩ := hnames
    have hown := (List.nodup_append.mp hgroup).2.2
    intro other hother hlast
    rcases List.mem_append.mp hother with hearlier | hearlier
    · rcases List.mem_cons.mp hlast with rfl | hlast
      · exact hown _ hearlier _ (List.mem_singleton_self _) rfl
      · exact hdisjoint other (List.mem_append_left _ hearlier) other
          ((map_last_sublist later).subset hlast) rfl
    · have hmem : other ∈ later.flatMap PropertyGroup.names := by
        obtain ⟨group', hgroup', hname⟩ := List.mem_flatMap.mp hearlier
        exact List.mem_flatMap.mpr ⟨group', hgroup', List.mem_append_left _ hname⟩
      rcases List.mem_cons.mp hlast with rfl | hlast
      · exact hdisjoint _ (List.mem_append_right _ (List.mem_singleton_self _)) _ hmem rfl
      · exact ih hlater other hearlier hlast

def groupFields (groups : List PropertyGroup) : NameMap FieldDef :=
  .ofList (groups.map groupField)

theorem get?_groupFields (hnames : (groups.flatMap PropertyGroup.names).Nodup) {name : String}
    {field : FieldDef} :
    (groupFields groups).get? name = some field ↔ ∃ group ∈ groups, group.last = name ∧
      ∃ t, readType group.type = .ok t ∧ field = FieldDef.ofType t.text := by
  have hlasts : ((groups.map groupField).map Prod.fst).Nodup := by
    rw [List.map_map]
    exact hnames.sublist (map_last_sublist groups)
  rw [groupFields, NameMap.get?_ofList hlasts, List.mem_map]
  constructor
  · rintro ⟨group, hgroup, hfield⟩
    cases hfield
    exact ⟨group, hgroup, rfl, _, readType_groupType group, rfl⟩
  · rintro ⟨group, hgroup, rfl, t, hread, rfl⟩
    cases Except.ok.inj (hread.symm.trans (readType_groupType group))
    exact ⟨group, hgroup, rfl⟩

theorem contains_groupFields {name : String} :
    (groupFields groups).contains name = true ↔ name ∈ groups.map PropertyGroup.last := by
  rw [groupFields, NameMap.contains_ofList, List.map_map]
  rfl

/-- All names of the groups are fields exactly if every group has one name. -/
theorem forall_contains_groupFields (hnames : (groups.flatMap PropertyGroup.names).Nodup) :
    (∀ name ∈ groups.flatMap PropertyGroup.names, (groupFields groups).contains name = true) ↔
      ∀ group ∈ groups, group.earlier = [] := by
  constructor
  · intro hall group hgroup
    by_contra hne
    obtain ⟨other, later, hearlier⟩ := List.exists_cons_of_ne_nil hne
    have hmem : other ∈ group.earlier := by rw [hearlier]; exact List.mem_cons_self
    have hfield := hall other
      (List.mem_flatMap.mpr ⟨group, hgroup, List.mem_append_left _ hmem⟩)
    exact notMem_map_last hnames other (List.mem_flatMap.mpr ⟨group, hgroup, hmem⟩)
      (contains_groupFields.mp hfield)
  · intro hsingle name hname
    obtain ⟨group, hgroup, hmem⟩ := List.mem_flatMap.mp hname
    rw [PropertyGroup.names, hsingle group hgroup, List.nil_append, List.mem_singleton] at hmem
    subst hmem
    exact contains_groupFields.mpr (List.mem_map_of_mem hgroup)

/-! ## The struct -/

/-- What a struct with the groups as its members is lowered to. -/
theorem lowerStruct_groups {ctx : TypeContext}
    (hmembers : outline ctx.decl.members = ⟨groups.flatMap PropertyGroup.properties, [], [], []⟩) :
    lowerStruct ctx = ⟨(earlierNames groups).map (.missingType ctx.decl.name),
      .ok (.struct ⟨ctx.direction, joinDocs ctx.decl.docs, groupFields groups⟩)⟩ := by
  rw [lowerStruct_eq hmembers]
  show (Logged.collect (lowerProperty ctx.decl.name none)
    (groups.flatMap PropertyGroup.properties) >>= _) = _
  rw [collect_groups, Logged.bind_of_ok]
  simp
  rfl

/-- A struct whose members are groups of stored properties is extracted with the last name of each
group as a field of the type of the group. Of all other names there is no more than a warning, also
where extraction is strict, so no name is lost exactly if every group has one name. -/
theorem extractDecl_groupedStruct {docs : List String} {isPublic : Bool} {name : String}
    {clause : List Composition} {groups : List PropertyGroup} {text : String}
    (htext : Lexes text.toList (groupedStructFaces docs isPublic name clause groups))
    (hnames : (groups.flatMap PropertyGroup.names).Nodup) (hplain : PlainGroups groups) :
    ∃ decl, parse text = .ok [decl] ∧ ∀ (options : Options) (extensions : List ExtensionDecl),
      ∃ definition : StructDef,
        extractDecl options extensions decl =
          ⟨(earlierNames groups).map (.missingType name),
            .ok (some (name, .struct definition))⟩ ∧
        (∀ field t, definition.fields.get? field = some t ↔ ∃ group ∈ groups,
          group.last = field ∧ ∃ type, readType group.type = .ok type ∧
            t = FieldDef.ofType type.text) ∧
        ((∀ field ∈ groups.flatMap PropertyGroup.names, definition.fields.contains field = true) ↔
          ∀ group ∈ groups, group.earlier = []) := by
  obtain ⟨decl, hparse, houtline⟩ := parse_groupedStruct hplain htext
  obtain ⟨hheader, hmembers⟩ := DeclOutline.type.inj houtline
  refine ⟨.type decl, hparse, fun options extensions => ?_⟩
  have hname : decl.name = name := congrArg TypeHeader.name hheader
  have hkind : decl.kind = .struct := congrArg TypeHeader.kind hheader
  have hgeneric : decl.isGeneric = false := congrArg TypeHeader.isGeneric hheader
  let ctx : TypeContext := ⟨decl, extensionsNamed extensions decl.name⟩
  have hlowered : lowerStruct ctx = ⟨(earlierNames groups).map (.missingType decl.name),
      .ok (.struct ⟨ctx.direction, joinDocs decl.docs, groupFields groups⟩)⟩ :=
    lowerStruct_groups hmembers
  have hlower : lowerDecl options.fallbackCase extensions (.type decl) =
      some (decl.name, lowerStruct ctx) := by
    rw [lowerDecl, lowerType, hgeneric, hkind]
    rfl
  rw [hlowered, hname] at hlower
  exact ⟨_, extractDecl_of_lowerDecl hlower, fun field t => get?_groupFields hnames,
    forall_contains_groupFields hnames⟩

theorem extractDecl_groupedStruct_shelf :
    let text := "struct Shelf: Row & Codable \x7b let width, height: Int\nvar label: Tag\n\x7d"
    ∃ decl, parse text = .ok [decl] ∧ ∀ (options : Options) (extensions : List ExtensionDecl),
      ∃ definition : StructDef,
        extractDecl options extensions decl =
          ⟨[.missingType "Shelf" "width"], .ok (some ("Shelf", .struct definition))⟩ ∧
        definition.fields.get? "height" = some (FieldDef.ofType "int") ∧
        definition.fields.get? "label" = some (FieldDef.ofType "Tag") ∧
        definition.fields.get? "width" = none := by
  intro text
  let groups : List PropertyGroup := [⟨true, ["width"], "height", "Int", by decide, by decide⟩,
    ⟨false, [], "label", "Tag", by decide, by decide⟩]
  let clause : List Composition := [⟨["Row", "Codable"], by decide, by decide⟩]
  have htext : Lexes text.toList (groupedStructFaces [] false "Shelf" clause groups) := by
    unfold Lexes
    decide +kernel
  have hnames : (groups.flatMap PropertyGroup.names).Nodup := by decide
  have hplain : PlainGroups groups := by
    unfold PlainGroups
    decide
  obtain ⟨decl, hparse, hextract⟩ := extractDecl_groupedStruct htext hnames hplain
  refine ⟨decl, hparse, fun options extensions => ?_⟩
  obtain ⟨definition, hdefinition, hfields, -⟩ := hextract options extensions
  have hheight := (hfields "height" (FieldDef.ofType "int")).mpr
    ⟨groups[0], by simp, rfl, .primitive .int, by decide +kernel, rfl⟩
  have hlabel := (hfields "label" (FieldDef.ofType "Tag")).mpr
    ⟨groups[1], by simp, rfl, .custom "Tag", by decide +kernel, rfl⟩
  have hwidth : definition.fields.get? "width" = none := by
    cases hget : definition.fields.get? "width" with
    | none => rfl
    | some t =>
      have hnone : ∀ group ∈ groups, group.last ≠ "width" := by decide
      obtain ⟨group, hgroup, hlast, -⟩ := (hfields "width" t).mp hget
      exact absurd hlast (hnone group hgroup)
  exact ⟨definition, hdefinition, hheight, hlabel, hwidth⟩

/-- Of two constants that share their type the first is no field. -/
theorem extractDecl_groupedStruct_pair :
    let options : Options := ⟨"", "futureProof", .strict⟩
    let run := (parse "struct Pair \x7b let a, b: Int \x7d").map
      fun decls => declarations options [decls]
    run.map Logged.log = .ok [.missingType "Pair" "a"] ∧
      run.map Logged.result = .ok (.ok [("Pair", .struct
        ⟨.both, none, .ofList [("b", FieldDef.ofType "int")]⟩)]) ∧
      run.map Logged.result ≠ .ok (.ok [("Pair", .struct
        ⟨.both, none, .ofList [("a", FieldDef.ofType "int"), ("b", FieldDef.ofType "int")]⟩)]) := by
  decide +kernel

end Extraction

end WireSchema
