import WireSchema.Proofs.Swift.Lexing
import WireSchema.Swift.Parser.Source

/-!
# Names taken from a source

The tokenizer makes name tokens of identifiers only, and every reader takes the names
of what it declares from name tokens. So all names in the declarations of a source are
identifiers. What a reader leaves is a suffix of what it was given, hence the property
of the tokens goes along from reader to reader.
-/

namespace WireSchema.Swift

open Text (isIdentStart isIdentRest isIdentChars isIdentifier)
open Outcome (bind_eq_ok_iff)

/-! ## Tokens -/

theorem isIdentChars_take {cs : List Char} {n : Nat} (h : nameLength? cs = some n) :
    isIdentChars (cs.take n) = true := by
  cases cs with
  | nil => cases h
  | cons c rest =>
    rw [nameLength?] at h
    by_cases hstart : isIdentStart c = true
    · rw [if_pos hstart] at h
      cases h
      rw [Nat.add_comm, List.take_succ_cons, take_runLength, isIdentChars, hstart, Bool.true_and]
      exact List.all_takeWhile
    · rw [if_neg hstart] at h
      cases h

theorem isIdentChars_backticked {cs : List Char} {n : Nat}
    (h : headedLength? ['\x60'] backtickedLength? cs = some n) :
    isIdentChars ((cs.take n).filter (· != '\x60')) = true := by
  cases cs with
  | nil => cases h
  | cons tick rest =>
    by_cases htick : tick = '\x60'
    · subst htick
      rw [show '\x60' :: rest = ['\x60'] ++ rest from rfl, headedLength?_append] at h
      obtain ⟨m, hm, rfl⟩ := Option.map_eq_some_iff.mp h
      obtain ⟨k, hname, hclose⟩ := Option.bind_eq_some_iff.mp hm
      by_cases htail : (rest.drop k).head? == some '\x60'
      · rw [if_pos htail] at hclose
        cases hclose
        have htake : rest.take (k + 1) = rest.take k ++ ['\x60'] := by
          rw [List.take_add_one, ← List.head?_drop, beq_iff_eq.mp htail]
          rfl
        rw [List.length_singleton, Nat.add_comm, List.take_succ_cons, htake,
          filter_backtick (isIdentChars_take hname)]
        exact isIdentChars_take hname
      · rw [if_neg htail] at hclose
        cases hclose
    · rw [headedLength?_of_ne (Ne.symm htick)] at h
      cases h

/-- Is the lexeme an identifier if it makes a name token? -/
def Lexeme.NamesIdentify (lexeme : Lexeme) : Prop :=
  ∀ chars, lexeme.content? = some (.identifier, chars) → isIdentChars chars = true

theorem lexeme_namesIdentify {cs : List Char} {kind : LexemeKind} {n : Nat}
    (h : lexemeAt? cs = some (kind, n)) : Lexeme.NamesIdentify ⟨kind, cs.take n⟩ := by
  obtain ⟨rule, hmem, hrule⟩ := List.exists_of_findSome?_eq_some h
  obtain ⟨m, hm, hpair⟩ := Option.map_eq_some_iff.mp hrule
  cases hpair
  intro chars hcontent
  simp only [lexemeRules, List.mem_cons, List.not_mem_nil, or_false] at hmem
  rcases hmem with rfl | rfl | rfl | rfl | rfl | rfl | rfl | rfl | rfl | rfl | rfl | rfl
  case inr.inr.inr.inr.inr.inr.inl =>
    cases hcontent
    exact isIdentChars_backticked hm
  case inr.inr.inr.inr.inr.inr.inr.inl =>
    cases hcontent
    exact isIdentChars_take hm
  -- No other kind of lexeme makes a name token.
  all_goals
    simp only [Lexeme.content?, Option.some.injEq, Prod.mk.injEq, reduceCtorEq, false_and] at hcontent
    try
      obtain ⟨hkind, -⟩ := hcontent
      split at hkind <;> cases hkind

theorem splitLexemes_namesIdentify (cs : List Char) :
    ∀ lexeme ∈ (splitLexemes cs).1, lexeme.NamesIdentify := by
  fun_induction splitLexemes cs with
  | case1 cs kind n hat lexemes rest hsplit ih =>
    intro lexeme hmem
    rcases List.mem_cons.mp hmem with rfl | hlater
    · exact lexeme_namesIdentify hat
    · rw [hsplit] at ih
      exact ih lexeme hlater
  | case2 => simp

def NamesIdentify (tokens : List Token) : Prop :=
  ∀ token ∈ tokens, token.isIdentifier = true → isIdentifier token.text = true

theorem NamesIdentify.of_suffix {tokens rest : List Token} (h : NamesIdentify tokens)
    (hsuffix : rest <:+ tokens) : NamesIdentify rest :=
  fun token hmem => h token (hsuffix.subset hmem)

theorem placeLexemes_namesIdentify {lexemes : List Lexeme}
    (h : ∀ lexeme ∈ lexemes, lexeme.NamesIdentify) (at_ : Position) :
    NamesIdentify (placeLexemes at_ lexemes).1 := by
  induction lexemes generalizing at_ with
  | nil => exact fun token hmem => absurd hmem List.not_mem_nil
  | cons lexeme later ih =>
    intro token hmem hname
    rcases List.mem_append.mp hmem with hfirst | hlater
    · obtain ⟨⟨kind, chars⟩, hcontent, rfl⟩ :=
        Option.map_eq_some_iff.mp (Option.mem_toList.mp hfirst)
      have hkind : kind = .identifier := by simpa [Token.isIdentifier] using hname
      subst hkind
      have hchars := h lexeme List.mem_cons_self chars hcontent
      simpa [isIdentifier] using hchars
    · exact ih (fun other hother => h other (List.mem_cons_of_mem _ hother)) _ token hlater hname

theorem tokenize_namesIdentify {text : String} {stream : TokenStream}
    (h : tokenize text = .ok stream) : NamesIdentify stream.tokens := by
  unfold tokenize at h
  dsimp only at h
  split at h
  · cases h
    exact placeLexemes_namesIdentify (splitLexemes_namesIdentify text.toList) .start
  · cases h

/-! ## Members -/

def AssociatedValue.NamesIdentify (value : AssociatedValue) : Prop :=
  ∀ label ∈ value.label, isIdentifier label = true

structure EnumCase.NamesIdentify (case_ : EnumCase) : Prop where
  name : isIdentifier case_.name = true
  labels : ∀ value ∈ case_.associated, value.NamesIdentify

def Member.NamesIdentify : Member → Prop
  | .property decl => isIdentifier decl.name = true
  | .cases introduced => ∀ case_ ∈ introduced, case_.NamesIdentify
  | _ => True

section

variable {tokens rest : List Token} (htokens : NamesIdentify tokens)

include htokens

theorem readIdentifier_namesIdentify {name : Token}
    (h : readIdentifier tokens = .ok (name, rest)) : isIdentifier name.text = true := by
  cases tokens with
  | nil => cases h
  | cons token after =>
    rw [readIdentifier] at h
    by_cases hname : token.isIdentifier
    · rw [if_pos hname] at h
      cases h
      exact htokens _ List.mem_cons_self hname
    · rw [if_neg hname] at h
      cases h

theorem readList_namesIdentify {α : Type} {read : Reader α} (advances : Advances read)
    {P : α → Prop}
    (hread : ∀ {tokens value rest}, NamesIdentify tokens → read tokens = .ok (value, rest) → P value)
    {values : List α} (h : readList read advances tokens = .ok (values, rest)) :
    ∀ value ∈ values, P value := by
  induction hlength : tokens.length using Nat.strongRecOn generalizing tokens values with
  | ind n ih =>
    rw [readList_eq] at h
    obtain ⟨⟨value, after⟩, hvalue, h⟩ := bind_eq_ok_iff.mp h
    have hfirst := hread htokens hvalue
    dsimp only at h
    split at h
    · cases h
      simpa using hfirst
    · next more hcomma =>
      obtain ⟨⟨others, rest'⟩, hmore, h⟩ := bind_eq_ok_iff.mp h
      cases h
      have hproper := (passWord?_properSuffix hcomma).trans (advances hvalue)
      have hothers := ih more.length (hlength ▸ hproper.shorter)
        (htokens.of_suffix hproper.suffix) hmore rfl
      intro other hmem
      rcases List.mem_cons.mp hmem with rfl | hlater
      · exact hfirst
      · exact hothers other hlater

theorem splitLabel_namesIdentify : ∀ label ∈ (splitLabel tokens).1, isIdentifier label = true := by
  fun_cases splitLabel tokens with
  | case1 first second rest hlabel =>
    simp only [Bool.and_eq_true] at hlabel
    simpa using htokens first List.mem_cons_self hlabel.1
  | case2 first second rest _ hlabel =>
    simp only [Bool.and_eq_true] at hlabel
    simpa using htokens first List.mem_cons_self hlabel.1.1
  | case3 => simp
  | case4 => simp

theorem readAssociatedValue_namesIdentify {value : AssociatedValue}
    (h : readAssociatedValue tokens = .ok (value, rest)) : value.NamesIdentify := by
  obtain ⟨⟨type, afterType⟩, htype, h⟩ := bind_eq_ok_iff.mp h
  cases h
  intro label hlabel
  exact splitLabel_namesIdentify htokens label (Option.filter_eq_some_iff.mp hlabel).1

theorem readPayload_namesIdentify {values : List AssociatedValue}
    (h : readPayload tokens = .ok (values, rest)) : ∀ value ∈ values, value.NamesIdentify := by
  unfold readPayload at h
  split at h
  · cases h
    simp
  · next inside hopen =>
    split at h
    · cases h
      simp
    · obtain ⟨⟨found, afterValues⟩, hvalues, h⟩ := bind_eq_ok_iff.mp h
      obtain ⟨⟨close, after⟩, hclose, h⟩ := bind_eq_ok_iff.mp h
      cases h
      exact readList_namesIdentify (htokens.of_suffix (passWord?_properSuffix hopen).suffix)
        readAssociatedValue_advances (fun hnames h => readAssociatedValue_namesIdentify hnames h)
        hvalues

theorem readCase_namesIdentify {docs : List String} {case_ : EnumCase}
    (h : readCase docs tokens = .ok (case_, rest)) : case_.NamesIdentify := by
  obtain ⟨⟨name, afterName⟩, hname, h⟩ := bind_eq_ok_iff.mp h
  obtain ⟨⟨associated, afterPayload⟩, hpayload, h⟩ := bind_eq_ok_iff.mp h
  cases h
  have hafter := htokens.of_suffix (readIdentifier_advances hname).suffix
  exact ⟨readIdentifier_namesIdentify htokens hname, readPayload_namesIdentify hafter hpayload⟩

theorem readNamedProperty_namesIdentify {heading : Heading} {isLet : Bool}
    {property : PropertyDecl} (h : readNamedProperty heading isLet tokens = .ok (property, rest)) :
    isIdentifier property.name = true := by
  obtain ⟨⟨name, afterName⟩, hname, h⟩ := bind_eq_ok_iff.mp h
  obtain ⟨⟨type, afterType⟩, htype, h⟩ := bind_eq_ok_iff.mp h
  obtain ⟨after, hblock, h⟩ := bind_eq_ok_iff.mp h
  cases h
  exact readIdentifier_namesIdentify htokens hname

theorem readProperty_namesIdentify {heading : Heading} {isLet : Bool}
    {property? : Option PropertyDecl}
    (h : readProperty heading isLet tokens = .ok (property?, rest)) :
    ∀ property ∈ property?, isIdentifier property.name = true := by
  unfold readProperty at h
  split at h
  · obtain ⟨after, -, h⟩ := bind_eq_ok_iff.mp h
    cases h
    simp
  · obtain ⟨⟨found, after⟩, hproperty, h⟩ := bind_eq_ok_iff.mp h
    cases h
    simpa using readNamedProperty_namesIdentify htokens hproperty

theorem readProperties_namesIdentify {heading : Heading} {isLet : Bool}
    {properties : List PropertyDecl}
    (h : readProperties heading isLet tokens = .ok (properties, rest)) :
    ∀ property ∈ properties, isIdentifier property.name = true := by
  obtain ⟨⟨found, after⟩, hlist, h⟩ := bind_eq_ok_iff.mp h
  cases h
  intro property hmem
  obtain ⟨property?, hfound, rfl⟩ := List.mem_filterMap.mp hmem
  have hproperties := readList_namesIdentify htokens (readProperty_advances heading isLet)
    (P := fun property? => ∀ property ∈ property?, isIdentifier property.name = true)
    (fun hnames h => readProperty_namesIdentify hnames h) hlist
  exact hproperties _ hfound _ rfl

theorem readTypeHeader_namesIdentify {heading : Heading} {kind : DeclKind} {header : TypeHeader}
    (h : readTypeHeader heading kind tokens = .ok (header, rest)) :
    isIdentifier header.name = true := by
  obtain ⟨⟨name, afterName⟩, hname, h⟩ := bind_eq_ok_iff.mp h
  obtain ⟨afterGenerics, hgenerics, h⟩ := bind_eq_ok_iff.mp h
  obtain ⟨⟨inherited, body⟩, hbody, h⟩ := bind_eq_ok_iff.mp h
  cases h
  exact readIdentifier_namesIdentify htokens hname

theorem readTypealias_namesIdentify {heading : Heading} {decl : AliasDecl}
    (h : readTypealias heading tokens = .ok (decl, rest)) : isIdentifier decl.name = true := by
  obtain ⟨⟨name, afterName⟩, hname, h⟩ := bind_eq_ok_iff.mp h
  obtain ⟨afterGenerics, hgenerics, h⟩ := bind_eq_ok_iff.mp h
  obtain ⟨⟨equals, afterEquals⟩, hequals, h⟩ := bind_eq_ok_iff.mp h
  obtain ⟨⟨target, afterTarget⟩, htarget, h⟩ := bind_eq_ok_iff.mp h
  cases h
  exact readIdentifier_namesIdentify htokens hname

/-! ## Bodies -/

def BodyItem.NamesIdentify : BodyItem → Prop
  | .members found => ∀ member ∈ found, member.NamesIdentify
  | _ => True

theorem readKeywordItem_namesIdentify {heading : Heading} {token : Token} {item : BodyItem}
    (h : readKeywordItem heading token tokens = .ok (item, rest)) : item.NamesIdentify := by
  unfold readKeywordItem at h
  split at h
  · obtain ⟨⟨cases', rest'⟩, hcases, h⟩ := bind_eq_ok_iff.mp h
    cases h
    intro member hmember
    cases List.mem_singleton.mp hmember
    exact readList_namesIdentify htokens (readCase_advances heading.docs)
      (fun hnames h => readCase_namesIdentify hnames h) hcases
  split at h
  · obtain ⟨⟨properties, rest'⟩, hproperties, h⟩ := bind_eq_ok_iff.mp h
    cases h
    intro member hmember
    obtain ⟨property, hproperty, rfl⟩ := List.mem_map.mp hmember
    exact readProperties_namesIdentify htokens hproperties property hproperty
  split at h
  · obtain ⟨⟨function, rest'⟩, -, h⟩ := bind_eq_ok_iff.mp h
    cases h
    simp [BodyItem.NamesIdentify, Member.NamesIdentify]
  split at h
  · obtain ⟨⟨function, rest'⟩, -, h⟩ := bind_eq_ok_iff.mp h
    cases h
    simp [BodyItem.NamesIdentify]
  split at h
  · obtain ⟨⟨decl, rest'⟩, -, h⟩ := bind_eq_ok_iff.mp h
    cases h
    simp [BodyItem.NamesIdentify, Member.NamesIdentify]
  split at h
  · obtain ⟨⟨header, rest'⟩, -, h⟩ := bind_eq_ok_iff.mp h
    cases h
    trivial
  split at h
  · obtain ⟨⟨header, rest'⟩, -, h⟩ := bind_eq_ok_iff.mp h
    cases h
    trivial
  · cases h
    simp [BodyItem.NamesIdentify]

theorem nextBodyItem_namesIdentify {item : BodyItem} (h : nextBodyItem tokens = .ok (item, rest)) :
    item.NamesIdentify := by
  obtain ⟨⟨heading, afterHeading⟩, hheading, h⟩ := bind_eq_ok_iff.mp h
  cases afterHeading with
  | nil => cases h
  | cons token after =>
    have hafter : NamesIdentify after := htokens.of_suffix
      ((List.suffix_cons token after).trans (readHeading_suffix hheading))
    dsimp only at h
    unfold readBodyItem at h
    split at h
    · cases h
      trivial
    split at h
    · exact readKeywordItem_namesIdentify hafter h
    · cases h
      simp [BodyItem.NamesIdentify]

theorem readBody_namesIdentify {members : List Member} (h : readBody tokens = .ok (members, rest)) :
    ∀ member ∈ members, member.NamesIdentify := by
  induction hlength : tokens.length using Nat.strongRecOn generalizing tokens members rest with
  | ind n ih =>
    rw [readBody_eq] at h
    obtain ⟨⟨item, afterItem⟩, hitem, h⟩ := bind_eq_ok_iff.mp h
    have hnames := nextBodyItem_namesIdentify htokens hitem
    have hproper := nextBodyItem_advances hitem
    have hafter := htokens.of_suffix hproper.suffix
    have hshort : afterItem.length < n := hlength ▸ hproper.shorter
    cases item with
    | close =>
      cases h
      simp
    | members found =>
      obtain ⟨⟨later, rest'⟩, hlater, h⟩ := bind_eq_ok_iff.mp h
      cases h
      intro member hmember
      rcases List.mem_append.mp hmember with hfirst | hrest
      · exact hnames member hfirst
      · exact ih _ hshort hafter hlater rfl member hrest
    | type header =>
      obtain ⟨⟨inner, afterBody⟩, hinner, h⟩ := bind_eq_ok_iff.mp h
      obtain ⟨⟨later, rest'⟩, hlater, h⟩ := bind_eq_ok_iff.mp h
      cases h
      have hbody := readBody_advances hinner
      intro member hmember
      rcases List.mem_cons.mp hmember with rfl | hrest
      · trivial
      · exact ih _ (Nat.lt_trans hbody.shorter hshort) (hafter.of_suffix hbody.suffix) hlater rfl member
          hrest
    | extension =>
      obtain ⟨⟨inner, afterBody⟩, hinner, h⟩ := bind_eq_ok_iff.mp h
      obtain ⟨⟨later, rest'⟩, hlater, h⟩ := bind_eq_ok_iff.mp h
      cases h
      have hbody := readBody_advances hinner
      exact ih _ (Nat.lt_trans hbody.shorter hshort) (hafter.of_suffix hbody.suffix) hlater rfl

end

/-! ## Sources -/

/-- Are the name of the declaration and those of its members identifiers? An extension
declares no name. -/
def Decl.NamesIdentify : Decl → Prop
  | .type decl =>
    isIdentifier decl.name = true ∧ ∀ member ∈ decl.members, member.NamesIdentify
  | .typealias decl => isIdentifier decl.name = true
  | .extension _ => True

theorem readSourceItem_namesIdentify {heading : Heading} {token : Token}
    {tokens rest : List Token} (htokens : NamesIdentify tokens) {decls : List Decl}
    (h : readSourceItem heading token tokens = .ok (decls, rest)) :
    ∀ decl ∈ decls, decl.NamesIdentify := by
  unfold readSourceItem at h
  split at h
  · cases h
    simp
  split at h
  · obtain ⟨⟨header, body⟩, -, h⟩ := bind_eq_ok_iff.mp h
    obtain ⟨⟨members, rest'⟩, -, h⟩ := bind_eq_ok_iff.mp h
    cases h
    simp [Decl.NamesIdentify]
  split at h
  · obtain ⟨⟨decl, rest'⟩, hdecl, h⟩ := bind_eq_ok_iff.mp h
    cases h
    simpa [Decl.NamesIdentify] using readTypealias_namesIdentify htokens hdecl
  split at h
  · obtain ⟨rest', -, h⟩ := bind_eq_ok_iff.mp h
    cases h
    simp
  split at h
  · obtain ⟨⟨function, rest'⟩, -, h⟩ := bind_eq_ok_iff.mp h
    cases h
    simp
  split at h
  · obtain ⟨⟨properties, rest'⟩, -, h⟩ := bind_eq_ok_iff.mp h
    cases h
    simp
  split at h
  · next kind _ =>
    obtain ⟨⟨header, body⟩, hheader, h⟩ := bind_eq_ok_iff.mp h
    obtain ⟨⟨members, rest'⟩, hbody, h⟩ := bind_eq_ok_iff.mp h
    cases h
    have hafter := htokens.of_suffix (readTypeHeader_advances heading kind hheader).suffix
    intro decl hdecl
    cases List.mem_singleton.mp hdecl
    exact ⟨readTypeHeader_namesIdentify htokens hheader, readBody_namesIdentify hafter hbody⟩
  · cases h
    simp

theorem readDecls_namesIdentify {tokens : List Token} (htokens : NamesIdentify tokens)
    {decls : List Decl} (h : readDecls tokens = .ok decls) : ∀ decl ∈ decls, decl.NamesIdentify := by
  induction hlength : tokens.length using Nat.strongRecOn generalizing tokens decls with
  | ind n ih =>
    rw [readDecls_eq] at h
    obtain ⟨found, hfound, h⟩ := bind_eq_ok_iff.mp h
    cases found with
    | none =>
      cases h
      simp
    | some next =>
      obtain ⟨first, rest⟩ := next
      obtain ⟨later, hlater, h⟩ := bind_eq_ok_iff.mp h
      cases h
      have hproper := nextDecls?_properSuffix hfound
      intro decl hdecl
      rcases List.mem_append.mp hdecl with hfirst | hrest
      · obtain ⟨⟨heading, afterHeading⟩, hheading, hitem⟩ := bind_eq_ok_iff.mp hfound
        cases afterHeading with
        | nil => cases hitem
        | cons token after =>
          have hafter : NamesIdentify after := htokens.of_suffix
            ((List.suffix_cons token after).trans (readHeading_suffix hheading))
          dsimp only at hitem
          cases hread : readSourceItem heading token after with
          | error failure =>
            rw [hread] at hitem
            cases hitem
          | ok pair =>
            rw [hread] at hitem
            cases hitem
            exact readSourceItem_namesIdentify hafter hread decl hfirst
      · exact ih rest.length (hlength ▸ hproper.shorter) (htokens.of_suffix hproper.suffix) hlater
          rfl decl hrest

/-- All names in the declarations of a source are identifiers. -/
theorem parse_namesIdentify {text : String} {decls : List Decl} (h : parse text = .ok decls) :
    ∀ decl ∈ decls, decl.NamesIdentify := by
  obtain ⟨stream, hstream, hdecls⟩ := bind_eq_ok_iff.mp h
  rw [parseTokens] at hdecls
  cases hread : readDecls stream.tokens with
  | error failure =>
    rw [hread] at hdecls
    cases hdecls
  | ok found =>
    rw [hread] at hdecls
    cases hdecls
    exact readDecls_namesIdentify (tokenize_namesIdentify hstream) hread

end WireSchema.Swift
