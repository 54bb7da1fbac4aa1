import WireSchema.Proofs.Swift.TypeText
import WireSchema.Swift.Parser.Source

/-!
# What a body declares

The outline of a body is what its members declare, without the places where they
stand. `ReadsBody faces outline` says that tokens of the given faces, wherever they
stand before a further item of a body, are read as members with the outline. Bodies
are made of items by `ReadsBody.append`.
-/

namespace WireSchema.Swift

open Outcome (bind_eq_ok_iff)
open Text (isIdentifier)

/-! ## Outlines -/

def PropertyDecl.unplaced (decl : PropertyDecl) : PropertyDecl :=
  { decl with position := .start }

def EnumCase.unplaced (case_ : EnumCase) : EnumCase :=
  { case_ with position := .start }

structure FunctionOutline where
  name : String
  firstLabel : Option String
  body : List Face
deriving DecidableEq

def FunctionDecl.outline (decl : FunctionDecl) : FunctionOutline :=
  ⟨decl.name, decl.firstLabel, decl.body.map Token.face⟩

/-- What members declare. Of a nested type only its name and its cases are kept. -/
structure Outline where
  properties : List PropertyDecl
  cases : List EnumCase
  functions : List FunctionOutline
  types : List (String × List EnumCase)

namespace Outline

def empty : Outline := ⟨[], [], [], []⟩

def append (a b : Outline) : Outline :=
  ⟨a.properties ++ b.properties, a.cases ++ b.cases, a.functions ++ b.functions,
    a.types ++ b.types⟩

instance : Append Outline := ⟨append⟩

def ofProperty (decl : PropertyDecl) : Outline := ⟨[decl], [], [], []⟩

def ofCases (cases : List EnumCase) : Outline := ⟨[], cases, [], []⟩

def ofFunction (decl : FunctionOutline) : Outline := ⟨[], [], [decl], []⟩

def ofType (name : String) (cases : List EnumCase) : Outline := ⟨[], [], [], [(name, cases)]⟩

def flatten : List Outline → Outline
  | [] => empty
  | first :: later => first ++ flatten later

end Outline

theorem Outline.append_eq (a b : Outline) :
    a ++ b = ⟨a.properties ++ b.properties, a.cases ++ b.cases, a.functions ++ b.functions,
      a.types ++ b.types⟩ := rfl

theorem Outline.flatten_ofProperty {α : Type} (f : α → PropertyDecl) (as : List α) :
    Outline.flatten (as.map fun a => .ofProperty (f a)) = ⟨as.map f, [], [], []⟩ := by
  induction as with
  | nil => rfl
  | cons a later ih =>
    rw [List.map_cons, Outline.flatten, ih]
    rfl

theorem Outline.flatten_ofCases {α : Type} (f : α → EnumCase) (as : List α) :
    Outline.flatten (as.map fun a => .ofCases [f a]) = .ofCases (as.map f) := by
  induction as with
  | nil => rfl
  | cons a later ih =>
    rw [List.map_cons, Outline.flatten, ih]
    rfl

def outline (members : List Member) : Outline where
  properties := (propertiesOf members).map PropertyDecl.unplaced
  cases := (casesOf members).map EnumCase.unplaced
  functions := (functionsOf members).map FunctionDecl.outline
  types := (members.filterMap Member.type?).map fun decl =>
    (decl.name, (casesOf decl.members).map EnumCase.unplaced)

theorem outline_append (a b : List Member) : outline (a ++ b) = outline a ++ outline b := by
  show outline (a ++ b) = Outline.append (outline a) (outline b)
  simp [outline, Outline.append, propertiesOf, casesOf, functionsOf]

theorem outline_map_property (decls : List PropertyDecl) :
    outline (decls.map .property) = ⟨decls.map PropertyDecl.unplaced, [], [], []⟩ := by
  induction decls with
  | nil => rfl
  | cons decl later ih =>
    have happend := outline_append [.property decl] (later.map .property)
    rw [ih] at happend
    exact happend

/-! ## Items of a body -/

/-- Does the face start an item of generated code? -/
def startsItem (face : Face) : Bool :=
  face.1 == .doc || [Face.word "public", .word "case", .word "enum", .symbol "\x7d"].contains face

def StartsItem (tokens : List Token) : Prop :=
  (tokens.map Token.face).head?.any startsItem = true

/-- Tokens of the faces are read as members with the outline, before any further item. -/
def ReadsBody (faces : List Face) (o : Outline) : Prop :=
  ∀ ⦃tokens rest after : List Token⦄ ⦃later : List Member⦄, tokens.map Token.face = faces →
    StartsItem rest → readBody rest = .ok (later, after) →
      ∃ members, outline members = o ∧ readBody (tokens ++ rest) = .ok (members ++ later, after)

theorem StartsItem.append {tokens : List Token} {faces : List Face}
    (htokens : tokens.map Token.face = faces) (hfaces : faces.head?.any startsItem = true)
    (rest : List Token) : StartsItem (tokens ++ rest) := by
  cases tokens with
  | nil => subst htokens; cases hfaces
  | cons token later => subst htokens; exact hfaces

namespace ReadsBody

theorem nil : ReadsBody [] .empty := by
  intro tokens rest after later htokens _ hlater
  cases List.map_eq_nil_iff.mp htokens
  exact ⟨[], rfl, hlater⟩

theorem append {fs gs : List Face} {o o' : Outline} (h : ReadsBody fs o) (h' : ReadsBody gs o')
    (hgs : gs = [] ∨ gs.head?.any startsItem = true) : ReadsBody (fs ++ gs) (o ++ o') := by
  intro tokens rest after later htokens hrest hlater
  obtain ⟨a, b, rfl, ha, hb⟩ := map_face_eq_append.mp htokens
  obtain ⟨members', houtline', hread'⟩ := h' hb hrest hlater
  have hstart : StartsItem (b ++ rest) := by
    rcases hgs with rfl | hgs
    · cases List.map_eq_nil_iff.mp hb
      exact hrest
    · exact .append hb hgs rest
  obtain ⟨members, houtline, hread⟩ := h ha hstart hread'
  refine ⟨members ++ members', ?_, ?_⟩
  · rw [outline_append, houtline, houtline']
  · rw [List.append_assoc, hread, List.append_assoc]

/-- Items that are one for each element. -/
theorem flatMap {α : Type} {as : List α} {f : α → List Face} {g : α → Outline}
    (h : ∀ a ∈ as, ReadsBody (f a) (g a))
    (hstart : ∀ a ∈ as, (f a).head?.any startsItem = true) :
    ReadsBody (as.flatMap f) (.flatten (as.map g)) := by
  induction as with
  | nil => exact nil
  | cons a later ih =>
    have hlater := ih (fun b hb => h b (List.mem_cons_of_mem a hb))
      fun b hb => hstart b (List.mem_cons_of_mem a hb)
    refine (h a List.mem_cons_self).append hlater ?_
    cases later with
    | nil => exact .inl rfl
    | cons b later =>
      have hb := hstart b (List.mem_cons_of_mem a List.mem_cons_self)
      refine .inr ?_
      show (f b ++ later.flatMap f).head?.any startsItem = true
      cases hfaces : f b with
      | nil => rw [hfaces] at hb; cases hb
      | cons face faces => rw [hfaces] at hb; exact hb

/-- An item that is complete. -/
theorem of_item {faces : List Face} {o : Outline}
    (h : ∀ ⦃tokens rest : List Token⦄, tokens.map Token.face = faces → StartsItem rest →
      ∃ members, outline members = o ∧
        nextBodyItem (tokens ++ rest) = .ok (.members members, rest)) :
    ReadsBody faces o := by
  intro tokens rest after later htokens hrest hlater
  obtain ⟨members, houtline, hitem⟩ := h htokens hrest
  refine ⟨members, houtline, ?_⟩
  rw [readBody_eq]
  refine bind_eq_ok_iff.mpr ⟨_, hitem, ?_⟩
  exact bind_eq_ok_iff.mpr ⟨_, hlater, rfl⟩

end ReadsBody

theorem readBody_close (at_ : Position) (rest : List Token) :
    readBody ((Face.symbol "\x7d").token at_ :: rest) = .ok ([], rest) := by
  rw [readBody_eq]
  have hheading : readHeading ((Face.symbol "\x7d").token at_ :: rest) =
      .ok (.empty, (Face.symbol "\x7d").token at_ :: rest) := by
    rw [readHeading_eq]
    rfl
  have hitem : nextBodyItem ((Face.symbol "\x7d").token at_ :: rest) = .ok (.close, rest) :=
    bind_eq_ok_iff.mpr ⟨_, hheading, rfl⟩
  exact bind_eq_ok_iff.mpr ⟨_, hitem, rfl⟩

/-- A body up to the brace that closes it. -/
theorem ReadsBody.readBody_eq_ok {faces : List Face} {o : Outline} (h : ReadsBody faces o)
    {tokens : List Token} (htokens : tokens.map Token.face = faces) (at_ : Position)
    (rest : List Token) :
    ∃ members, outline members = o ∧
      readBody (tokens ++ (Face.symbol "\x7d").token at_ :: rest) = .ok (members, rest) := by
  have hstart : StartsItem ((Face.symbol "\x7d").token at_ :: rest) := rfl
  obtain ⟨members, houtline, hread⟩ := h htokens hstart (readBody_close at_ rest)
  rw [List.append_nil] at hread
  exact ⟨members, houtline, hread⟩

end WireSchema.Swift
