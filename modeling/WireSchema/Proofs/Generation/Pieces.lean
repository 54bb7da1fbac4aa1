import WireSchema.Proofs.Generation.Lines

/-!
# Lines put together from pieces

A line of generated code is a row of constant pieces with names, types and literals
between them. What it reads as is put together in the same way, from the left to the
right.
-/

namespace WireSchema.Swift

open Generation (head?_identifier head?_stringLiteral spells_identifier)
open Text (isIdentifier)

/-- A constant piece with the given faces, between two names, types or literals. -/
structure IsPiece (text : String) (faces : List Face) : Prop where
  faces : constantFaces? [] text.toList = some faces
  ends : endsInName text.toList = false
  starts : text.toList.head?.any breaksWord = true

theorem IsPiece.ofList {cs : List Char} {faces : List Face}
    (hfaces : constantFaces? [] cs = some faces) (hends : endsInName cs = false)
    (hstarts : cs.head?.any breaksWord = true) : IsPiece (String.ofList cs) faces := by
  constructor <;> rwa [String.toList_ofList]

namespace Spells

variable {row : String} {front : List Face}

/-- A name that may be a keyword. -/
theorem identifier (h : Spells breaksSymbol row front) {name : String}
    (hname : isIdentifier name = true) :
    Spells breaksWord (row ++ Generation.identifier name) (front ++ [.word name]) :=
  (h.append (spells_identifier hname) (head?_identifier hname)).mono
    fun _ => breaksName_of_breaksWord

/-- A name as it is. -/
theorem name (h : Spells breaksSymbol row front) {name : String}
    (hname : isIdentifier name = true) :
    Spells breaksWord (row ++ name) (front ++ [.word name]) :=
  (h.append (spells_name hname) (head?_name hname)).mono fun _ => breaksName_of_breaksWord

theorem type (h : Spells breaksSymbol row front) {t : TypeExpr} (ht : IsWritable t) :
    Spells breaksWord (row ++ typeText t) (front ++ typeFaces t) :=
  h.append (spells_typeText ht) (head?_typeText ht)

theorem literal (h : Spells breaksSymbol row front) (text : String) :
    Spells breaksWord (row ++ stringLiteral text) (front ++ [.quoted text]) :=
  h.append (spells_stringLiteral text) (head?_stringLiteral text)

/-- A constant piece after a name, a type or a literal. -/
theorem piece (h : Spells breaksWord row front) (text : String) (faces : List Face)
    (hpiece : IsPiece text faces) : Spells breaksSymbol (row ++ text) (front ++ faces) := by
  have hconstant := spells_constant hpiece.faces hpiece.ends
  rw [String.ofList_toList] at hconstant
  exact h.append hconstant hpiece.starts

/-- Items with commas between them on one line. -/
theorem intercalate (h : Spells breaksSymbol row front) {α : Type} {items : List α}
    {text : α → String} {faces : α → List Face} (hne : items ≠ [])
    (hitem : ∀ item ∈ items, ∀ {row : String} {front : List Face},
      Spells breaksSymbol row front → Spells breaksWord (row ++ text item) (front ++ faces item)) :
    Spells breaksWord (row ++ String.intercalate ", " (items.map text))
      (front ++ commaFaces (items.map faces)) := by
  induction items generalizing row front with
  | nil => exact absurd rfl hne
  | cons item later ih =>
    have hfirst := hitem item List.mem_cons_self h
    cases later with
    | nil => simpa [commaFaces] using hfirst
    | cons next later =>
      have hlater := ih (hfirst.piece ", " [.symbol ","] (.ofList rfl rfl rfl)) (List.cons_ne_nil _ _)
        fun other hother => hitem other (List.mem_cons_of_mem _ hother)
      simpa [commaFaces, String.intercalate_cons_cons, String.append_assoc] using hlater

end Spells

end WireSchema.Swift
