import WireSchema.Proofs.Swift.Lexing
import WireSchema.Swift.Reading

/-!
# Tokens of given faces

Nothing the parser decides depends on the places of tokens, so what it reads is
stated for all tokens of given faces. Groups are read by the depth of their brackets,
which `depthAfter?` counts over faces.
-/

namespace WireSchema.Swift

open Text (isIdentifier)

namespace Face

def isWord (face : Face) (text : String) : Bool :=
  face.1 != .string && face.1 != .doc && face.2 == text

@[simp] theorem isWord_token (face : Face) (at_ : Position) (text : String) :
    (face.token at_).isWord text = face.isWord text := rfl

@[simp] theorem face_token (face : Face) (at_ : Position) : (face.token at_).face = face := rfl

@[simp] theorem kind_token (face : Face) (at_ : Position) : (face.token at_).kind = face.1 := rfl

@[simp] theorem text_token (face : Face) (at_ : Position) : (face.token at_).text = face.2 := rfl

theorem isWord_word (name text : String) : (word name).isWord text = (name == text) := rfl

/-- Names are no symbols. -/
theorem isWord_word_of_isIdentifier {name text : String} (hname : isIdentifier name = true)
    (htext : isIdentifier text = false) : (word name).isWord text = false := by
  rw [isWord_word]
  refine beq_false_of_ne ?_
  rintro rfl
  rw [hname] at htext
  cases htext

end Face

theorem isWord_face (token : Token) (text : String) : token.face.isWord text = token.isWord text :=
  rfl

theorem map_face_eq_cons {tokens : List Token} {face : Face} {faces : List Face} :
    tokens.map Token.face = face :: faces ↔
      ∃ at_ rest, tokens = face.token at_ :: rest ∧ rest.map Token.face = faces := by
  rw [List.map_eq_cons_iff]
  constructor
  · rintro ⟨⟨kind, text, at_⟩, rest, rfl, rfl, hrest⟩
    exact ⟨at_, rest, rfl, hrest⟩
  · rintro ⟨at_, rest, rfl, hrest⟩
    exact ⟨_, rest, rfl, rfl, hrest⟩

theorem map_face_eq_append {tokens : List Token} {fs gs : List Face} :
    tokens.map Token.face = fs ++ gs ↔
      ∃ a b, tokens = a ++ b ∧ a.map Token.face = fs ∧ b.map Token.face = gs :=
  List.map_eq_append_iff

/-- Tokens up to the last of their faces. -/
theorem map_face_eq_concat {tokens : List Token} {faces : List Face} {last : Face}
    (h : tokens.map Token.face = faces ++ [last]) :
    ∃ inner lastAt, tokens = inner ++ [last.token lastAt] ∧ inner.map Token.face = faces := by
  obtain ⟨inner, tail, rfl, hinner, htail⟩ := map_face_eq_append.mp h
  obtain ⟨lastAt, tail, rfl, hnil⟩ := map_face_eq_cons.mp htail
  cases List.map_eq_nil_iff.mp hnil
  exact ⟨inner, lastAt, rfl, hinner⟩

/-! ## Groups -/

/-- How many groups are open after the faces if `depth` are before them; nothing if one is
closed that was not open. -/
def depthAfter? (opener closer : String) (depth : Nat) : List Face → Option Nat
  | [] => some depth
  | face :: later =>
    if face.isWord opener then depthAfter? opener closer (depth + 1) later
    else if face.isWord closer then
      match depth with
      | 0 => none
      | outer + 1 => depthAfter? opener closer outer later
    else depthAfter? opener closer depth later

/-- Every group is closed that is opened. -/
def Balanced (opener closer : String) (faces : List Face) : Prop :=
  ∀ depth, depthAfter? opener closer depth faces = some depth

theorem depthAfter?_cons (opener closer : String) (depth : Nat) (face : Face)
    (later : List Face) :
    depthAfter? opener closer depth (face :: later) =
      if face.isWord opener then depthAfter? opener closer (depth + 1) later
      else if face.isWord closer then
        match depth with
        | 0 => none
        | outer + 1 => depthAfter? opener closer outer later
      else depthAfter? opener closer depth later := by
  rw [depthAfter?.eq_def]

theorem depthAfter?_append (opener closer : String) (depth : Nat) (fs gs : List Face) :
    depthAfter? opener closer depth (fs ++ gs) =
      (depthAfter? opener closer depth fs).bind fun d => depthAfter? opener closer d gs := by
  induction fs generalizing depth with
  | nil => rfl
  | cons face later ih =>
    simp only [List.cons_append, depthAfter?_cons]
    split
    · exact ih _
    · split
      · cases depth with
        | zero => rfl
        | succ outer => exact ih _
      · exact ih _

namespace Balanced

variable {opener closer : String} {fs gs : List Face}

theorem nil : Balanced opener closer [] :=
  fun _ => rfl

theorem append (h : Balanced opener closer fs) (h' : Balanced opener closer gs) :
    Balanced opener closer (fs ++ gs) := by
  intro depth
  rw [depthAfter?_append, h, Option.bind_some, h']

theorem cons {face : Face} (hopener : face.isWord opener = false)
    (hcloser : face.isWord closer = false) (h : Balanced opener closer fs) :
    Balanced opener closer (face :: fs) := by
  intro depth
  rw [depthAfter?_cons, hopener, hcloser]
  exact h depth

/-- A group is balanced if what stands inside it is. -/
theorem group {first last : Face} (hfirst : first.isWord opener = true)
    (hlast : last.isWord closer = true) (hlast' : last.isWord opener = false)
    (h : Balanced opener closer fs) : Balanced opener closer (first :: (fs ++ [last])) := by
  intro depth
  rw [depthAfter?_cons, if_pos hfirst, depthAfter?_append, h, Option.bind_some, depthAfter?_cons,
    hlast', hlast]
  rfl

theorem flatMap {α : Type} {as : List α} {f : α → List Face}
    (h : ∀ a ∈ as, Balanced opener closer (f a)) : Balanced opener closer (as.flatMap f) := by
  induction as with
  | nil => exact nil
  | cons a later ih =>
    exact (h a List.mem_cons_self).append (ih fun b hb => h b (List.mem_cons_of_mem a hb))

end Balanced

theorem splitGroup_append_eq {opener closer : String} {depth depth' : Nat} {tokens : List Token}
    (h : depthAfter? opener closer depth (tokens.map Token.face) = some depth')
    (rest : List Token) :
    splitGroup opener closer depth (tokens ++ rest) =
      (splitGroup opener closer depth' rest).map fun (inner, last, after) =>
        (tokens ++ inner, last, after) := by
  induction tokens generalizing depth with
  | nil =>
    rw [List.nil_append, Option.some.inj h]
    cases splitGroup opener closer depth' rest with
    | none => rfl
    | some found => rfl
  | cons token later ih =>
    rw [List.map_cons, depthAfter?_cons, isWord_face, isWord_face] at h
    simp only [List.cons_append, splitGroup]
    by_cases hopener : token.isWord opener = true
    · rw [if_pos hopener] at h ⊢
      rw [ih h, Option.map_map]
      rfl
    · rw [if_neg hopener] at h ⊢
      by_cases hcloser : token.isWord closer = true
      · rw [if_pos hcloser] at h ⊢
        cases depth with
        | zero => cases h
        | succ outer =>
          dsimp only at h ⊢
          rw [ih h, Option.map_map]
          rfl
      · rw [if_neg hcloser] at h ⊢
        rw [ih h, Option.map_map]
        rfl

/-- A group is read whatever comes after it. -/
theorem readGroup_balanced {opener closer : String} {first last : Token} {inner : List Token}
    (hfirst : first.isWord opener = true) (hlast : last.isWord closer = true)
    (hlast' : last.isWord opener = false)
    (hinner : Balanced opener closer (inner.map Token.face)) (rest : List Token) :
    readGroup opener closer (first :: (inner ++ last :: rest)) =
      .ok (⟨first, inner, last⟩, rest) := by
  have hend : splitGroup opener closer 0 (last :: rest) = some ([], last, rest) := by
    rw [splitGroup, if_neg (by simp [hlast']), if_pos hlast]
  have hsplit := splitGroup_append_eq (hinner 0) (last :: rest)
  rw [hend] at hsplit
  have hword : readWord opener (first :: (inner ++ last :: rest)) =
      .ok (first, inner ++ last :: rest) := if_pos hfirst
  simp only [readGroup, hword, hsplit, bind, Except.bind, Option.map_some, List.append_nil]
  rfl

end WireSchema.Swift
