import Mathlib.Data.List.TakeWhile
import WireSchema.Proofs.Extraction.Places
import WireSchema.Proofs.Generation.Struct

/-!
# Arms of generated switches

A switch is cut into arms by the words that start them outside of all brackets, and the
pattern of an arm ends at a colon outside of parentheses. Both cuts walk over tokens
and count brackets; `levelAfter?` is that walk. What it passes over without a stop
belongs to the arm or the pattern as it is.
-/

namespace WireSchema.Extraction

open Swift
open Text (isIdentifier)

/-! ## Levels -/

def opensLevel (braces : Bool) (face : Face) : Bool :=
  (braces && face.isWord "\x7b") || face.isWord "(" || face.isWord "["

def closesLevel (braces : Bool) (face : Face) : Bool :=
  (braces && face.isWord "\x7d") || face.isWord ")" || face.isWord "]"

/-- How many brackets are open after the faces if `level` are before them. There is no such
number if one is closed that was not open, or if the walk stops outside of all brackets. -/
def levelAfter? (braces : Bool) (stops : Face → Bool) (level : Nat) : List Face → Option Nat
  | [] => some level
  | face :: later =>
    if opensLevel braces face then levelAfter? braces stops (level + 1) later
    else if closesLevel braces face then
      match level with
      | 0 => none
      | outer + 1 => levelAfter? braces stops outer later
    else if level == 0 && stops face then none
    else levelAfter? braces stops level later

variable {braces : Bool} {stops : Face → Bool} {fs gs : List Face}

theorem levelAfter?_cons (braces : Bool) (stops : Face → Bool) (level : Nat) (face : Face)
    (later : List Face) :
    levelAfter? braces stops level (face :: later) =
      if opensLevel braces face then levelAfter? braces stops (level + 1) later
      else if closesLevel braces face then
        match level with
        | 0 => none
        | outer + 1 => levelAfter? braces stops outer later
      else if level == 0 && stops face then none
      else levelAfter? braces stops level later := by
  rw [levelAfter?.eq_def]

theorem levelAfter?_append (level : Nat) :
    levelAfter? braces stops level (fs ++ gs) =
      (levelAfter? braces stops level fs).bind fun level => levelAfter? braces stops level gs := by
  induction fs generalizing level with
  | nil => rfl
  | cons face later ih =>
    simp only [List.cons_append, levelAfter?_cons]
    split
    · exact ih _
    · split
      · cases level with
        | zero => rfl
        | succ outer => exact ih _
      · split
        · rfl
        · exact ih _

/-- Is the face no bracket? -/
def isSolid (face : Face) : Bool :=
  ["\x7b", "\x7d", "(", ")", "[", "]"].all fun bracket => !face.isWord bracket

theorem isSolid_word {name : String} (h : isIdentifier name = true) :
    isSolid (.word name) = true := by
  have hbrackets : ∀ bracket ∈ ["\x7b", "\x7d", "(", ")", "[", "]"],
      isIdentifier bracket = false := by decide
  refine List.all_eq_true.mpr fun bracket hbracket => ?_
  rw [Face.isWord_word_of_isIdentifier h (hbrackets bracket hbracket)]
  rfl

theorem level_of_isSolid {face : Face} (h : isSolid face = true) :
    opensLevel braces face = false ∧ closesLevel braces face = false := by
  simp only [isSolid, List.all_cons, List.all_nil, Bool.and_eq_true, Bool.not_eq_true'] at h
  obtain ⟨hopen, hclose, hparen, hparen', hbracket, hbracket', -⟩ := h
  simp [opensLevel, closesLevel, hopen, hclose, hparen, hparen', hbracket, hbracket']

/-- The walk passes over the faces wherever a bracket is open. -/
def Nested (faces : List Face) : Prop :=
  ∀ braces stops level, levelAfter? braces stops (level + 1) faces = some (level + 1)

namespace Nested

theorem nil : Nested [] :=
  fun _ _ _ => rfl

theorem append (h : Nested fs) (h' : Nested gs) : Nested (fs ++ gs) := by
  intro braces stops level
  rw [levelAfter?_append, h, Option.bind_some, h']

theorem cons {face : Face} (hface : isSolid face = true) (h : Nested fs) :
    Nested (face :: fs) := by
  intro braces stops level
  rw [levelAfter?_cons, (level_of_isSolid hface).1, (level_of_isSolid hface).2]
  exact h braces stops level

theorem parens (h : Nested fs) : Nested (.symbol "(" :: (fs ++ [.symbol ")"])) := by
  intro braces stops level
  have hopen : levelAfter? braces stops (level + 1) (.symbol "(" :: (fs ++ [.symbol ")"])) =
      levelAfter? braces stops (level + 2) (fs ++ [.symbol ")"]) := by
    cases braces <;> rfl
  rw [hopen, levelAfter?_append, h, Option.bind_some]
  cases braces <;> rfl

theorem brackets (h : Nested fs) : Nested (.symbol "[" :: (fs ++ [.symbol "]"])) := by
  intro braces stops level
  have hopen : levelAfter? braces stops (level + 1) (.symbol "[" :: (fs ++ [.symbol "]"])) =
      levelAfter? braces stops (level + 2) (fs ++ [.symbol "]"]) := by
    cases braces <;> rfl
  rw [hopen, levelAfter?_append, h, Option.bind_some]
  cases braces <;> rfl

theorem commaFaces {items : List (List Face)} (h : ∀ item ∈ items, Nested item) :
    Nested (Swift.commaFaces items) := by
  fun_induction Swift.commaFaces items with
  | case1 => exact nil
  | case2 item => exact h item List.mem_cons_self
  | case3 item later hlater ih =>
    have hmore := ih fun next hnext => h next (List.mem_cons_of_mem item hnext)
    exact (h item List.mem_cons_self).append (.cons rfl hmore)

theorem dottedFaces {parts : List (List Char)}
    (h : ∀ part ∈ parts, Text.isIdentChars part = true) : Nested (Swift.dottedFaces parts) := by
  fun_induction Swift.dottedFaces parts with
  | case1 => exact nil
  | case2 part =>
    exact .cons (isSolid_word (isIdentifier_ofList (h part List.mem_cons_self))) .nil
  | case3 part more _ ih =>
    have hmore := ih fun next hnext => h next (List.mem_cons_of_mem part hnext)
    exact .cons (isSolid_word (isIdentifier_ofList (h part List.mem_cons_self)))
      (.cons rfl hmore)

theorem typeFaces {t : TypeExpr} (h : IsWritable t) : Nested (Swift.typeFaces t) := by
  induction t with
  | primitive p => exact .cons (isSolid_word (isIdentifier_primitiveText p)) .nil
  | list t ih => exact (ih h).brackets
  | map key value ihkey ihvalue =>
    exact ((ihkey h.1).append (.cons rfl (ihvalue h.2))).brackets
  | optional t ih => exact (ih h.1).append (.cons rfl .nil)
  | custom name => exact dottedFaces h

end Nested

/-- The walk passes over the faces without a stop and ends outside of all brackets. -/
def Steady (braces : Bool) (stops : Face → Bool) (faces : List Face) : Prop :=
  levelAfter? braces stops 0 faces = some 0

namespace Steady

theorem append (h : Steady braces stops fs) (h' : Steady braces stops gs) :
    Steady braces stops (fs ++ gs) := by
  rw [Steady, levelAfter?_append, h, Option.bind_some, h']

theorem cons {face : Face} (hface : isSolid face = true) (hstops : stops face = false)
    (h : Steady braces stops fs) : Steady braces stops (face :: fs) := by
  rw [Steady, levelAfter?_cons, (level_of_isSolid hface).1, (level_of_isSolid hface).2, hstops]
  exact h

/-- Nothing stops the walk inside of parentheses. -/
theorem parens (h : Nested fs) : Steady braces stops (.symbol "(" :: (fs ++ [.symbol ")"])) := by
  have hopen : levelAfter? braces stops 0 (.symbol "(" :: (fs ++ [.symbol ")"])) =
      levelAfter? braces stops 1 (fs ++ [.symbol ")"]) := by
    cases braces <;> rfl
  rw [Steady, hopen, levelAfter?_append, h, Option.bind_some]
  cases braces <;> rfl

theorem flatMap {α : Type} {as : List α} {f : α → List Face}
    (h : ∀ a ∈ as, Steady braces stops (f a)) : Steady braces stops (as.flatMap f) := by
  induction as with
  | nil => rfl
  | cons a later ih =>
    exact (h a List.mem_cons_self).append (ih fun b hb => h b (List.mem_cons_of_mem a hb))

end Steady

/-! ## Patterns -/

def isColon (face : Face) : Bool :=
  face.isWord ":"

theorem splitPattern_append {level level' : Nat} {faces : List Face}
    (h : levelAfter? false isColon level faces = some level') (rest : List Token) :
    splitPattern level (placed faces ++ rest) =
      ⟨placed faces ++ (splitPattern level' rest).pattern, (splitPattern level' rest).colon?,
        (splitPattern level' rest).rest⟩ := by
  induction faces generalizing level with
  | nil =>
    cases h
    rfl
  | cons face later ih =>
    have hopens : opensLevel false face =
        ((face.token .start).isWord "(" || (face.token .start).isWord "[") := rfl
    have hcloses : closesLevel false face =
        ((face.token .start).isWord ")" || (face.token .start).isWord "]") := rfl
    have hcolon : isColon face = (face.token .start).isWord ":" := rfl
    rw [levelAfter?_cons, hopens, hcloses, hcolon] at h
    rw [placed_cons, List.cons_append]
    simp only [splitPattern]
    by_cases hopen : ((face.token .start).isWord "(" || (face.token .start).isWord "[") = true
    · rw [if_pos hopen] at h
      rw [if_pos hopen, ih h]
      rfl
    · rw [if_neg hopen] at h
      rw [if_neg hopen]
      by_cases hclose : ((face.token .start).isWord ")" || (face.token .start).isWord "]") = true
      · rw [if_pos hclose] at h
        rw [if_pos hclose]
        cases level with
        | zero => cases h
        | succ outer =>
          rw [Nat.add_sub_cancel, ih h]
          rfl
      · rw [if_neg hclose] at h
        rw [if_neg hclose]
        by_cases hstop : (level == 0 && (face.token .start).isWord ":") = true
        · rw [if_pos hstop] at h
          cases h
        · rw [if_neg hstop] at h
          rw [if_neg hstop, ih h]
          rfl

/-- A pattern ends at the first colon outside of brackets. -/
theorem splitPattern_colon {pattern : List Face} (h : Steady false isColon pattern)
    (rest : List Token) :
    splitPattern 0 (placed pattern ++ (Face.symbol ":").token .start :: rest) =
      ⟨placed pattern, some ((Face.symbol ":").token .start), rest⟩ := by
  have hcolon : splitPattern 0 ((Face.symbol ":").token .start :: rest) =
      ⟨[], some ((Face.symbol ":").token .start), rest⟩ := rfl
  rw [splitPattern_append h, hcolon, List.append_nil]

/-! ## Arms -/

/-- Does the face start an arm, if a colon comes in the right place? -/
def mayStartArm (face : Face) : Bool :=
  face.isWord "case" || face.isWord "default"

def SwitchBody.withTokens (tokens : List Token) (body : SwitchBody) : SwitchBody :=
  { body with preamble := tokens ++ body.preamble }

theorem startsArm_of_not_mayStartArm {face : Face} (h : mayStartArm face = false)
    (rest : List Token) : startsArm (face.token .start) rest = false := by
  obtain ⟨hcase, hdefault⟩ := Bool.or_eq_false_iff.mp h
  rw [startsArm, Face.isWord_token, Face.isWord_token, hcase, hdefault]
  rfl

theorem splitArms_append {level level' : Nat} {faces : List Face}
    (h : levelAfter? true mayStartArm level faces = some level') (rest : List Token) :
    splitArms level (placed faces ++ rest) = (splitArms level' rest).withTokens (placed faces) := by
  induction faces generalizing level with
  | nil =>
    cases h
    rfl
  | cons face later ih =>
    have hopens : opensBracket (face.token .start) = opensLevel true face := by
      simp [opensBracket, opensLevel]
    have hcloses : closesBracket (face.token .start) = closesLevel true face := by
      simp [closesBracket, closesLevel]
    rw [levelAfter?_cons] at h
    rw [placed_cons, List.cons_append, splitArms_cons, hopens, hcloses]
    by_cases hopen : opensLevel true face = true
    · rw [if_pos hopen] at h
      rw [if_pos hopen]
      rw [ih h]
      rfl
    · rw [if_neg hopen] at h
      rw [if_neg hopen]
      by_cases hclose : closesLevel true face = true
      · rw [if_pos hclose] at h
        rw [if_pos hclose]
        cases level with
        | zero => cases h
        | succ outer =>
          dsimp only at h
          dsimp only
          rw [ih h]
          rfl
      · rw [if_neg hclose] at h
        rw [if_neg hclose]
        by_cases hstop : (level == 0 && mayStartArm face) = true
        · rw [if_pos hstop] at h
          cases h
        · rw [if_neg hstop] at h
          have hstart : (level == 0 && startsArm (face.token .start) (placed later ++ rest)) =
              false := by
            cases hlevel : level == 0 with
            | false => rfl
            | true =>
              rw [hlevel, Bool.true_and] at hstop
              exact startsArm_of_not_mayStartArm (Bool.eq_false_iff.mpr hstop) _
          rw [hstart, if_neg (by simp), ih h]
          rfl

/-- An arm goes from its keyword to wherever the next one starts. -/
theorem splitArms_keyword {pattern : List Face} (h : Steady false isColon pattern)
    (rest : List Token) :
    splitArms 0 ((Face.word "case").token .start ::
        (placed pattern ++ (Face.symbol ":").token .start :: rest)) =
      ⟨[], ⟨(Face.word "case").token .start, placed pattern,
        some ((Face.symbol ":").token .start), (splitArms 0 rest).preamble⟩ ::
          (splitArms 0 rest).arms⟩ := by
  have hcut := splitPattern_colon h rest
  rw [splitArms_cons, if_neg (by decide), if_neg (by decide), if_pos (by rfl), hcut]

theorem splitArms_default (rest : List Token) :
    splitArms 0 ((Face.word "default").token .start :: (Face.symbol ":").token .start :: rest) =
      ⟨[], ⟨(Face.word "default").token .start, [], some ((Face.symbol ":").token .start),
        (splitArms 0 rest).preamble⟩ :: (splitArms 0 rest).arms⟩ := by
  rw [splitArms_cons, if_neg (by decide), if_neg (by decide), if_pos (by rfl)]
  rfl

theorem splitArms_close (rest : List Token) :
    splitArms 0 ((Face.symbol "\x7d").token .start :: rest) = ⟨[], []⟩ := by
  rw [splitArms_cons, if_neg (by decide), if_pos (by decide)]

/-! ## Switches -/

theorem dropWhile_ne_nil {front : List Token} (h : front.any (·.isWord "switch") = true) :
    front.dropWhile (fun token => !token.isWord "switch") ≠ [] := by
  obtain ⟨keyword, hkeyword, hword⟩ := List.any_eq_true.mp h
  intro hnone
  have hnot := List.dropWhile_eq_nil_iff.mp hnone keyword hkeyword
  rw [hword] at hnot
  cases hnot

theorem beforeSwitchBody_isPrefixOf (body : List Token) : beforeSwitchBody body <+: body := by
  have hinner := List.takeWhile_prefix (l := body.dropWhile fun token => !token.isWord "switch")
    fun token => !token.isWord "\x7b"
  have hwhole := (List.prefix_append_right_inj
    (body.takeWhile fun token => !token.isWord "switch")).mpr hinner
  rwa [List.takeWhile_append_dropWhile] at hwhole

section

variable {front : List Token} (hswitch : front.any (·.isWord "switch") = true)
  (hopen : ∀ token ∈ front, token.isWord "\x7b" = false) (inside : List Token)

include hswitch hopen

/-- A body whose first switch, or a name that reads like one, stands before its first brace. -/
theorem switchArms_front :
    ∃ tokens, fromSwitch? (front ++ (Face.symbol "\x7b").token .start :: inside) = some tokens ∧
      switchArms tokens = (splitArms 0 inside).arms := by
  have hsome := dropWhile_ne_nil hswitch
  obtain ⟨first, later, hfirst⟩ := List.exists_cons_of_ne_nil hsome
  have hafter : ∀ token ∈ first :: later, (!token.isWord "\x7b") = true := by
    intro token htoken
    rw [← hfirst] at htoken
    simp [hopen token ((List.dropWhile_sublist _).subset htoken)]
  refine ⟨first :: later ++ (Face.symbol "\x7b").token .start :: inside, ?_, ?_⟩
  · rw [fromSwitch?, List.dropWhile_append, if_neg (by simpa using hsome), hfirst]
    rfl
  · have hinside : afterOpeningBrace? (first :: later ++
        (Face.symbol "\x7b").token .start :: inside) = some inside := by
      rw [afterOpeningBrace?, List.dropWhile_append_of_pos hafter]
      rfl
    rw [switchArms, switchBody, hinside]

theorem beforeSwitchBody_front :
    beforeSwitchBody (front ++ (Face.symbol "\x7b").token .start :: inside) = front := by
  have hsome := dropWhile_ne_nil hswitch
  have hafter : ∀ token ∈ front.dropWhile (fun token => !token.isWord "switch"),
      (!token.isWord "\x7b") = true := by
    intro token htoken
    simp [hopen token ((List.dropWhile_sublist _).subset htoken)]
  have hbefore : (front ++ (Face.symbol "\x7b").token .start :: inside).takeWhile
      (fun token => !token.isWord "switch") = front.takeWhile fun token => !token.isWord "switch" := by
    rw [List.takeWhile_append, if_neg fun hlength => hsome ?_]
    have hwhole := congrArg List.length
      (List.takeWhile_append_dropWhile (p := fun token => !token.isWord "switch") (l := front))
    rw [List.length_append, hlength] at hwhole
    exact List.length_eq_zero_iff.mp (Nat.add_left_cancel hwhole)
  rw [beforeSwitchBody, hbefore, List.dropWhile_append, if_neg (by simpa using hsome),
    List.takeWhile_append_of_pos hafter]
  have hbrace : ((Face.symbol "\x7b").token .start :: inside).takeWhile
      (fun token => !token.isWord "\x7b") = [] := rfl
  rw [hbrace, List.append_nil, List.takeWhile_append_dropWhile]

end

end WireSchema.Extraction
