import Mathlib.Data.List.TakeWhile
import WireSchema.TypeExpr.Parser

/-!
# Tokens of type expressions

The tokenizer one token at a time, what it makes of two texts put together, and
the spelling law: the tokens of a text are the text without its white space.
-/

namespace WireSchema.TypeExpr

open Text (isBlank isIdentStart isIdentRest)

/-! ## Character classes -/

theorem isIdentStart_of_symbol {c : Char} {token : Token} (h : symbol? c = some token) :
    isIdentStart c = false := by
  unfold symbol? at h
  split at h
  all_goals first | rfl | cases h

theorem isBlank_of_symbol {c : Char} {token : Token} (h : symbol? c = some token) :
    isBlank c = false := by
  unfold symbol? at h
  split at h
  all_goals first | rfl | cases h

/-- The symbols are spelled as they are read. -/
theorem text_of_symbol {c : Char} {token : Token} (h : symbol? c = some token) :
    token.text.toList = [c] := by
  unfold symbol? at h
  split at h
  all_goals first | (cases h; rfl) | cases h

theorem isNameRest_of_isIdentStart {c : Char} (h : isIdentStart c = true) :
    isNameRest c = true := by
  simp only [isIdentStart, Bool.or_eq_true] at h
  rcases h with halpha | hunder
  · simp [isNameRest, isIdentRest, Char.isAlphanum, halpha]
  · simp [isNameRest, isIdentRest, hunder]

theorem toNat_of_isAlphanum {c : Char} (h : c.isAlphanum = true) :
    (48 ≤ c.toNat ∧ c.toNat ≤ 57) ∨ (65 ≤ c.toNat ∧ c.toNat ≤ 90) ∨
      (97 ≤ c.toNat ∧ c.toNat ≤ 122) := by
  delta Char.isAlphanum Char.isAlpha Char.isUpper Char.isLower Char.isDigit at h
  simp only [Bool.or_eq_true, Bool.and_eq_true, decide_eq_true_eq, ge_iff_le,
    UInt32.le_iff_toNat_le] at h
  change ((65 ≤ c.toNat ∧ c.toNat ≤ 90) ∨ (97 ≤ c.toNat ∧ c.toNat ≤ 122)) ∨
    (48 ≤ c.toNat ∧ c.toNat ≤ 57) at h
  omega

/-- White space is no part of a name. -/
theorem isNameRest_of_isBlank {c : Char} (h : isBlank c = true) : isNameRest c = false := by
  have hcode : ∀ d : Char, c = d → isBlank d = true := fun d hd => hd ▸ h
  have hdot : c ≠ '.' := fun hc => absurd (hcode '.' hc) (by decide)
  have hunder : c ≠ '_' := fun hc => absurd (hcode '_' hc) (by decide)
  have halnum : c.isAlphanum = false := by
    rw [Bool.eq_false_iff]
    intro hc
    have hrange := toNat_of_isAlphanum hc
    simp only [isBlank, Bool.or_eq_true, Bool.and_eq_true, decide_eq_true_eq, beq_iff_eq] at h
    omega
  simp [isNameRest, isIdentRest, halnum, hdot, hunder]

theorem isIdentStart_of_isBlank {c : Char} (h : isBlank c = true) : isIdentStart c = false := by
  have hrest := isNameRest_of_isBlank h
  rw [Bool.eq_false_iff]
  intro hstart
  rw [isNameRest_of_isIdentStart hstart] at hrest
  cases hrest

theorem isBlank_of_isNameRest {c : Char} (h : isNameRest c = true) : isBlank c = false := by
  rw [Bool.eq_false_iff]
  intro hblank
  rw [isNameRest_of_isBlank hblank] at h
  cases h

theorem symbol?_of_isBlank {c : Char} (h : isBlank c = true) : symbol? c = none := by
  cases hsymbol : symbol? c with
  | none => rfl
  | some token =>
    rw [isBlank_of_symbol hsymbol] at h
    cases h

/-! ## One token at a time -/

theorem tokenize_nil : tokenize [] = .ok [] := by
  rw [tokenize]
  rfl

/-- One step of the tokenizer: what is cut off in front, and then the tokens of the rest. -/
theorem tokenize_of_splitToken? {cs rest : List Char} {token : Option Token}
    (h : splitToken? cs = some (token, rest)) :
    tokenize cs = (tokenize rest).map (token.toList ++ ·) := by
  rw [tokenize]
  split
  · next hstep =>
    cases h.symm.trans hstep
    cases tokenize rest <;> rfl
  · next hstep =>
    cases h.symm.trans hstep

theorem tokenize_name {c : Char} {rest : List Char} (h : isIdentStart c = true) :
    tokenize (c :: rest) =
      (tokenize (rest.dropWhile isNameRest)).map
        (.name (String.ofList (c :: rest.takeWhile isNameRest)) :: ·) := by
  have hsplit : splitToken? (c :: rest) =
      some (some (.name (String.ofList (c :: rest.takeWhile isNameRest))),
        rest.dropWhile isNameRest) := by
    simp [splitToken?, h]
  exact tokenize_of_splitToken? hsplit

theorem tokenize_symbol {c : Char} {rest : List Char} {token : Token}
    (h : symbol? c = some token) :
    tokenize (c :: rest) = (tokenize rest).map (token :: ·) := by
  have hsplit : splitToken? (c :: rest) = some (some token, rest) := by
    simp [splitToken?, h, isIdentStart_of_symbol h]
  exact tokenize_of_splitToken? hsplit

theorem tokenize_of_symbol {c : Char} {rest : List Char} {token : Token} {tokens : List Token}
    (hsymbol : symbol? c = some token) (h : tokenize rest = .ok tokens) :
    tokenize (c :: rest) = .ok (token :: tokens) := by
  rw [tokenize_symbol hsymbol, h]
  rfl

theorem tokenize_blanks {c : Char} {rest : List Char} (h : isBlank c = true) :
    tokenize (c :: rest) = tokenize (rest.dropWhile isBlank) := by
  have hsplit : splitToken? (c :: rest) = some (none, rest.dropWhile isBlank) := by
    simp [splitToken?, h, isIdentStart_of_isBlank h, symbol?_of_isBlank h]
  rw [tokenize_of_splitToken? hsplit]
  cases tokenize (rest.dropWhile isBlank) <;> rfl

/-- White space may be dropped character by character. -/
theorem tokenize_blank {c : Char} {rest : List Char} (h : isBlank c = true) :
    tokenize (c :: rest) = tokenize rest := by
  rw [tokenize_blanks h]
  cases rest with
  | nil => rfl
  | cons d more =>
    by_cases hd : isBlank d = true
    · rw [tokenize_blanks hd, List.dropWhile_cons_of_pos hd]
    · rw [List.dropWhile_cons_of_neg hd]

theorem tokenize_blanks_append {run rest : List Char} (h : ∀ c ∈ run, isBlank c = true) :
    tokenize (run ++ rest) = tokenize rest := by
  induction run with
  | nil => rfl
  | cons c more ih =>
    rw [List.cons_append, tokenize_blank (h c List.mem_cons_self)]
    exact ih fun d hd => h d (List.mem_cons_of_mem c hd)

theorem tokenize_stray {c : Char} {rest : List Char} (hstart : isIdentStart c = false)
    (hsymbol : symbol? c = none) (hblank : isBlank c = false) :
    tokenize (c :: rest) = .error (strayRun (c :: rest)) := by
  have hsplit : splitToken? (c :: rest) = none := by
    simp [splitToken?, hstart, hsymbol, hblank]
  rw [tokenize]
  split
  · next hstep =>
    rw [hsplit] at hstep
    cases hstep
  · rfl

theorem map_eq_ok_iff {ε α β : Type} {f : α → β} {x : Except ε α} {b : β} :
    x.map f = .ok b ↔ ∃ a, x = .ok a ∧ f a = b := by
  cases x with
  | error e => simp [Except.map]
  | ok a => simp [Except.map]

inductive Start : List Char → Prop where
  | nil : Start []
  | name {c : Char} {rest : List Char} (h : isIdentStart c = true) : Start (c :: rest)
  | symbol {c : Char} {rest : List Char} {token : Token} (h : symbol? c = some token) :
    Start (c :: rest)
  | blank {c : Char} {rest : List Char} (h : isBlank c = true) : Start (c :: rest)

theorem start_of_tokenize {cs : List Char} {tokens : List Token} (h : tokenize cs = .ok tokens) :
    Start cs := by
  cases cs with
  | nil => exact .nil
  | cons c rest =>
    by_cases hstart : isIdentStart c = true
    · exact .name hstart
    · cases hsymbol : symbol? c with
      | some token => exact .symbol hsymbol
      | none =>
        by_cases hblank : isBlank c = true
        · exact .blank hblank
        · rw [tokenize_stray (by simpa using hstart) hsymbol (by simpa using hblank)] at h
          cases h

/-- The tokens of a text, one step of the tokenizer after the other. -/
inductive Scans : List Char → List Token → Prop where
  | nil : Scans [] []
  | name {c : Char} {rest : List Char} {later : List Token} (h : isIdentStart c = true)
    (next : Scans (rest.dropWhile isNameRest) later) :
    Scans (c :: rest) (.name (String.ofList (c :: rest.takeWhile isNameRest)) :: later)
  | symbol {c : Char} {rest : List Char} {token : Token} {later : List Token}
    (h : symbol? c = some token) (next : Scans rest later) : Scans (c :: rest) (token :: later)
  | blanks {c : Char} {rest : List Char} {tokens : List Token} (h : isBlank c = true)
    (next : Scans (rest.dropWhile isBlank) tokens) : Scans (c :: rest) tokens

theorem scans_of_tokenize {cs : List Char} {tokens : List Token}
    (h : tokenize cs = .ok tokens) : Scans cs tokens := by
  induction hlen : cs.length using Nat.strongRecOn generalizing cs tokens with
  | ind n ih =>
    cases start_of_tokenize h with
    | nil =>
      rw [tokenize_nil] at h
      cases h
      exact .nil
    | @name c rest hstart =>
      rw [tokenize_name hstart, map_eq_ok_iff] at h
      obtain ⟨later, hlater, rfl⟩ := h
      have hshort := dropWhile_length_le isNameRest rest
      simp only [List.length_cons] at hlen
      exact .name hstart (ih _ (by omega) hlater rfl)
    | @symbol c rest token hsymbol =>
      rw [tokenize_symbol hsymbol, map_eq_ok_iff] at h
      obtain ⟨later, hlater, rfl⟩ := h
      simp only [List.length_cons] at hlen
      exact .symbol hsymbol (ih _ (by omega) hlater rfl)
    | @blank c rest hblank =>
      rw [tokenize_blanks hblank] at h
      have hshort := dropWhile_length_le isBlank rest
      simp only [List.length_cons] at hlen
      exact .blanks hblank (ih _ (by omega) h rfl)

/-! ## Two texts put together -/

/-- No name goes on at the front of the text. -/
def EndsName (cs : List Char) : Prop :=
  ∀ c ∈ cs.head?, isNameRest c = false

theorem endsName_nil : EndsName [] := by
  intro c hc
  cases hc

theorem endsName_cons {c : Char} {rest : List Char} (h : isNameRest c = false) :
    EndsName (c :: rest) := by
  intro d hd
  cases hd
  exact h

theorem takeWhile_append_endsName {as bs : List Char} (h : EndsName bs) :
    (as ++ bs).takeWhile isNameRest = as.takeWhile isNameRest := by
  induction as with
  | nil =>
    cases bs with
    | nil => rfl
    | cons c rest => simp [h c rfl]
  | cons a more ih =>
    by_cases ha : isNameRest a = true
    · simp [ha, ih]
    · simp [ha]

theorem dropWhile_append_endsName {as bs : List Char} (h : EndsName bs) :
    (as ++ bs).dropWhile isNameRest = as.dropWhile isNameRest ++ bs := by
  induction as with
  | nil =>
    cases bs with
    | nil => rfl
    | cons c rest => simp [h c rfl]
  | cons a more ih =>
    by_cases ha : isNameRest a = true
    · simp [ha, ih]
    · simp [ha]

/-- A token in front of the first of two texts is in front of both together. -/
theorem map_cons_eq_ok_iff {ε : Type} {token : Token} {x y z : Except ε (List Token)}
    (h : ∀ tokens, z = .ok tokens ↔ ∃ xs ys, x = .ok xs ∧ y = .ok ys ∧ xs ++ ys = tokens)
    {tokens : List Token} :
    z.map (token :: ·) = .ok tokens ↔
      ∃ xs ys, x.map (token :: ·) = .ok xs ∧ y = .ok ys ∧ xs ++ ys = tokens := by
  simp only [map_eq_ok_iff, h]
  constructor
  · rintro ⟨_, ⟨xs, ys, hxs, hys, rfl⟩, rfl⟩
    exact ⟨_, ys, ⟨xs, hxs, rfl⟩, hys, rfl⟩
  · rintro ⟨_, ys, ⟨xs, hxs, rfl⟩, hys, rfl⟩
    exact ⟨_, ⟨xs, ys, hxs, hys, rfl⟩, rfl⟩

/-- A text cut where no name goes on has the tokens of its two parts. -/
theorem tokenize_append_eq_ok_iff {as bs : List Char} {tokens : List Token} (h : EndsName bs) :
    tokenize (as ++ bs) = .ok tokens ↔
      ∃ xs ys, tokenize as = .ok xs ∧ tokenize bs = .ok ys ∧ xs ++ ys = tokens := by
  induction hlen : as.length using Nat.strongRecOn generalizing as tokens with
  | ind n ih =>
    cases as with
    | nil => simp [tokenize_nil]
    | cons c rest =>
      simp only [List.length_cons] at hlen
      by_cases hstart : isIdentStart c = true
      · have hshort := dropWhile_length_le isNameRest rest
        rw [List.cons_append, tokenize_name hstart, tokenize_name hstart,
          takeWhile_append_endsName h, dropWhile_append_endsName h]
        exact map_cons_eq_ok_iff fun _ => ih _ (by omega) rfl
      · cases hsymbol : symbol? c with
        | some token =>
          rw [List.cons_append, tokenize_symbol hsymbol, tokenize_symbol hsymbol]
          exact map_cons_eq_ok_iff fun _ => ih _ (by omega) rfl
        | none =>
          by_cases hblank : isBlank c = true
          · rw [List.cons_append, tokenize_blank hblank, tokenize_blank hblank]
            exact ih _ (by omega) rfl
          · rw [List.cons_append, tokenize_stray (by simpa using hstart) hsymbol
              (by simpa using hblank), tokenize_stray (by simpa using hstart) hsymbol
              (by simpa using hblank)]
            simp

/-- White space at the end of a text is not seen. -/
theorem tokenize_append_blanks {as bs : List Char} {tokens : List Token}
    (h : ∀ c ∈ bs, isBlank c = true) :
    tokenize (as ++ bs) = .ok tokens ↔ tokenize as = .ok tokens := by
  have hblank : tokenize bs = .ok [] := by
    rw [← List.append_nil bs, tokenize_blanks_append h, tokenize_nil]
  have hends : EndsName bs := by
    cases bs with
    | nil => exact endsName_nil
    | cons c rest => exact endsName_cons (isNameRest_of_isBlank (h c (by simp)))
  rw [tokenize_append_eq_ok_iff hends]
  simp [hblank]

/-! ## The spelling of a text -/

/-- The tokens of a text are the text without its white space. -/
theorem flatMap_text_of_tokenize {cs : List Char} {tokens : List Token}
    (h : tokenize cs = .ok tokens) :
    (tokens.flatMap fun token => token.text.toList) = cs.filter fun c => !isBlank c := by
  replace h := scans_of_tokenize h
  induction h with
  | nil => rfl
  | @name c rest later hstart next ih =>
    have hname : ∀ d ∈ c :: rest.takeWhile isNameRest, (!isBlank d) = true := by
      intro d hd
      rcases List.mem_cons.mp hd with rfl | hd
      · simp [isBlank_of_isNameRest (isNameRest_of_isIdentStart hstart)]
      · simp [isBlank_of_isNameRest (List.mem_takeWhile_imp hd)]
    rw [List.flatMap_cons, ih, Token.text, String.toList_ofList,
      ← List.filter_eq_self.mpr hname, ← List.filter_append, List.cons_append,
      List.takeWhile_append_dropWhile]
  | symbol hsymbol next ih =>
    simp [ih, text_of_symbol hsymbol, isBlank_of_symbol hsymbol]
  | @blanks c rest tokens hblank next ih =>
    have hrun : (rest.takeWhile isBlank).filter (fun d => !isBlank d) = [] := by
      refine List.filter_eq_nil_iff.mpr fun d hd => ?_
      simp [List.mem_takeWhile_imp hd]
    rw [ih, List.filter_cons_of_neg (by simp [hblank])]
    conv => rhs; rw [← @List.takeWhile_append_dropWhile _ isBlank rest, List.filter_append, hrun]
    rfl

def Token.IsProper : Token → Prop
  | .name text => ∃ c rest, text.toList = c :: rest ∧ isIdentStart c = true ∧
      ∀ d ∈ rest, isNameRest d = true
  | _ => True

theorem isProper_name {c : Char} {rest : List Char} (hstart : isIdentStart c = true)
    (hrest : ∀ d ∈ rest, isNameRest d = true) :
    (Token.name (String.ofList (c :: rest))).IsProper :=
  ⟨c, rest, String.toList_ofList, hstart, hrest⟩

theorem isProper_of_symbol {c : Char} {token : Token} (h : symbol? c = some token) :
    token.IsProper := by
  unfold symbol? at h
  split at h
  all_goals first | (cases h; trivial) | cases h

theorem isProper_of_tokenize {cs : List Char} {tokens : List Token}
    (h : tokenize cs = .ok tokens) : ∀ token ∈ tokens, token.IsProper := by
  replace h := scans_of_tokenize h
  induction h with
  | nil => simp
  | name hstart next ih =>
    exact List.forall_mem_cons.mpr
      ⟨isProper_name hstart fun d hd => List.mem_takeWhile_imp hd, ih⟩
  | symbol hsymbol next ih => exact List.forall_mem_cons.mpr ⟨isProper_of_symbol hsymbol, ih⟩
  | blanks hblank next ih => exact ih

end WireSchema.TypeExpr
