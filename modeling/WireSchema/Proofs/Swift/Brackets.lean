import WireSchema.Swift.Reading

/-!
# Brackets that match

How deep a token stands is counted here, not computed: it is what the tokens before it open
less what they close. `readGroup_reads` says with these counts alone which group is read
and when there is none to read.
-/

namespace WireSchema.Swift

open Outcome (bind_eq_ok_iff)

/-! ## Counting -/

/-- With `depth` brackets open before the tokens, none of these closes one that is not open. -/
def ClosesOnlyOpen (opens closes : Token → Bool) (depth : Nat) (tokens : List Token) : Prop :=
  ∀ front, front <+: tokens → front.countP closes ≤ front.countP opens + depth

/-- The tokens close each bracket that they open, and no other. -/
structure IsBalanced (opens closes : Token → Bool) (tokens : List Token) : Prop where
  settled : tokens.countP opens = tokens.countP closes
  sane : ∀ front, front <+: tokens → front.countP closes ≤ front.countP opens

section

variable {opens closes : Token → Bool} {token : Token} {tokens : List Token}

theorem closesOnlyOpen_nil (opens closes : Token → Bool) (depth : Nat) :
    ClosesOnlyOpen opens closes depth [] := by
  intro front hfront
  rw [List.prefix_nil.mp hfront]
  exact Nat.zero_le _

/-- The first token changes how many brackets are open before the others. -/
theorem closesOnlyOpen_cons_iff {before after : Nat}
    (hstep : before + (if opens token then 1 else 0) = after + (if closes token then 1 else 0)) :
    ClosesOnlyOpen opens closes before (token :: tokens) ↔
      ClosesOnlyOpen opens closes after tokens := by
  constructor
  · intro h front hfront
    have hlonger := h (token :: front) ((List.prefix_cons_inj token).mpr hfront)
    rw [List.countP_cons, List.countP_cons] at hlonger
    omega
  · intro h front hfront
    rcases List.prefix_cons_iff.mp hfront with rfl | ⟨later, rfl, hlater⟩
    · exact Nat.zero_le _
    · have hshorter := h later hlater
      rw [List.countP_cons, List.countP_cons]
      omega

theorem isBalanced_iff :
    IsBalanced opens closes tokens ↔
      tokens.countP closes = tokens.countP opens + 0 ∧ ClosesOnlyOpen opens closes 0 tokens :=
  ⟨fun h => ⟨h.settled.symm, h.sane⟩, fun h => ⟨h.1.symm, h.2⟩⟩

end

/-! ## Groups -/

/-- The first and the last token are the brackets that belong together. -/
structure Group.Matches (opener closer : String) (group : Group) : Prop where
  opens : group.opener.isWord opener = true
  balanced : IsBalanced (·.isWord opener) (·.isWord closer) group.inner
  closes : group.closer.isWord closer = true

variable {opener closer : String}

theorem not_isWord_of_isWord (distinct : opener ≠ closer) {token : Token}
    (h : token.isWord opener = true) : token.isWord closer = false := by
  rw [Token.isWord, Bool.and_eq_true, beq_iff_eq] at h
  rw [Token.isWord, h.2, beq_false_of_ne distinct, Bool.and_false]

/-- What `splitGroup` takes closes the `depth` groups that are open, and the last token one
more. -/
theorem closes_of_splitGroup {depth : Nat} {tokens inner after : List Token} {last : Token}
    (distinct : opener ≠ closer)
    (h : splitGroup opener closer depth tokens = some (inner, last, after)) :
    last.isWord closer = true ∧
      inner.countP (·.isWord closer) = inner.countP (·.isWord opener) + depth ∧
      ClosesOnlyOpen (·.isWord opener) (·.isWord closer) depth inner := by
  induction tokens generalizing depth inner with
  | nil => cases h
  | cons token rest ih =>
    have step : ∀ {d : Nat},
        depth + (if token.isWord opener then 1 else 0) =
          d + (if token.isWord closer then 1 else 0) →
        (splitGroup opener closer d rest).map (fun x => (token :: x.1, x.2.1, x.2.2)) =
          some (inner, last, after) →
        last.isWord closer = true ∧
          inner.countP (·.isWord closer) = inner.countP (·.isWord opener) + depth ∧
          ClosesOnlyOpen (·.isWord opener) (·.isWord closer) depth inner := by
      intro d hstep hd
      obtain ⟨⟨inner', last', after'⟩, found, hsplit⟩ := Option.map_eq_some_iff.mp hd
      cases hsplit
      obtain ⟨hlast, hcount, hopen⟩ := ih found
      refine ⟨hlast, ?_, (closesOnlyOpen_cons_iff hstep).mpr hopen⟩
      dsimp only
      rw [List.countP_cons, List.countP_cons]
      omega
    simp only [splitGroup] at h
    by_cases hopener : token.isWord opener = true
    · have hcloser := not_isWord_of_isWord distinct hopener
      rw [if_pos hopener] at h
      exact step (by simp [hopener, hcloser]) h
    · rw [if_neg hopener] at h
      by_cases hcloser : token.isWord closer = true
      · rw [if_pos hcloser] at h
        cases depth with
        | zero =>
          cases h
          exact ⟨hcloser, rfl, closesOnlyOpen_nil _ _ 0⟩
        | succ outer => exact step (by simp [hopener, hcloser]) h
      · rw [if_neg hcloser] at h
        exact step (by simp [hopener, hcloser]) h

/-- Tokens that close the groups that are open, and the token after them one more, are found. -/
theorem splitGroup_of_closes (distinct : opener ≠ closer) {depth : Nat} {inner after : List Token}
    {last : Token} (hlast : last.isWord closer = true)
    (hcount : inner.countP (·.isWord closer) = inner.countP (·.isWord opener) + depth)
    (hopen : ClosesOnlyOpen (·.isWord opener) (·.isWord closer) depth inner) :
    splitGroup opener closer depth (inner ++ last :: after) = some (inner, last, after) := by
  induction inner generalizing depth with
  | nil =>
    have hdepth : depth = 0 := by simpa using hcount.symm
    subst hdepth
    have hopener := not_isWord_of_isWord distinct.symm hlast
    simp only [List.nil_append, splitGroup, hopener, hlast, if_pos, Bool.false_eq_true, if_false]
  | cons token rest ih =>
    have step : ∀ {d : Nat},
        depth + (if token.isWord opener then 1 else 0) =
          d + (if token.isWord closer then 1 else 0) →
        (splitGroup opener closer d (rest ++ last :: after)).map
          (fun x => (token :: x.1, x.2.1, x.2.2)) = some (token :: rest, last, after) := by
      intro d hstep
      rw [List.countP_cons, List.countP_cons] at hcount
      rw [ih (by omega) ((closesOnlyOpen_cons_iff hstep).mp hopen)]
      rfl
    simp only [List.cons_append, splitGroup]
    by_cases hopener : token.isWord opener = true
    · have hcloser := not_isWord_of_isWord distinct hopener
      rw [if_pos hopener]
      exact step (by simp [hopener, hcloser])
    · rw [if_neg hopener]
      by_cases hcloser : token.isWord closer = true
      · rw [if_pos hcloser]
        cases depth with
        | zero =>
          -- A closer at the front would close a group that is not open.
          have hfirst := hopen [token] (List.prefix_append [token] rest)
          simp [hopener, hcloser] at hfirst
        | succ outer => exact step (by simp [hopener, hcloser])
      · rw [if_neg hcloser]
        exact step (by simp [hopener, hcloser])

theorem readGroup_cons (opener closer : String) (first : Token) (inside : List Token) :
    readGroup opener closer (first :: inside) =
      if first.isWord opener then
        match splitGroup opener closer 0 inside with
        | some (inner, last, rest) => .ok (⟨first, inner, last⟩, rest)
        | none => .error ⟨.unbalanced opener, []⟩
      else .error ⟨.expected opener first.text, first :: inside⟩ := by
  rw [readGroup, readWord]
  by_cases hopener : first.isWord opener = true
  · rw [if_pos hopener, if_pos hopener]
    rfl
  · rw [if_neg hopener, if_neg hopener]
    rfl

theorem readGroup_eq_ok_iff (distinct : opener ≠ closer) {tokens rest : List Token}
    {group : Group} :
    readGroup opener closer tokens = .ok (group, rest) ↔
      group.tokens ++ rest = tokens ∧ group.Matches opener closer := by
  constructor
  · intro h
    refine ⟨readGroup_append h, ?_⟩
    cases tokens with
    | nil => cases h
    | cons first inside =>
      rw [readGroup_cons] at h
      by_cases hopener : first.isWord opener = true
      · rw [if_pos hopener] at h
        split at h
        · next inner last after hsplit =>
          cases h
          obtain ⟨hlast, hcount, hopen⟩ := closes_of_splitGroup distinct hsplit
          exact ⟨hopener, isBalanced_iff.mpr ⟨hcount, hopen⟩, hlast⟩
        · cases h
      · rw [if_neg hopener] at h
        cases h
  · rintro ⟨rfl, hopens, hbalanced, hcloses⟩
    obtain ⟨hcount, hopen⟩ := isBalanced_iff.mp hbalanced
    have hsplit : splitGroup opener closer 0 (group.inner ++ group.closer :: rest) =
        some (group.inner, group.closer, rest) :=
      splitGroup_of_closes distinct hcloses hcount hopen
    rw [Group.tokens, List.cons_append, List.append_assoc, List.singleton_append, readGroup_cons,
      if_pos hopens, hsplit]

/-- A group is read exactly where the tokens start with one whose brackets match; which one is
thereby fixed. Before a token that opens none, reading fails where it stands; otherwise it fails,
at the end, exactly if no group is closed. -/
theorem readGroup_reads (distinct : opener ≠ closer) (tokens : List Token) :
    (∀ group rest, readGroup opener closer tokens = .ok (group, rest) ↔
      group.tokens ++ rest = tokens ∧ group.Matches opener closer) ∧
    (wordNext tokens opener = false →
      readGroup opener closer tokens =
        .error ⟨.expected opener (headText tokens), tokens⟩) ∧
    (wordNext tokens opener = true →
      ∀ failure, readGroup opener closer tokens = .error failure ↔
        failure = ⟨.unbalanced opener, []⟩ ∧
          ∀ (group : Group) rest, group.tokens ++ rest = tokens →
            ¬ group.Matches opener closer) := by
  refine ⟨fun group rest => readGroup_eq_ok_iff distinct, fun hnext => ?_, fun hnext failure => ?_⟩
  · cases tokens with
    | nil => rfl
    | cons first inside =>
      have hopener : first.isWord opener = false := hnext
      rw [readGroup_cons, hopener, if_neg Bool.false_ne_true]
      rfl
  · cases tokens with
    | nil => cases hnext
    | cons first inside =>
      have hopener : first.isWord opener = true := hnext
      have hread := readGroup_cons opener closer first inside
      rw [if_pos hopener] at hread
      cases hsplit : splitGroup opener closer 0 inside with
      | none =>
        rw [hsplit] at hread
        rw [hread]
        constructor
        · intro h
          cases h
          refine ⟨rfl, fun group rest htokens hmatches => ?_⟩
          have hgroup := (readGroup_eq_ok_iff distinct).mpr ⟨htokens, hmatches⟩
          rw [hread] at hgroup
          cases hgroup
        · rintro ⟨rfl, -⟩
          rfl
      | some found =>
        rw [hsplit] at hread
        obtain ⟨htokens, hmatches⟩ := (readGroup_eq_ok_iff distinct).mp hread
        constructor
        · intro h
          rw [hread] at h
          cases h
        · rintro ⟨-, hnone⟩
          exact absurd hmatches (hnone _ _ htokens)

/-- The tokens of `(f() g) h`, with the comment `/// )` before `g`. -/
def callTokens : List Token :=
  [⟨.punctuation, "(", ⟨1, 1⟩⟩, ⟨.identifier, "f", ⟨1, 2⟩⟩, ⟨.punctuation, "(", ⟨1, 3⟩⟩,
    ⟨.punctuation, ")", ⟨1, 4⟩⟩, ⟨.doc, ")", ⟨2, 1⟩⟩, ⟨.identifier, "g", ⟨3, 1⟩⟩,
    ⟨.punctuation, ")", ⟨3, 2⟩⟩, ⟨.identifier, "h", ⟨3, 4⟩⟩]

/-- A parenthesis in a comment is none. -/
theorem readGroup_reads_call :
    "(" ≠ ")" ∧
      ∃ group rest, readGroup "(" ")" callTokens = .ok (group, rest) ∧
        group.tokens = callTokens.take 7 ∧ rest = callTokens.drop 7 ∧ group.Matches "(" ")" := by
  refine ⟨by decide, _, _, rfl, rfl, rfl, ?_⟩
  exact (((readGroup_reads (by decide) callTokens).1 _ _).mp rfl).2

end WireSchema.Swift
