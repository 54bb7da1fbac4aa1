import WireSchema.Proofs.Extraction.Places
import WireSchema.Proofs.Swift.Brackets

/-!
# Switches cut into arms

Cutting the body of a switch into arms loses and repeats no token, and it cuts in the right
places: between two starts of arms lies a stretch of tokens that closes the brackets it opens,
and outside of these brackets nothing in it starts an arm.
-/

namespace WireSchema.Extraction

open Swift

/-! ## Stretches -/

/-- Tokens before which `depth` brackets are open and behind which `after` stand: only brackets
that are open are closed, and outside of all brackets no arm starts. -/
structure Stretch (depth : Nat) (tokens after : List Token) : Prop where
  sane : ClosesOnlyOpen opensBracket closesBracket depth tokens
  calm : ∀ front token more, tokens = front ++ token :: more →
    front.countP closesBracket = front.countP opensBracket + depth →
      startsArm token (more ++ after) = false

/-- As many brackets are closed as are open before the tokens or opened by them. -/
def Settles (depth : Nat) (tokens : List Token) : Prop :=
  tokens.countP closesBracket = tokens.countP opensBracket + depth

variable {depth inner : Nat} {token : Token} {tokens after rest : List Token}

theorem stretch_nil (depth : Nat) (after : List Token) : Stretch depth [] after where
  sane := closesOnlyOpen_nil _ _ depth
  calm := by
    intro front token more htokens
    cases front <;> cases htokens

theorem opensBracket_eq_false (h : closesBracket token = true) : opensBracket token = false := by
  simp only [closesBracket, opensBracket, Token.isWord, Bool.or_eq_true, Bool.and_eq_true,
    beq_iff_eq] at h ⊢
  rcases h with (⟨-, htext⟩ | ⟨-, htext⟩) | ⟨-, htext⟩ <;> simp [htext]

/-- No bracket is a keyword. -/
theorem startsArm_eq_false (h : opensBracket token = true) (rest : List Token) :
    startsArm token rest = false := by
  simp only [opensBracket, startsArm, Token.isWord, Bool.or_eq_true, Bool.and_eq_true,
    beq_iff_eq] at h ⊢
  rcases h with (⟨-, htext⟩ | ⟨-, htext⟩) | ⟨-, htext⟩ <;> simp [htext]

section

variable (hstep : depth + (if opensBracket token then 1 else 0) =
  inner + (if closesBracket token then 1 else 0))

include hstep

/-- One more token in front of a stretch, which changes how many brackets are open. -/
theorem Stretch.cons (h : Stretch inner tokens after)
    (hfirst : depth = 0 → startsArm token (tokens ++ after) = false) :
    Stretch depth (token :: tokens) after where
  sane := (closesOnlyOpen_cons_iff hstep).mpr h.sane
  calm := by
    intro front next more htokens hlevel
    cases front with
    | nil =>
      cases htokens
      exact hfirst (by simpa using hlevel.symm)
    | cons first later =>
      cases htokens
      rw [List.countP_cons, List.countP_cons] at hlevel
      exact h.calm later next more rfl (by omega)

theorem settles_cons (h : Settles inner tokens) : Settles depth (token :: tokens) := by
  unfold Settles at h ⊢
  rw [List.countP_cons, List.countP_cons]
  omega

end

/-! ## Patterns -/

/-- Does the token open a bracket that a pattern may go on in? -/
def opensNested (token : Token) : Bool :=
  token.isWord "(" || token.isWord "["

def closesNested (token : Token) : Bool :=
  token.isWord ")" || token.isWord "]"

/-- A bracket that is opened in the tokens is still open behind them: from somewhere on they open
more than they close. -/
def LeavesOpen (tokens : List Token) : Prop :=
  ∃ inner, inner <:+ tokens ∧ inner.countP closesNested < inner.countP opensNested

/-- The same behind tokens before which `nested` brackets are open. -/
def StaysOpen (nested : Nat) (tokens : List Token) : Prop :=
  tokens.countP closesNested < tokens.countP opensNested + nested ∨ LeavesOpen tokens

theorem not_leavesOpen_nil : ¬ LeavesOpen [] := by
  rintro ⟨inner, hinner, hcount⟩
  cases List.suffix_nil.mp hinner
  exact Nat.lt_irrefl 0 hcount

theorem staysOpen_zero_iff : StaysOpen 0 tokens ↔ LeavesOpen tokens :=
  ⟨fun h => h.elim (fun hall => ⟨tokens, List.suffix_rfl, hall⟩) id, .inr⟩

theorem leavesOpen_cons_iff :
    LeavesOpen (token :: tokens) ↔
      (token :: tokens).countP closesNested < (token :: tokens).countP opensNested ∨
        LeavesOpen tokens := by
  constructor
  · rintro ⟨inner, hinner, hcount⟩
    rcases List.suffix_cons_iff.mp hinner with rfl | hlater
    · exact .inl hcount
    · exact .inr ⟨inner, hlater, hcount⟩
  · rintro (hcount | ⟨inner, hinner, hcount⟩)
    · exact ⟨_, List.suffix_rfl, hcount⟩
    · exact ⟨inner, hinner.trans (List.suffix_cons token tokens), hcount⟩

theorem closesNested_eq_false (h : opensNested token = true) : closesNested token = false := by
  simp only [closesNested, opensNested, Token.isWord, Bool.or_eq_true, Bool.and_eq_true,
    beq_iff_eq] at h ⊢
  rcases h with ⟨-, htext⟩ | ⟨-, htext⟩ <;> simp [htext]

def nestedBehind (nested : Nat) (token : Token) : Nat :=
  if opensNested token then nested + 1 else if closesNested token then nested - 1 else nested

theorem staysOpen_cons_iff (nested : Nat) (token : Token) (tokens : List Token) :
    StaysOpen nested (token :: tokens) ↔ StaysOpen (nestedBehind nested token) tokens := by
  unfold StaysOpen nestedBehind
  rw [leavesOpen_cons_iff, List.countP_cons, List.countP_cons, ← or_assoc]
  -- tokens that open more than they close leave a bracket open whatever stands before them
  by_cases hown : tokens.countP closesNested < tokens.countP opensNested
  · have hleft : LeavesOpen tokens := ⟨tokens, List.suffix_rfl, hown⟩
    exact iff_of_true (.inr hleft) (.inr hleft)
  · refine or_congr_left ?_
    cases hopen : opensNested token with
    | true =>
      simp only [closesNested_eq_false hopen, Bool.false_eq_true, if_false, if_true]
      omega
    | false =>
      cases hclose : closesNested token with
      | true | false =>
        simp only [Bool.false_eq_true, if_false, if_true]
        omega

theorem isWord_colon_eq_false (h : opensNested token = true ∨ closesNested token = true) :
    token.isWord ":" = false := by
  simp only [opensNested, closesNested, Bool.or_eq_true] at h
  rcases h with (h | h) | (h | h) <;> exact not_isWord_of_isWord (by decide) h

/-- A pattern ends before a colon if no bracket is open, and goes on with any other token. -/
theorem splitPattern_cons (nested : Nat) (token : Token) (rest : List Token) :
    splitPattern nested (token :: rest) =
      if nested == 0 && token.isWord ":" then ⟨[], some token, rest⟩
      else
        { splitPattern (nestedBehind nested token) rest with
          pattern := token :: (splitPattern (nestedBehind nested token) rest).pattern } := by
  show (if opensNested token then _ else if closesNested token then _ else _) = _
  unfold nestedBehind
  cases hopen : opensNested token with
  | true => simp [isWord_colon_eq_false (.inl hopen)]
  | false =>
    cases hclose : closesNested token with
    | true => simp [isWord_colon_eq_false (.inr hclose)]
    | false => simp

theorem isWord_of_mem_splitPattern (nested : Nat) (tokens : List Token) :
    ∀ colon ∈ (splitPattern nested tokens).colon?, colon.isWord ":" = true := by
  induction tokens generalizing nested with
  | nil => nofun
  | cons token rest ih =>
    rw [splitPattern_cons]
    split
    · next h =>
      rintro _ ⟨⟩
      exact (Bool.and_eq_true_iff.mp h).2
    · exact ih _

/-- A pattern without a colon behind it goes on to the end. -/
theorem splitPattern_rest (nested : Nat) (tokens : List Token)
    (h : (splitPattern nested tokens).colon? = none) : (splitPattern nested tokens).rest = [] := by
  induction tokens generalizing nested with
  | nil => rfl
  | cons token rest ih =>
    rw [splitPattern_cons] at h ⊢
    split at h
    · cases h
    · next hcolon =>
      rw [if_neg hcolon]
      exact ih _ h

/-- A colon that is part of a pattern stands in brackets. -/
theorem splitPattern_inside {nested : Nat} {front more : List Token} {colon : Token}
    (h : (splitPattern nested tokens).pattern = front ++ colon :: more)
    (hcolon : colon.isWord ":" = true) : StaysOpen nested front := by
  induction tokens generalizing nested front with
  | nil => exact absurd h.symm (by simp [splitPattern])
  | cons token rest ih =>
    rw [splitPattern_cons] at h
    split at h
    · exact absurd h.symm (by simp)
    · next hpart =>
      cases front with
      | nil =>
        cases h
        rw [hcolon, Bool.and_true, beq_iff_eq] at hpart
        exact .inl (by simpa using Nat.pos_of_ne_zero hpart)
      | cons first later =>
        obtain ⟨rfl, hlater⟩ := List.cons.inj h
        exact (staysOpen_cons_iff nested _ later).mpr (ih hlater)

/-- The colon that ends a pattern does not. -/
theorem splitPattern_outside {nested : Nat}
    (h : (splitPattern nested tokens).colon? ≠ none) :
    ¬ StaysOpen nested (splitPattern nested tokens).pattern := by
  induction tokens generalizing nested with
  | nil => exact absurd rfl h
  | cons token rest ih =>
    rw [splitPattern_cons] at h ⊢
    split at h
    · next hcolon =>
      rw [if_pos hcolon]
      cases eq_of_beq (Bool.and_eq_true_iff.mp hcolon).1
      exact fun hopen => not_leavesOpen_nil (staysOpen_zero_iff.mp hopen)
    · next hcolon =>
      rw [if_neg hcolon, staysOpen_cons_iff]
      exact ih h

theorem leavesOpen_of_pattern {front more : List Token} {colon : Token}
    (h : (splitPattern 0 tokens).pattern = front ++ colon :: more)
    (hcolon : colon.isWord ":" = true) : LeavesOpen front :=
  staysOpen_zero_iff.mp (splitPattern_inside h hcolon)

theorem not_leavesOpen_pattern (h : (splitPattern 0 tokens).colon? ≠ none) :
    ¬ LeavesOpen (splitPattern 0 tokens).pattern :=
  fun hopen => splitPattern_outside h (staysOpen_zero_iff.mpr hopen)

/-! ## Arms -/

/-- The arm, behind which the arms `later` and the tokens `rest` stand, begins and ends where it
should. -/
structure Arm.Fits (arm : Arm) (later : List Arm) (rest : List Token) : Prop where
  keyword : startsArm arm.keyword
    (arm.pattern ++ arm.colon?.toList ++ arm.body ++ (later.flatMap Arm.tokens ++ rest)) = true
  colon : ∀ colon ∈ arm.colon?, colon.isWord ":" = true
  /-- A colon in the pattern stands in brackets that the pattern opens. -/
  inside : ∀ front colon more, arm.pattern = front ++ colon :: more → colon.isWord ":" = true →
    LeavesOpen front
  /-- The colon behind it does not. -/
  outside : arm.colon? ≠ none → ¬ LeavesOpen arm.pattern
  /-- The colon is missing only if the tokens end in the pattern. -/
  open_end : arm.colon? = none → arm.body = [] ∧ later = [] ∧ rest = []
  stretch : Stretch 0 arm.body (later.flatMap Arm.tokens ++ rest)
  /-- Only a body with which the tokens end may leave brackets open. -/
  settled : later ≠ [] ∨ rest ≠ [] →
    arm.body.countP opensBracket = arm.body.countP closesBracket

/-- The body of a switch is cut out of the tokens, before which `depth` brackets are open. What
is not in it starts with the bracket that closes it. -/
structure SwitchBody.Cuts (body : SwitchBody) (depth : Nat) (tokens rest : List Token) : Prop where
  whole : body.preamble ++ (body.arms.flatMap Arm.tokens ++ rest) = tokens
  closed : ∀ closer ∈ rest.head?, closesBracket closer = true
  stretch : Stretch depth body.preamble (body.arms.flatMap Arm.tokens ++ rest)
  settles : body.arms ≠ [] ∨ rest ≠ [] → Settles depth body.preamble
  arms : ∀ arm later, arm :: later <:+ body.arms → arm.Fits later rest

namespace SwitchBody.Cuts

theorem nil (depth : Nat) : Cuts ⟨[], []⟩ depth [] [] where
  whole := rfl
  closed := nofun
  stretch := stretch_nil depth []
  settles := by simp
  arms := by
    intro arm later h
    cases List.suffix_nil.mp h

/-- At the bracket that closes the body nothing is cut out any more. -/
theorem close (hclose : closesBracket token = true) (tokens : List Token) :
    Cuts ⟨[], []⟩ 0 (token :: tokens) (token :: tokens) where
  whole := rfl
  closed := by
    rintro _ ⟨⟩
    exact hclose
  stretch := stretch_nil 0 _
  settles := fun _ => rfl
  arms := by
    intro arm later h
    cases List.suffix_nil.mp h

theorem withToken {body : SwitchBody}
    (hstep : depth + (if opensBracket token then 1 else 0) =
      inner + (if closesBracket token then 1 else 0))
    (hfirst : depth = 0 → startsArm token tokens = false) (h : body.Cuts inner tokens rest) :
    (body.withToken token).Cuts depth (token :: tokens) rest where
  whole := congrArg (token :: ·) h.whole
  closed := h.closed
  stretch := h.stretch.cons hstep (by rw [← h.whole] at hfirst; exact hfirst)
  settles hmore := settles_cons hstep (h.settles hmore)
  arms := h.arms

/-- Of no tokens nothing is cut out, and nothing is left. -/
theorem of_nil {body : SwitchBody} (h : body.Cuts depth [] rest) :
    body.preamble = [] ∧ body.arms = [] ∧ rest = [] := by
  obtain ⟨hpreamble, hmore⟩ := List.append_eq_nil_iff.mp h.whole
  obtain ⟨harms, hrest⟩ := List.append_eq_nil_iff.mp hmore
  refine ⟨hpreamble, List.eq_nil_iff_forall_not_mem.mpr fun arm harm => ?_, hrest⟩
  exact List.cons_ne_nil _ _ (List.flatMap_eq_nil_iff.mp harms arm harm)

/-- An arm at the front, of which the body that follows its pattern is what stands there before
the next arm. -/
theorem arm {body : SwitchBody} (hstart : startsArm token tokens = true)
    (h : body.Cuts 0 (splitPattern 0 tokens).rest rest) :
    Cuts ⟨[], ⟨token, (splitPattern 0 tokens).pattern, (splitPattern 0 tokens).colon?,
      body.preamble⟩ :: body.arms⟩ 0 (token :: tokens) rest := by
  have hwhole : (splitPattern 0 tokens).pattern ++ (splitPattern 0 tokens).colon?.toList ++
      body.preamble ++ (body.arms.flatMap Arm.tokens ++ rest) = tokens := by
    rw [List.append_assoc _ body.preamble, h.whole, splitPattern_tokens]
  refine ⟨?_, h.closed, stretch_nil 0 _, fun _ => rfl, fun first later hsuffix => ?_⟩
  · rw [List.nil_append, List.flatMap_cons, List.append_assoc]
    exact congrArg (token :: ·) hwhole
  · rcases List.suffix_cons_iff.mp hsuffix with hall | hlater
    · cases hall
      refine ⟨by rwa [hwhole], isWord_of_mem_splitPattern 0 tokens,
        fun _ _ _ => leavesOpen_of_pattern, not_leavesOpen_pattern, fun hnone => ?_, h.stretch,
        fun hmore => (h.settles hmore).symm⟩
      rw [splitPattern_rest 0 tokens hnone] at h
      exact h.of_nil
    · exact h.arms first later hlater

end SwitchBody.Cuts

theorem exists_splitArms_cuts (depth : Nat) (tokens : List Token) :
    ∃ rest, (splitArms depth tokens).Cuts depth tokens rest := by
  fun_induction splitArms depth tokens with
  | case1 depth => exact ⟨[], .nil depth⟩
  | case2 depth token tokens hopen ih =>
    obtain ⟨rest, hcuts⟩ := ih
    have hclose : closesBracket token = false := by
      rw [← Bool.not_eq_true]
      intro hclose
      rw [opensBracket_eq_false hclose] at hopen
      cases hopen
    exact ⟨rest, hcuts.withToken (by simp [hopen, hclose]) fun _ => startsArm_eq_false hopen tokens⟩
  | case3 token tokens _ hclose => exact ⟨_, .close hclose tokens⟩
  | case4 token tokens hopen hclose outer ih =>
    obtain ⟨rest, hcuts⟩ := ih
    refine ⟨rest, hcuts.withToken (by simp [hopen, hclose]) fun hdepth => ?_⟩
    exact absurd hdepth (Nat.succ_ne_zero outer)
  | case5 depth token tokens hopen hclose hstart split later ih =>
    obtain ⟨rest, hcuts⟩ := ih
    obtain ⟨hdepth, hstart⟩ := Bool.and_eq_true_iff.mp hstart
    cases eq_of_beq hdepth
    exact ⟨rest, hcuts.arm hstart⟩
  | case6 depth token tokens hopen hclose hstart ih =>
    obtain ⟨rest, hcuts⟩ := ih
    refine ⟨rest, hcuts.withToken (by simp [hopen, hclose]) fun hdepth => ?_⟩
    subst hdepth
    simpa using hstart

/-! ## Switches -/

/-- The first brace, what stands before it, and what stands behind it. -/
theorem exists_afterOpeningBrace? {tokens : List Token}
    (h : ∃ token ∈ tokens, token.isWord "\x7b" = true) :
    ∃ before brace inside, tokens = before ++ brace :: inside ∧ brace.isWord "\x7b" = true ∧
      (∀ token ∈ before, token.isWord "\x7b" = false) ∧
      afterOpeningBrace? tokens = some inside := by
  induction tokens with
  | nil =>
    obtain ⟨token, htoken, -⟩ := h
    cases htoken
  | cons token rest ih =>
    cases htoken : token.isWord "\x7b" with
    | true =>
      refine ⟨[], token, rest, rfl, htoken, nofun, ?_⟩
      rw [afterOpeningBrace?, List.dropWhile_cons_of_neg (by simp [htoken])]
    | false =>
      have hrest : ∃ other ∈ rest, other.isWord "\x7b" = true := by
        obtain ⟨other, hother, hword⟩ := h
        rcases List.mem_cons.mp hother with rfl | hother
        · rw [htoken] at hword
          cases hword
        · exact ⟨other, hother, hword⟩
      obtain ⟨before, brace, inside, rfl, hbrace, hbefore, hinside⟩ := ih hrest
      refine ⟨token :: before, brace, inside, rfl, hbrace, ?_, ?_⟩
      · intro other hother
        rcases List.mem_cons.mp hother with rfl | hother
        · exact htoken
        · exact hbefore other hother
      · rw [afterOpeningBrace?, List.dropWhile_cons_of_pos (by simp [htoken])]
        exact hinside

/-- Behind the first opening brace come, in order and without a gap, what stands before the first
arm, the arms with their keywords, patterns, colons and bodies, and what was not taken, which is
nothing or starts with the bracket that closes the body. A pattern ends at the first colon that
stands in no brackets of it. -/
theorem switchArms_lose_nothing {tokens : List Token}
    (h : ∃ token ∈ tokens, token.isWord "\x7b" = true) :
    ∃ before brace rest,
      tokens = before ++ brace :: ((switchBody tokens).preamble ++
        ((switchArms tokens).flatMap Arm.tokens ++ rest)) ∧
      brace.isWord "\x7b" = true ∧ (∀ token ∈ before, token.isWord "\x7b" = false) ∧
      (∀ closer ∈ rest.head?, closesBracket closer = true) ∧
      Stretch 0 (switchBody tokens).preamble ((switchArms tokens).flatMap Arm.tokens ++ rest) ∧
      ∀ arm later, arm :: later <:+ switchArms tokens → arm.Fits later rest := by
  obtain ⟨before, brace, inside, htokens, hbrace, hbefore, hinside⟩ := exists_afterOpeningBrace? h
  obtain ⟨rest, hcuts⟩ := exists_splitArms_cuts 0 inside
  have hbody : switchBody tokens = splitArms 0 inside := by rw [switchBody, hinside]
  rw [switchArms, hbody]
  refine ⟨before, brace, rest, ?_, hbrace, hbefore, hcuts.closed, hcuts.stretch, hcuts.arms⟩
  rw [hcuts.whole]
  exact htokens

/-- The tokens of `switch t { case a: f(case) default: g case b`, which end in a pattern. -/
def openSwitch : List Token :=
  placed [.word "switch", .word "t", .symbol "\x7b", .word "case", .word "a", .symbol ":",
    .word "f", .symbol "(", .word "case", .symbol ")", .word "default", .symbol ":", .word "g",
    .word "case", .word "b"]

/-- The keyword in parentheses starts no arm, and the last arm has neither colon nor body. -/
theorem switchArms_lose_nothing_openSwitch :
    (∃ token ∈ openSwitch, token.isWord "\x7b" = true) ∧
      (switchArms openSwitch).map
          (fun arm => (arm.pattern.map Token.text, arm.body.map Token.text)) =
        [(["a"], ["f", "(", "case", ")"]), ([], ["g"]), (["b"], [])] ∧
      ∃ rest, ∀ arm later, arm :: later <:+ switchArms openSwitch → arm.Fits later rest := by
  have hbrace : ∃ token ∈ openSwitch, token.isWord "\x7b" = true := by decide
  refine ⟨hbrace, by decide +kernel, ?_⟩
  obtain ⟨before, brace, rest, -, -, -, -, -, harms⟩ := switchArms_lose_nothing hbrace
  exact ⟨rest, harms⟩

end WireSchema.Extraction
