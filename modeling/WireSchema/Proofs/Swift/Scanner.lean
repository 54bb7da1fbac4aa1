import WireSchema.Proofs.Swift.Course

/-!
# Scanners

Readers that come with their course. `Scanner.read` forgets the course; the lemmas `read_…`
say what is left of each combinator then.
-/

namespace WireSchema.Swift

/-- Where a reader stops, whether it succeeds or fails. -/
def stopOf {α : Type} : Except Failure (α × List Token) → List Token
  | .ok found => found.2
  | .error failure => failure.rest

/-- What a reader gives from `start` on, and its course, which is in bounds. -/
structure Scan (rank : Nat) (α : Type) (start : List Token) where
  outcome : Except Failure (α × List Token)
  course : Course
  within : course.Within rank start (stopOf outcome)

variable {rank rank' : Nat} {α β σ : Type} {start rest : List Token}

namespace Scan

theorem suffix_of_ok {scan : Scan rank α start} {a : α} (h : scan.outcome = .ok (a, rest)) :
    rest <:+ start := by
  have hsuffix := scan.within.leads.suffix
  rwa [h] at hsuffix

def pure (a : α) (start : List Token) : Scan rank α start :=
  ⟨.ok (a, start), .empty, .empty rank start⟩

/-- One scan after another, in which more calls may be open, two for each token that the first
one has taken. -/
def andThen : (first : Scan rank α start) →
    (next : ∀ a rest, first.outcome = .ok (a, rest) → Scan rank' β rest) →
    (∀ a rest, first.outcome = .ok (a, rest) → Allows rank start rank' rest) →
    Scan rank β start
  | ⟨.error failure, course, within⟩, _, _ => ⟨.error failure, course, within⟩
  | ⟨.ok (a, rest), course, within⟩, next, hrank =>
    ⟨(next a rest rfl).outcome, course.append (next a rest rfl).course,
      within.append (next a rest rfl).within (hrank a rest rfl)⟩

theorem outcome_andThen {first : Scan rank α start}
    {next : ∀ a rest, first.outcome = .ok (a, rest) → Scan rank' β rest}
    {hrank : ∀ a rest, first.outcome = .ok (a, rest) → Allows rank start rank' rest}
    (read : α × List Token → Except Failure (β × List Token))
    (h : ∀ a rest hfirst, (next a rest hfirst).outcome = read (a, rest)) :
    (first.andThen next hrank).outcome = first.outcome >>= read := by
  rcases first with ⟨failure | ⟨a, rest⟩, course, within⟩
  · rfl
  · exact h a rest rfl

/-- What comes after a scan that takes a token takes it as well. -/
theorem andThen_advances {first : Scan rank α start}
    {next : ∀ a rest, first.outcome = .ok (a, rest) → Scan rank' β rest}
    {hrank : ∀ a rest, first.outcome = .ok (a, rest) → Allows rank start rank' rest}
    (hfirst : ∀ a rest, first.outcome = .ok (a, rest) → ProperSuffix rest start) {b : β}
    (h : (first.andThen next hrank).outcome = .ok (b, rest)) : ProperSuffix rest start := by
  rcases first with ⟨failure | ⟨a, middle⟩, course, within⟩
  · cases h
  · have hnext : (next a middle rfl).outcome = .ok (b, rest) := h
    exact .suffix_trans (suffix_of_ok hnext) (hfirst a middle rfl)

def call (scan : Scan rank α start) : Scan (rank + 1) α start :=
  ⟨scan.outcome, scan.course.called start, scan.within.called⟩

theorem outcome_call (scan : Scan rank α start) : scan.call.outcome = scan.outcome :=
  rfl

def map (f : α → β) : Scan rank α start → Scan rank β start
  | ⟨.error failure, course, within⟩ => ⟨.error failure, course, within⟩
  | ⟨.ok (a, rest), course, within⟩ => ⟨.ok (f a, rest), course, within⟩

theorem outcome_map (f : α → β) (scan : Scan rank α start) :
    (scan.map f).outcome = (fun found => (f found.1, found.2)) <$> scan.outcome := by
  rcases scan with ⟨failure | ⟨a, rest⟩, course, within⟩
  · rfl
  · rfl

/-- The tokens that are taken, cut out as a slice. -/
def slice : Scan rank Unit start → Scan rank (List Token) start
  | ⟨.error failure, course, within⟩ => ⟨.error failure, course, within⟩
  | ⟨.ok ((), rest), course, within⟩ =>
    ⟨.ok (start.take (start.length - rest.length), rest), course.slicing ⟨start, rest⟩,
      within.slicing⟩

theorem outcome_slice (scan : Scan rank Unit start) :
    scan.slice.outcome = (fun found =>
      (start.take (start.length - found.2.length), found.2)) <$> scan.outcome := by
  rcases scan with ⟨failure | ⟨⟨⟩, rest⟩, course, within⟩
  · rfl
  · rfl

/-- A failure is taken for nothing found; the cursor stays where it occurred. -/
def attempt : Scan rank α start → Scan rank (Option α) start
  | ⟨.error failure, course, within⟩ => ⟨.ok (none, failure.rest), course, within⟩
  | ⟨.ok (a, rest), course, within⟩ => ⟨.ok (some a, rest), course, within⟩

theorem outcome_attempt (scan : Scan rank α start) :
    scan.attempt.outcome =
      match scan.outcome with
      | .error failure => .ok (none, failure.rest)
      | .ok found => .ok (some found.1, found.2) := by
  rcases scan with ⟨failure | ⟨a, rest⟩, course, within⟩
  · rfl
  · rfl

end Scan

/-! ## Scanners -/

def Scanner (rank : Nat) (α : Type) :=
  (start : List Token) → Scan rank α start

namespace Scanner

def read (scanner : Scanner rank α) : Reader α := fun start =>
  (scanner start).outcome

instance : Monad (Scanner rank) where
  pure a start := .pure a start
  bind scanner next start := (scanner start).andThen (fun a rest _ => next a rest) fun _ _ h =>
    .of_suffix (Scan.suffix_of_ok h)

theorem read_bind (scanner : Scanner rank α) (next : α → Scanner rank β) :
    (scanner >>= next).read start =
      scanner.read start >>= fun found => (next found.1).read found.2 :=
  Scan.outcome_andThen _ fun _ _ _ => rfl

theorem read_bind_of_ok {scanner : Scanner rank α} {a : α}
    (h : scanner.read start = .ok (a, rest)) {next : α → Scanner rank β} :
    (scanner >>= next).read start = (next a).read rest := by
  rw [read_bind, h]
  rfl

theorem read_ite (condition : Prop) [Decidable condition] (yes no : Scanner rank α) :
    (if condition then yes else no).read start =
      if condition then yes.read start else no.read start := by
  split
  · rfl
  · rfl

/-! ### Looking ahead -/

/-- What the tokens ahead say; the cursor stays. -/
def look (f : List Token → α) : Scanner rank α := fun start =>
  .pure (f start) start

def peek : Scanner rank (Option Token) :=
  look List.head?

theorem read_look_bind (f : List Token → α) (next : α → Scanner rank β) :
    (look f >>= next).read start = (next (f start)).read start :=
  rfl

theorem read_peek_bind_cons (next : Option Token → Scanner rank β) (token : Token)
    (after : List Token) :
    (peek >>= next).read (token :: after) = (next (some token)).read (token :: after) :=
  rfl

/-! ### Single steps -/

/-- Wherever the reader stops, it has taken three tokens at most. -/
def Brief (read : Reader α) : Prop :=
  ∀ start, Steps start (stopOf (read start))

def step (read : Reader α) (brief : Brief read) : Scanner rank α := fun start =>
  ⟨read start, ⟨[⟨0, stopOf (read start)⟩], [], []⟩, .step rank (brief start)⟩

theorem brief_readWord (wanted : String) : Brief (readWord wanted) := by
  intro start
  cases start with
  | nil => exact .refl _
  | cons token after =>
    rw [readWord]
    split
    · exact .tail token after
    · exact .refl _

def word (wanted : String) : Scanner rank Token :=
  step (readWord wanted) (brief_readWord wanted)

theorem read_word (wanted : String) : (word wanted : Scanner rank Token).read = readWord wanted :=
  rfl

theorem brief_readIdentifier : Brief readIdentifier := by
  intro start
  cases start with
  | nil => exact .refl _
  | cons token after =>
    rw [readIdentifier]
    split
    · exact .tail token after
    · exact .refl _

def identifier : Scanner rank Token :=
  step readIdentifier brief_readIdentifier

theorem read_identifier : (identifier : Scanner rank Token).read = readIdentifier :=
  rfl

def fail (fault : SyntaxFault) : Scanner rank α :=
  step (fun start => .error ⟨fault, start⟩) Steps.refl

/-- What is split off in one step, without failing. -/
def split (f : List Token → α × List Token) (brief : ∀ start, Steps start (f start).2) :
    Scanner rank α :=
  step (fun start => .ok (f start)) brief

theorem read_split_bind (f : List Token → α × List Token)
    (brief : ∀ start, Steps start (f start).2) (next : α → Scanner rank β) :
    (split f brief >>= next).read start = (next (f start).1).read (f start).2 :=
  rfl

def advance : Scanner rank Unit :=
  split (fun start => ((), start.drop 1)) fun start => ⟨1, by omega, rfl⟩

theorem read_advance_bind (next : Unit → Scanner rank β) (token : Token) (after : List Token) :
    (advance >>= next).read (token :: after) = (next ()).read after :=
  rfl

def eatWord (wanted : String) (tokens : List Token) : Bool × List Token :=
  match passWord? wanted tokens with
  | some after => (true, after)
  | none => (false, tokens)

theorem steps_eatWord (wanted : String) (start : List Token) :
    Steps start (eatWord wanted start).2 := by
  rw [eatWord]
  cases start with
  | nil => exact .refl _
  | cons token after =>
    rw [passWord?]
    by_cases hword : token.isWord wanted
    · rw [if_pos hword]
      exact .tail token after
    · rw [if_neg hword]
      exact .refl _

def eat (wanted : String) : Scanner rank Bool :=
  split (eatWord wanted) (steps_eatWord wanted)

theorem read_eat_bind (wanted : String) (next : Bool → Scanner rank β) :
    (eat wanted >>= next).read start =
      match passWord? wanted start with
      | some after => (next true).read after
      | none => (next false).read start := by
  rw [eat, read_split_bind, eatWord]
  cases passWord? wanted start with
  | none => rfl
  | some after => rfl

def offer (split? : List Token → Option (α × List Token))
    (brief : ∀ {start a rest}, split? start = some (a, rest) → Steps start rest) :
    Scanner rank (Option α) :=
  split
    (fun start =>
      match split? start with
      | some (a, rest) => (some a, rest)
      | none => (none, start))
    (by
      intro start
      cases h : split? start with
      | none => exact .refl start
      | some found => exact brief h)

theorem read_offer (split? : List Token → Option (α × List Token))
    (brief : ∀ {start a rest}, split? start = some (a, rest) → Steps start rest) :
    (offer split? brief : Scanner rank (Option α)).read start =
      .ok (match split? start with
        | some (a, rest) => (some a, rest)
        | none => (none, start)) :=
  rfl

theorem read_offer_bind (split? : List Token → Option (α × List Token))
    (brief : ∀ {start a rest}, split? start = some (a, rest) → Steps start rest)
    (next : Option α → Scanner rank β) :
    (offer split? brief >>= next).read start =
      match split? start with
      | some (a, rest) => (next (some a)).read rest
      | none => (next none).read start := by
  rw [read_bind, read_offer]
  cases split? start with
  | none => rfl
  | some found => rfl

/-! ### Calls, slices, attempts -/

def call (scanner : Scanner rank α) : Scanner (rank + 1) α := fun start =>
  (scanner start).call

theorem read_call (scanner : Scanner rank α) : scanner.call.read = scanner.read :=
  rfl

def slice (scanner : Scanner rank Unit) : Scanner rank (List Token) := fun start =>
  (scanner start).slice

theorem read_slice (scanner : Scanner rank Unit) :
    scanner.slice.read start = (fun found =>
      (start.take (start.length - found.2.length), found.2)) <$> scanner.read start :=
  (scanner start).outcome_slice

def attempt (scanner : Scanner rank α) : Scanner rank (Option α) := fun start =>
  (scanner start).attempt

theorem read_attempt (scanner : Scanner rank α) :
    scanner.attempt.read start =
      match scanner.read start with
      | .error failure => .ok (none, failure.rest)
      | .ok found => .ok (some found.1, found.2) :=
  (scanner start).outcome_attempt

end Scanner

/-! ## Loops -/

/-- What a pass of a loop gives: something, after which the loop goes on, or the end. -/
inductive Pass (σ β α : Type) where
  | more (item : β) (next : σ)
  | done (last : α)

/-- What a loop makes of what a pass gives, if `read` is the rest of the loop. -/
def Pass.goOn {σ β α : Type} (combine : β → α → α) (read : σ → Reader α) :
    Pass σ β α × List Token → Except Failure (α × List Token)
  | (.done last, rest) => .ok (last, rest)
  | (.more item next, rest) => (fun found => (combine item found.1, found.2)) <$> read next rest

/-- A loop that makes nothing of its passes gives what the last one gives. -/
theorem Pass.goOn_more {σ β α : Type} (read : σ → Reader α) (item : β)
    {next : σ} {rest : List Token} :
    Pass.goOn (fun _ last => last) read (.more item next, rest) = read next rest := by
  change _ <$> read next rest = _
  cases read next rest with
  | error failure => rfl
  | ok found => rfl

/-- A pass after which the loop goes on has moved the cursor forward. -/
def Moves {σ β α : Type} (outcome : Except Failure (Pass σ β α × List Token))
    (start : List Token) : Prop :=
  ∀ item next rest, outcome = .ok (.more item next, rest) → ProperSuffix rest start

/-- A loop, all of whose passes start in `whole`, with a state of type `σ`. -/
structure Loop (rank : Nat) (σ β α : Type) (whole : List Token) where
  pass : σ → (start : List Token) → start <:+ whole → Scan rank (Pass σ β α) start
  moves : ∀ state start h, Moves (pass state start h).outcome start
  combine : β → α → α

/-- What is left of a loop: what it gives, and the cursors at which its passes start after the
first. -/
structure Passes (rank : Nat) (α : Type) (start : List Token) where
  scan : Scan rank α start
  later : List (List Token)
  forward : Forward (start :: later)

/-- A pass before the others that moves forward to where they start. -/
theorem Forward.before {later : List (List Token)} (h : Forward (rest :: later))
    (hrest : ProperSuffix rest start) : Forward (start :: rest :: later) := by
  refine .cons (fun cursor hcursor => ?_) h
  rcases List.mem_cons.mp hcursor with rfl | hcursor
  · exact hrest
  · exact (List.rel_of_pairwise_cons h hcursor).trans hrest

def Passes.close (passes : Passes rank α start) : Scan rank α start :=
  ⟨passes.scan.outcome, passes.scan.course.looping (start :: passes.later),
    passes.scan.within.looping passes.forward⟩

theorem Passes.outcome_close (passes : Passes rank α start) :
    passes.close.outcome = passes.scan.outcome :=
  rfl

namespace Loop

variable {whole : List Token}

/-- One pass after the other, until one leaves the loop. -/
def passes (loop : Loop rank σ β α whole) (state : σ) (start : List Token)
    (h : start <:+ whole) : Passes rank α start :=
  match hpass : loop.pass state start h with
  | ⟨.error failure, course, within⟩ =>
    ⟨⟨.error failure, course, within⟩, [], List.pairwise_singleton _ _⟩
  | ⟨.ok (.done last, rest), course, within⟩ =>
    ⟨⟨.ok (last, rest), course, within⟩, [], List.pairwise_singleton _ _⟩
  | ⟨.ok (.more item next, rest), course, within⟩ =>
    have hmoves : ProperSuffix rest start :=
      loop.moves state start h item next rest (by rw [hpass])
    let later := loop.passes next rest (hmoves.suffix.trans h)
    let combined := later.scan.map (loop.combine item)
    { scan := ⟨combined.outcome, course.append combined.course, within.append combined.within
        (.of_suffix hmoves.suffix)⟩
      later := rest :: later.later
      forward := later.forward.before hmoves }
termination_by start.length
decreasing_by exact hmoves.shorter

/-- A reader that makes of each pass what the loop does is the loop without its course. -/
theorem outcome_passes (loop : Loop rank σ β α whole) (read : σ → Reader α)
    (hread : ∀ state start h, read state start =
      (loop.pass state start h).outcome >>= Pass.goOn loop.combine read)
    (state : σ) (start : List Token) (h : start <:+ whole) :
    (loop.passes state start h).scan.outcome = read state start := by
  fun_induction passes loop state start h with
  | case1 state start h failure course within hpass =>
    rw [hread state start h, hpass]
    rfl
  | case2 state start h last rest course within hpass =>
    rw [hread state start h, hpass]
    rfl
  | case3 state start h item next rest course within hpass _ later combined ih =>
    rw [hread state start h, hpass]
    exact (Scan.outcome_map _ _).trans (congrArg _ ih)

end Loop

namespace Scanner

def loop (pass : σ → Scanner rank (Pass σ β α))
    (moves : ∀ state start, Moves ((pass state).read start) start) (combine : β → α → α)
    (state : σ) : Scanner rank α := fun start =>
  (Loop.passes ⟨fun state start _ => pass state start, fun state start _ => moves state start,
    combine⟩ state start (List.suffix_refl start)).close

theorem read_loop {pass : σ → Scanner rank (Pass σ β α)}
    {moves : ∀ state start, Moves ((pass state).read start) start} {combine : β → α → α}
    (read : σ → Reader α) (hread : ∀ state start, read state start =
      (pass state).read start >>= Pass.goOn combine read) (state : σ) :
    (loop pass moves combine state).read = read state :=
  funext fun start =>
    Loop.outcome_passes _ read (fun state start _ => hread state start) state start _

/-! ### Loops of single steps -/

/-- What `split?` finds is a single step, and not an empty one. -/
def Splits (split? : σ → List Token → Option (β × σ × List Token)) : Prop :=
  ∀ state start item next rest, split? state start = some (item, next, rest) →
    Steps start rest ∧ ProperSuffix rest start

section

variable {split? : σ → List Token → Option (β × σ × List Token)}

/-- The loop goes on with what `split?` finds, and else gives `last`. -/
def splitOnce (split? : σ → List Token → Option (β × σ × List Token)) (last : α) (state : σ)
    (start : List Token) : Pass σ β α × List Token :=
  match split? state start with
  | some (item, next, rest) => (.more item next, rest)
  | none => (.done last, start)

theorem steps_splitOnce (splits : Splits split?) (last : α) (state : σ) (start : List Token) :
    Steps start (splitOnce split? last state start).2 := by
  rw [splitOnce]
  split
  · next item next rest h => exact (splits state start item next rest h).1
  · exact .refl start

def splitEach (split? : σ → List Token → Option (β × σ × List Token)) (splits : Splits split?)
    (combine : β → α → α) (last : α) : σ → Scanner rank α :=
  loop (fun state => split (splitOnce split? last state) (steps_splitOnce splits last state))
    (by
      intro state start item next rest h
      have hfound : splitOnce split? last state start = (.more item next, rest) := Except.ok.inj h
      rw [splitOnce] at hfound
      split at hfound
      · next hsplit =>
        cases hfound
        exact (splits state start _ _ _ hsplit).2
      · cases hfound)
    combine

theorem read_splitEach {splits : Splits split?} {combine : β → α → α} {last : α}
    (read : σ → List Token → α × List Token)
    (hread : ∀ state start, read state start =
      match split? state start with
      | some (item, next, rest) => (combine item (read next rest).1, (read next rest).2)
      | none => (last, start)) (state : σ) :
    (splitEach split? splits combine last state : Scanner rank α).read start =
      .ok (read state start) := by
  refine congrFun (read_loop (fun state start => .ok (read state start)) ?_ state) start
  intro state start
  change _ = Pass.goOn combine _ (splitOnce split? last state start)
  rw [hread, splitOnce]
  cases split? state start with
  | none => rfl
  | some found => rfl

end

def stepOver? (next? : σ → Token → Option σ) (state : σ) :
    List Token → Option (Unit × σ × List Token)
  | [] => none
  | token :: after => (next? state token).map fun next => ((), next, after)

theorem splits_stepOver? (next? : σ → Token → Option σ) : Splits (stepOver? next?) := by
  intro state start item next rest h
  cases start with
  | nil => cases h
  | cons token after =>
    obtain ⟨_, -, hfound⟩ := Option.map_eq_some_iff.mp h
    cases hfound
    exact ⟨.tail token _, .tail⟩

def walkRest (next? : σ → Token → Option σ) (state : σ) : List Token → List Token
  | [] => []
  | token :: after =>
    match next? state token with
    | some next => walkRest next? next after
    | none => token :: after

theorem walkRest_suffix (next? : σ → Token → Option σ) (state : σ) (tokens : List Token) :
    walkRest next? state tokens <:+ tokens := by
  fun_induction walkRest next? state tokens with
  | case1 => exact List.suffix_refl _
  | case2 state token after next _ ih => exact (ProperSuffix.of_suffix ih).suffix
  | case3 => exact List.suffix_refl _

/-- Token by token up to the first one with which `next?` does not go on. -/
def walk (next? : σ → Token → Option σ) : σ → Scanner rank Unit :=
  splitEach (stepOver? next?) (splits_stepOver? next?) (fun _ _ => ()) ()

theorem read_walk (next? : σ → Token → Option σ) (state : σ) :
    (walk next? state : Scanner rank Unit).read start = .ok ((), walkRest next? state start) := by
  refine read_splitEach (fun state start => ((), walkRest next? state start)) ?_ state
  intro state start
  cases start with
  | nil => rfl
  | cons token after =>
    rw [walkRest, stepOver?]
    cases next? state token with
    | none => rfl
    | some next => rfl

theorem read_slice_walk (next? : σ → Token → Option σ) (state : σ) :
    (slice (walk next? state) : Scanner rank (List Token)).read start =
      .ok (start.take (start.length - (walkRest next? state start).length),
        walkRest next? state start) := by
  rw [read_slice, read_walk]
  rfl

def walkWhile (p : Token → Bool) : Scanner rank Unit :=
  walk (fun _ token => if p token then some () else none) ()

theorem read_walkWhile (p : Token → Bool) :
    (walkWhile p : Scanner rank Unit).read start = .ok ((), start.dropWhile p) := by
  rw [walkWhile, read_walk]
  congr 2
  induction start with
  | nil => rfl
  | cons token after ih =>
    rw [walkRest, List.dropWhile_cons]
    cases p token with
    | false => rfl
    | true => exact ih

end Scanner

end WireSchema.Swift
