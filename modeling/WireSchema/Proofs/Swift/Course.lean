import WireSchema.Swift.Reading

/-!
# Courses of readers

A reader tells what it makes of the tokens, not how it gets there. Scanners are readers that
come with the course they take: the places where the cursor stands and how many calls are open
there, the slices they cut out, and the cursors at which the passes of their loops start.
A cursor is given by the tokens that are left, so that the end is the empty list.

A scanner is put together from single steps, which take three tokens at most, by `bind`,
`call`, `slice`, `attempt` and `loop`. Each of these keeps the course in bounds, so that what
`Course.Within` says is true of everything that is built from them. The `rank` of a scanner is the
number of calls that may be open in it before the cursor has moved; each token that is taken
allows two more.
-/

namespace WireSchema.Swift

/-! ## Courses -/

/-- A place on the way: how many calls are open, and the tokens that are left. -/
structure Visit where
  depth : Nat
  rest : List Token

def Visit.deeper (visit : Visit) : Visit :=
  { visit with depth := visit.depth + 1 }

/-- Tokens that are cut out, by the cursors before and behind them. -/
structure Slice where
  start : List Token
  stop : List Token

structure Course where
  visits : List Visit
  slices : List Slice
  /-- For each time that a loop is run, the cursors at which its passes start. -/
  loops : List (List (List Token))

namespace Course

def empty : Course :=
  ⟨[], [], []⟩

def append (first second : Course) : Course :=
  ⟨first.visits ++ second.visits, first.slices ++ second.slices, first.loops ++ second.loops⟩

def called (start : List Token) (course : Course) : Course :=
  { course with visits := ⟨1, start⟩ :: course.visits.map Visit.deeper }

def slicing (slice : Slice) (course : Course) : Course :=
  { course with slices := course.slices ++ [slice] }

def looping (starts : List (List Token)) (course : Course) : Course :=
  { course with loops := course.loops ++ [starts] }

end Course

/-! ## Bounds -/

/-- From one cursor to the other in a single step. -/
def Steps (start stop : List Token) : Prop :=
  ∃ n ≤ 3, stop = start.drop n

def Leads : List Token → List Visit → List Token → Prop
  | start, [], stop => stop = start
  | start, visit :: later, stop => Steps start visit.rest ∧ Leads visit.rest later stop

/-- Passes that start at these cursors move forward, the last perhaps apart. -/
def Forward (starts : List (List Token)) : Prop :=
  starts.Pairwise fun earlier later => ProperSuffix later earlier

/-- How many calls may be open at `rest`, if `rank` may be at `start`: two more for each token
that has been taken between them. -/
def Allows (rank : Nat) (start : List Token) (rank' : Nat) (rest : List Token) : Prop :=
  2 * rest.length + rank' ≤ 2 * start.length + rank

/-- A course from one cursor to another that is in bounds. -/
structure Course.Within (rank : Nat) (start stop : List Token) (course : Course) : Prop where
  leads : Leads start course.visits stop
  shallow : ∀ visit ∈ course.visits, Allows rank start visit.depth visit.rest
  slices : ∀ slice ∈ course.slices, slice.stop <:+ slice.start ∧ slice.start <:+ start
  loops : ∀ starts ∈ course.loops, Forward starts ∧ ∀ cursor ∈ starts, cursor <:+ start

variable {rank rank' : Nat} {start middle stop : List Token}

theorem Allows.of_suffix (h : stop <:+ start) : Allows rank start rank stop :=
  Nat.add_le_add_right (Nat.mul_le_mul_left 2 h.length_le) rank

theorem Allows.of_properSuffix (h : ProperSuffix stop start) (hrank : rank' ≤ rank + 2) :
    Allows rank start rank' stop := by
  have := h.shorter
  rw [Allows]
  omega

theorem Allows.trans {rank'' : Nat} (h : Allows rank start rank' middle)
    (h' : Allows rank' middle rank'' stop) : Allows rank start rank'' stop :=
  Nat.le_trans h' h

theorem Steps.refl (start : List Token) : Steps start start :=
  ⟨0, Nat.zero_le 3, rfl⟩

theorem Steps.tail (token : Token) (after : List Token) : Steps (token :: after) after :=
  ⟨1, by omega, rfl⟩

theorem Steps.suffix (h : Steps start stop) : stop <:+ start := by
  obtain ⟨n, -, rfl⟩ := h
  exact List.drop_suffix n start

namespace Leads

variable {visits visits' : List Visit}

theorem suffix (h : Leads start visits stop) : stop <:+ start := by
  induction visits generalizing start with
  | nil => exact h ▸ List.suffix_refl _
  | cons visit later ih => exact (ih h.2).trans h.1.suffix

theorem append (h : Leads start visits middle) (h' : Leads middle visits' stop) :
    Leads start (visits ++ visits') stop := by
  induction visits generalizing start with
  | nil => exact h ▸ h'
  | cons visit later ih => exact ⟨h.1, ih h.2⟩

/-- Only the cursors matter, not the calls that are open. -/
theorem deeper (h : Leads start visits stop) : Leads start (visits.map Visit.deeper) stop := by
  induction visits generalizing start with
  | nil => exact h
  | cons visit later ih => exact ⟨h.1, ih h.2⟩

/-- Every place on the way lies between the ends. -/
theorem between (h : Leads start visits stop) {visit : Visit} (hvisit : visit ∈ visits) :
    visit.rest <:+ start ∧ stop <:+ visit.rest := by
  induction visits generalizing start with
  | nil => cases hvisit
  | cons first later ih =>
    rcases List.mem_cons.mp hvisit with rfl | hvisit
    · exact ⟨h.1.suffix, suffix h.2⟩
    · exact ⟨(ih h.2 hvisit).1.trans h.1.suffix, (ih h.2 hvisit).2⟩

/-- The cursor never moves back. -/
theorem pairwise (h : Leads start visits stop) :
    visits.Pairwise fun earlier later => later.rest <:+ earlier.rest := by
  induction visits generalizing start with
  | nil => exact .nil
  | cons visit later ih => exact .cons (fun next hnext => (between h.2 hnext).1) (ih h.2)

end Leads

/-- Each pass but the last takes a token at least. -/
theorem Forward.length_le {starts : List (List Token)} (h : Forward starts)
    (hstarts : ∀ cursor ∈ starts, cursor <:+ start) : starts.length ≤ start.length + 1 := by
  cases starts with
  | nil => exact Nat.zero_le _
  | cons first later =>
    have hfirst := (hstarts first List.mem_cons_self).length_le
    have hlater : later.length ≤ first.length := by
      clear hstarts hfirst
      induction later generalizing first with
      | nil => exact Nat.zero_le _
      | cons second others ih =>
        have hsecond := (List.rel_of_pairwise_cons h List.mem_cons_self).shorter
        have hothers := ih second h.of_cons
        rw [List.length_cons]
        omega
    rw [List.length_cons]
    omega

namespace Course.Within

variable {course course' : Course}

theorem empty (rank : Nat) (start : List Token) : Within rank start start .empty where
  leads := rfl
  shallow := nofun
  slices := nofun
  loops := nofun

theorem step (rank : Nat) (h : Steps start stop) :
    Within rank start stop ⟨[⟨0, stop⟩], [], []⟩ where
  leads := ⟨h, rfl⟩
  shallow := by
    intro visit hvisit
    rw [List.mem_singleton.mp hvisit]
    have := h.suffix.length_le
    rw [Allows]
    dsimp only
    omega
  slices := nofun
  loops := nofun

/-- A course behind another one may open more calls, two for each token that the first one has
taken. -/
theorem append (h : course.Within rank start middle) (h' : course'.Within rank' middle stop)
    (hrank : Allows rank start rank' middle) :
    (course.append course').Within rank start stop where
  leads := h.leads.append h'.leads
  shallow := by
    intro visit hvisit
    rcases List.mem_append.mp hvisit with hvisit | hvisit
    · exact h.shallow visit hvisit
    · exact hrank.trans (h'.shallow visit hvisit)
  slices := by
    intro slice hslice
    rcases List.mem_append.mp hslice with hslice | hslice
    · exact h.slices slice hslice
    · obtain ⟨hstop, hstart⟩ := h'.slices slice hslice
      exact ⟨hstop, hstart.trans h.leads.suffix⟩
  loops := by
    intro starts hstarts
    rcases List.mem_append.mp hstarts with hstarts | hstarts
    · exact h.loops starts hstarts
    · obtain ⟨hforward, hstart⟩ := h'.loops starts hstarts
      exact ⟨hforward, fun cursor hcursor => (hstart cursor hcursor).trans h.leads.suffix⟩

theorem called (h : course.Within rank start stop) :
    (course.called start).Within (rank + 1) start stop where
  leads := ⟨.refl start, h.leads.deeper⟩
  shallow := by
    intro visit hvisit
    rcases List.mem_cons.mp hvisit with rfl | hvisit
    · rw [Allows]
      dsimp only
      omega
    · obtain ⟨inside, hinside, rfl⟩ := List.mem_map.mp hvisit
      have := h.shallow inside hinside
      rw [Allows] at this ⊢
      dsimp only [Visit.deeper]
      omega
  slices := h.slices
  loops := h.loops

theorem slicing (h : course.Within rank start stop) :
    (course.slicing ⟨start, stop⟩).Within rank start stop where
  leads := h.leads
  shallow := h.shallow
  slices := by
    intro slice hslice
    rcases List.mem_append.mp hslice with hslice | hslice
    · exact h.slices slice hslice
    · rw [List.mem_singleton.mp hslice]
      exact ⟨h.leads.suffix, List.suffix_refl start⟩
  loops := h.loops

theorem looping {starts : List (List Token)} (h : course.Within rank start stop)
    (hforward : Forward (start :: starts)) :
    (course.looping (start :: starts)).Within rank start stop where
  leads := h.leads
  shallow := h.shallow
  slices := h.slices
  loops := by
    intro others hothers
    rcases List.mem_append.mp hothers with hothers | hothers
    · exact h.loops others hothers
    · rw [List.mem_singleton.mp hothers]
      refine ⟨hforward, fun cursor hcursor => ?_⟩
      rcases List.mem_cons.mp hcursor with rfl | hcursor
      · exact List.suffix_refl cursor
      · exact (List.rel_of_pairwise_cons hforward hcursor).suffix

end Course.Within

end WireSchema.Swift
