import WireSchema.Logged

/-!
# Runs that log

What a run gives is put together from what its parts give, and so is what it logs.

Of two runs of a program, a strict one may fail where a lenient one only warns. Then the
strict run is the lenient one up to the first of these warnings. `stopAt` says so for a
run as a whole, and passes through the ways in which runs are put together.
-/

namespace WireSchema

namespace Logged

variable {ω ε α β γ : Type}

/-! ## Results -/

theorem bind_of_ok (log : List ω) (a : α) (next : α → Logged ω ε β) :
    (⟨log, .ok a⟩ >>= next : Logged ω ε β) = ⟨log ++ (next a).log, (next a).result⟩ :=
  rfl

theorem result_bind_eq_ok_iff {x : Logged ω ε α} {f : α → Logged ω ε β} {b : β} :
    (x >>= f).result = .ok b ↔ ∃ a, x.result = .ok a ∧ (f a).result = .ok b := by
  rcases x with ⟨log, fault | a⟩
  · simp [bind_eq, andThen]
  · simp [bind_eq, andThen]

/-- Whatever the run gives, if it gives anything, satisfies `P`. -/
def Gives (P : α → Prop) (run : Logged ω ε α) : Prop :=
  ∀ a, run.result = .ok a → P a

namespace Gives

variable {P : α → Prop} {Q : β → Prop}

theorem pure {a : α} (h : P a) : Gives P (Pure.pure a : Logged ω ε α) := by
  rintro _ ⟨⟩
  exact h

theorem fail (e : ε) : Gives P (Logged.fail e : Logged ω ε α) :=
  nofun

theorem bind {run : Logged ω ε α} {next : α → Logged ω ε β} (hrun : Gives P run)
    (hnext : ∀ a, P a → Gives Q (next a)) : Gives Q (run >>= next) := by
  intro b hb
  obtain ⟨a, ha, hb⟩ := result_bind_eq_ok_iff.mp hb
  exact hnext a (hrun a ha) b hb

/-- A step of which nothing has to be known. -/
theorem andThen {run : Logged ω ε α} {next : α → Logged ω ε β} (hnext : ∀ a, Gives Q (next a)) :
    Gives Q (run >>= next) :=
  bind (P := fun _ => True) (fun _ _ => trivial) fun a _ => hnext a

theorem map {run : Logged ω ε α} {f : α → β} (hrun : Gives P run) (hf : ∀ a, P a → Q (f a)) :
    Gives Q (f <$> run) :=
  hrun.bind fun a ha => .pure (hf a ha)

theorem found {a : α} (h : P a) :
    Gives (fun a? => ∀ a ∈ a?, P a) (Pure.pure (some a) : Logged ω ε (Option α)) := by
  refine .pure ?_
  rintro _ ⟨⟩
  exact h

theorem missing : Gives (fun a? => ∀ a ∈ a?, P a) (Pure.pure none : Logged ω ε (Option α)) :=
  .pure nofun

/-- A step that may give nothing. -/
theorem bindOption {run : Logged ω ε (Option α)} {next : Option α → Logged ω ε β}
    (hrun : Gives (fun a? => ∀ a ∈ a?, P a) run) (hmissing : Gives Q (next none))
    (hfound : ∀ a, P a → Gives Q (next (some a))) : Gives Q (run >>= next) := by
  refine hrun.bind fun a? ha => ?_
  cases a? with
  | none => exact hmissing
  | some a => exact hfound a (ha a rfl)

/-- What every step keeps is kept by a run of steps. -/
theorem foldlM {step : β → α → Logged ω ε β} (hstep : ∀ b a, Q b → Gives Q (step b a))
    (as : List α) {start : β} (hstart : Q start) : Gives Q (as.foldlM step start) := by
  induction as generalizing start with
  | nil => exact .pure hstart
  | cons a later ih =>
    rw [List.foldlM_cons]
    exact (hstep start a hstart).bind fun _ hnext => ih hnext

end Gives

/-! ## Collecting -/

theorem collect_map (f : β → Logged ω ε (Option γ)) (g : α → β) (as : List α) :
    collect f (as.map g) = collect (fun a => f (g a)) as := by
  induction as with
  | nil => rfl
  | cons a later ih =>
    rw [List.map_cons, collect, collect, ih]

/-- Elements that are the same up to what `key` forgets, with the same results, are collected
alike. -/
theorem collect_eq_of_map_eq {κ : Type} {key : α → κ} {f g : α → Logged ω ε (Option β)}
    {as bs : List α} (h : as.map key = bs.map key)
    (hresults : ∀ a ∈ as, ∀ b ∈ bs, key a = key b → f a = g b) : collect f as = collect g bs := by
  induction as generalizing bs with
  | nil => rw [List.map_eq_nil_iff.mp h.symm]; rfl
  | cons a as ih =>
    obtain ⟨b, bs, rfl, hkey, hlater⟩ := List.map_eq_cons_iff.mp h.symm
    rw [collect, collect, hresults a List.mem_cons_self b List.mem_cons_self hkey.symm,
      ih hlater.symm fun a ha b hb =>
        hresults a (List.mem_cons_of_mem _ ha) b (List.mem_cons_of_mem _ hb)]

theorem exists_of_mem_collect {f : α → Logged ω ε (Option β)} {as : List α} {bs : List β}
    (h : (collect f as).result = .ok bs) {b : β} (hb : b ∈ bs) :
    ∃ a ∈ as, (f a).result = .ok (some b) := by
  induction as generalizing bs with
  | nil =>
    cases h
    cases hb
  | cons a later ih =>
    rw [collect] at h
    obtain ⟨b?, hfirst, h⟩ := result_bind_eq_ok_iff.mp h
    obtain ⟨others, hlater, h⟩ := result_bind_eq_ok_iff.mp h
    cases h
    rcases List.mem_append.mp hb with hhead | htail
    · rw [Option.mem_toList.mp hhead] at hfirst
      exact ⟨a, List.mem_cons_self, hfirst⟩
    · obtain ⟨a', hmem, hresult⟩ := ih hlater htail
      exact ⟨a', List.mem_cons_of_mem a hmem, hresult⟩

/-- Elements all of which have a result, if not all of them one that counts. -/
theorem collect_of_result {f : α → Logged ω ε (Option β)} {g : α → Option β} {as : List α}
    (h : ∀ a ∈ as, (f a).result = .ok (g a)) :
    collect f as = ⟨as.flatMap fun a => (f a).log, .ok (as.filterMap g)⟩ := by
  induction as with
  | nil => rfl
  | cons a later ih =>
    have hlater := ih fun other hother => h other (List.mem_cons_of_mem a hother)
    have hfirst : f a = ⟨(f a).log, .ok (g a)⟩ := by rw [← h a List.mem_cons_self]
    rw [collect, hlater, hfirst]
    cases hg : g a with
    | none => simp [bind_eq, andThen, hg, pure, ok]
    | some b => simp [bind_eq, andThen, hg, pure, ok]

/-- Elements none of which logs anything or fails. -/
theorem collect_eq_pure {f : α → Logged ω ε (Option β)} {g : α → Option β} {as : List α}
    (h : ∀ a ∈ as, f a = pure (g a)) : collect f as = pure (as.filterMap g) := by
  have hlog : (as.flatMap fun a => (f a).log) = [] :=
    List.flatMap_eq_nil_iff.mpr fun a ha => congrArg log (h a ha)
  rw [collect_of_result fun a ha => congrArg result (h a ha), hlog]
  rfl

/-! ## Stopping at a warning -/

variable (fault? : ω → Option ε)

/-- The warnings before the first that is a fault. -/
def beforeFault (log : List ω) : List ω :=
  log.takeWhile fun warning => (fault? warning).isNone

/-- The run up to the first of its warnings that is a fault. -/
def stopAt (run : Logged ω ε α) : Logged ω ε α :=
  match run.log.findSome? fault? with
  | none => run
  | some fault => ⟨beforeFault fault? run.log, .error fault⟩

variable {fault?}

theorem stopAt_of_none {run : Logged ω ε α} (h : run.log.findSome? fault? = none) :
    run.stopAt fault? = run := by
  rw [stopAt, h]

theorem stopAt_of_some {run : Logged ω ε α} {fault : ε}
    (h : run.log.findSome? fault? = some fault) :
    run.stopAt fault? = ⟨beforeFault fault? run.log, .error fault⟩ := by
  rw [stopAt, h]

theorem result_stopAt (run : Logged ω ε α) :
    (run.stopAt fault?).result =
      match run.log.filterMap fault? with
      | fault :: _ => .error fault
      | [] => run.result := by
  rw [stopAt, ← List.head?_filterMap]
  cases run.log.filterMap fault? <;> rfl

theorem beforeFault_append_of_none {first : List ω} (h : first.findSome? fault? = none)
    (second : List ω) :
    beforeFault fault? (first ++ second) = first ++ beforeFault fault? second := by
  rw [beforeFault, List.takeWhile_append_of_pos]
  · rfl
  · intro warning hwarning
    rw [List.findSome?_eq_none_iff.mp h warning hwarning]
    rfl

theorem beforeFault_append_of_some {first : List ω} {fault : ε}
    (h : first.findSome? fault? = some fault) (second : List ω) :
    beforeFault fault? (first ++ second) = beforeFault fault? first := by
  induction first with
  | nil => cases h
  | cons warning later ih =>
    cases hwarning : fault? warning with
    | some _ => simp [beforeFault, hwarning]
    | none =>
      have hlater : later.findSome? fault? = some fault := by
        simpa [List.findSome?_cons, hwarning] using h
      simpa [beforeFault, hwarning] using ih hlater

/-- A run that has failed before a fault does not get to it, and one that has stopped at a
fault does not go on. -/
theorem stopAt_bind (run : Logged ω ε α) (next : α → Logged ω ε β) :
    (run >>= next).stopAt fault? = run.stopAt fault? >>= fun a => (next a).stopAt fault? := by
  rcases run with ⟨log, error | a⟩
  · cases hlog : log.findSome? fault? with
    | none => simp [bind_eq, andThen, stopAt, hlog]
    | some fault => simp [bind_eq, andThen, stopAt, hlog]
  · cases hlog : log.findSome? fault? with
    | some fault =>
      simp [bind_eq, andThen, stopAt, hlog, List.findSome?_append, beforeFault_append_of_some hlog]
    | none =>
      cases hnext : (next a).log.findSome? fault? with
      | none => simp [bind_eq, andThen, stopAt, hlog, hnext, List.findSome?_append]
      | some fault =>
        simp [bind_eq, andThen, stopAt, hlog, hnext, List.findSome?_append,
          beforeFault_append_of_none hlog]

theorem stopAt_collect (f : α → Logged ω ε (Option β)) (as : List α) :
    (collect f as).stopAt fault? = collect (fun a => (f a).stopAt fault?) as := by
  induction as with
  | nil => rfl
  | cons a later ih =>
    rw [collect, collect, stopAt_bind]
    refine congrArg _ (funext fun b? => ?_)
    rw [stopAt_bind, ih]
    rfl

end Logged

end WireSchema
