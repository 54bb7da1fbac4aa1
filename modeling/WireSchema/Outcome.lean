/-!
# Outcomes of steps that may fail

What a step gave is needed as evidence in two places: a lemma about a run of steps
takes the run apart into its steps, and a recursion ends because of what the steps
before it have left. `bind_eq_ok_iff` serves the first, `attach` the second.
-/

namespace WireSchema.Outcome

variable {ε α β : Type} {step : Except ε α}

/-- Two steps in a row succeed exactly when the first gives something with which the second
succeeds. -/
theorem bind_eq_ok_iff {next : α → Except ε β} {b : β} :
    (step >>= next) = .ok b ↔ ∃ a, step = .ok a ∧ next a = .ok b := by
  constructor
  · intro h
    cases step with
    | error e => cases h
    | ok a => exact ⟨a, rfl, h⟩
  · rintro ⟨a, rfl, h⟩
    exact h

/-- The step, giving its value together with the evidence that it gave it. -/
def attach (step : Except ε α) : Except ε { a // step = .ok a } :=
  match step with
  | .error e => .error e
  | .ok a => .ok ⟨a, rfl⟩

/-- A step goes on in the same way with the evidence and without it. -/
theorem attach_bind_congr {f : { a // step = .ok a } → Except ε β} {g : α → Except ε β}
    (h : ∀ a evidence, f ⟨a, evidence⟩ = g a) : attach step >>= f = step >>= g := by
  cases step with
  | error e => rfl
  | ok a => exact h a rfl

end WireSchema.Outcome
