/-!
# Computations that log

A computation may log warnings on its way and may fail. What was logged before a
failure stays in the log.
-/

namespace WireSchema

/-- How malformed parts of an input are met. -/
inductive Strictness where
  /-- Leave them out with a warning. -/
  | lenient
  /-- Fail at the first of them. -/
  | strict
deriving DecidableEq, Repr

/-- A result of type `α` or a failure of type `ε`, with the warnings logged on the way. -/
structure Logged (ω ε α : Type) where
  log : List ω
  result : Except ε α

namespace Logged

variable {ω ε α β : Type}

def ok (a : α) : Logged ω ε α := ⟨[], .ok a⟩

def fail (e : ε) : Logged ω ε α := ⟨[], .error e⟩

def warn (w : ω) : Logged ω ε Unit := ⟨[w], .ok ()⟩

def ofExcept (x : Except ε α) : Logged ω ε α := ⟨[], x⟩

/-- Goes on with the result, if there is one. -/
def andThen (x : Logged ω ε α) (f : α → Logged ω ε β) : Logged ω ε β :=
  match x.result with
  | .error e => ⟨x.log, .error e⟩
  | .ok a =>
    let y := f a
    ⟨x.log ++ y.log, y.result⟩

instance : Monad (Logged ω ε) where
  pure := ok
  bind := andThen

def mapError {δ : Type} (f : ε → δ) (x : Logged ω ε α) : Logged ω δ α :=
  ⟨x.log, x.result.mapError f⟩

def mapLog {χ : Type} (f : ω → χ) (x : Logged ω ε α) : Logged χ ε α :=
  ⟨x.log.map f, x.result⟩

/-- The results of `f` on the elements of a list that have one, in order. -/
def collect (f : α → Logged ω ε (Option β)) : List α → Logged ω ε (List β)
  | [] => ok []
  | a :: later => do
    let b? ← f a
    let bs ← collect f later
    return b?.toList ++ bs

@[simp] theorem log_pure (a : α) : (pure a : Logged ω ε α).log = [] := rfl

@[simp] theorem result_pure (a : α) : (pure a : Logged ω ε α).result = .ok a := rfl

@[simp] theorem pure_bind (a : α) (f : α → Logged ω ε β) :
    (pure a : Logged ω ε α) >>= f = f a := rfl

@[simp] theorem ok_bind (a : α) (f : α → Logged ω ε β) : ok a >>= f = f a := rfl

theorem bind_eq (x : Logged ω ε α) (f : α → Logged ω ε β) : x >>= f = x.andThen f := rfl

end Logged

end WireSchema
