import WireSchema.Fault
import WireSchema.Logged

/-!
# Disks

The operations on files and folders that the rest relies on, whatever carries them
out: the system itself, or a tree kept as a value. A `Job` is a computation that
uses a disk, may warn and may fail.
-/

namespace WireSchema.Files

/-- What stands at a path. Two paths lead to the same folder if the identities agree. -/
inductive Standing where
  | file
  | folder (identity : String)
  | other
deriving DecidableEq, Repr

/-- The order in which tasks end that run side by side. Each of them ends once. -/
structure Schedule (count : Nat) where
  order : List (Fin count)
  complete : order.Perm (List.finRange count)

def Schedule.inOrder (count : Nat) : Schedule count :=
  ⟨List.finRange count, .refl _⟩

/-- A disk, whose operations run in `m`. Links are followed except by `isLink`. -/
structure Disk (m : Type → Type) where
  look : String → m (Except IoError Standing)
  isLink : String → m Bool
  /-- The names of the entries of a folder, in any order. -/
  names : String → m (Except IoError (List String))
  read : String → m (Except IoError ByteArray)
  write : String → ByteArray → m (Except IoError Unit)
  /-- Creates a folder, and those it is in, where they are missing. -/
  createFolders : String → m (Except IoError Unit)
  /-- No path that comes back to no folder is longer than this. -/
  maxDepth : m Nat
  /-- The order in which so many tasks end that use the disk side by side. -/
  schedule : (count : Nat) → m (Schedule count)

/-- Carries out a task for every item, all of them side by side. The results are in the order
of the items, whatever order the tasks end in. -/
def runTasks {m : Type → Type} [Monad m] {α β : Type} (disk : Disk m) (task : α → m β)
    (items : List α) : m (List β) := do
  let schedule ← disk.schedule items.length
  let ended ← schedule.order.mapM fun i => do return (i, ← task items[i])
  return (ended.mergeSort fun a b => decide (a.1 ≤ b.1)).map Prod.snd

/-- A computation in `m` that may warn and may fail. -/
structure Job (m : Type → Type) (α : Type) where
  run : m (Logged Warning Fault α)

namespace Job

variable {m : Type → Type} [Monad m] {α β : Type}

def ok (a : α) : Job m α :=
  ⟨pure (.ok a)⟩

def andThen (x : Job m α) (f : α → Job m β) : Job m β :=
  ⟨do
    let first ← x.run
    match first.result with
    | .error fault => return ⟨first.log, .error fault⟩
    | .ok a =>
      let second ← (f a).run
      return ⟨first.log ++ second.log, second.result⟩⟩

instance : Monad (Job m) where
  pure := ok
  bind := andThen

def lift (x : m α) : Job m α :=
  ⟨do return .ok (← x)⟩

def ofLogged (x : Logged Warning Fault α) : Job m α :=
  ⟨pure x⟩

def access (x : m (Except IoError α)) : Job m α :=
  ⟨do return .ofExcept ((← x).mapError fun error => .access (.io error))⟩

end Job

end WireSchema.Files
