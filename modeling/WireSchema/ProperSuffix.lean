/-!
# Proper suffixes

What a reader leaves of a list after it has taken something from the front is a
proper suffix of the list. Progress is stated this way for every reader of the
library: the suffix says that tokens are neither invented nor reordered, and the
length is what well-founded recursion goes down by.
-/

namespace WireSchema

/-- `rest` is what is left of `items` after one or more are taken from the front. -/
structure ProperSuffix {α : Type} (rest items : List α) : Prop where
  suffix : rest <:+ items
  shorter : rest.length < items.length

namespace ProperSuffix

variable {α : Type} {a : α} {rest middle items : List α}

/-- A suffix stays one, and becomes proper, when an item is put in front of the whole. -/
theorem of_suffix (h : rest <:+ items) : ProperSuffix rest (a :: items) :=
  ⟨h.trans (List.suffix_cons a items), Nat.lt_succ_of_le h.length_le⟩

theorem of_append {run : List α} (h : run ++ rest = items) (nonempty : run ≠ []) :
    ProperSuffix rest items := by
  cases run with
  | nil => exact absurd rfl nonempty
  | cons first more =>
    subst h
    exact of_suffix (List.suffix_append more rest)

theorem tail : ProperSuffix items (a :: items) :=
  of_suffix (List.suffix_refl items)

theorem cons (h : ProperSuffix rest items) : ProperSuffix rest (a :: items) :=
  of_suffix h.suffix

theorem trans_suffix (h₁ : ProperSuffix rest middle) (h₂ : middle <:+ items) :
    ProperSuffix rest items :=
  ⟨h₁.suffix.trans h₂, Nat.lt_of_lt_of_le h₁.shorter h₂.length_le⟩

theorem suffix_trans (h₁ : rest <:+ middle) (h₂ : ProperSuffix middle items) :
    ProperSuffix rest items :=
  ⟨h₁.trans h₂.suffix, Nat.lt_of_le_of_lt h₁.length_le h₂.shorter⟩

theorem trans (h₁ : ProperSuffix rest middle) (h₂ : ProperSuffix middle items) :
    ProperSuffix rest items :=
  h₁.trans_suffix h₂.suffix

/-- Three readers in a row leave a proper suffix. -/
theorem trans_trans {inner : List α} (h₁ : ProperSuffix rest middle)
    (h₂ : ProperSuffix middle inner) (h₃ : ProperSuffix inner items) : ProperSuffix rest items :=
  (h₁.trans h₂).trans h₃

end ProperSuffix

/-- A value read from the front of `items`, and the items after it. -/
structure Taken {τ : Type} (α : Type) (items : List τ) where
  value : α
  rest : List τ
  proper : ProperSuffix rest items

namespace Taken

variable {τ α : Type} {items : List τ}

def ofPair (read : α × List τ) (proper : ProperSuffix read.2 items) : Taken α items :=
  ⟨read.1, read.2, proper⟩

def pair (taken : Taken α items) : α × List τ :=
  (taken.value, taken.rest)

end Taken

end WireSchema
