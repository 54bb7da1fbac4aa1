import WireSchema.Files.Disk
import Mathlib.Data.List.FinRange
import Mathlib.Data.List.Forall2

/-!
# What runs on a disk give

A disk keeps a state, and what it answers may depend on it: the order of the names in a
folder, or the order in which tasks end. A statement about every run is one about every state
with an invariant that all operations keep.
-/

namespace WireSchema.Files

variable {σ α β : Type}

/-- From every state with the invariant, the computation gives a value with the property and
leaves a state with the invariant. -/
def Yields (Inv : σ → Prop) (x : StateM σ α) (P : α → Prop) : Prop :=
  ∀ before, Inv before → ∃ a after, x before = (a, after) ∧ P a ∧ Inv after

namespace Yields

variable {Inv : σ → Prop} {P : α → Prop} {Q : β → Prop}

theorem pure {a : α} (h : P a) : Yields Inv (Pure.pure a) P :=
  fun before hbefore => ⟨a, before, rfl, h, hbefore⟩

theorem mono {x : StateM σ α} {P' : α → Prop} (h : Yields Inv x P) (hP : ∀ a, P a → P' a) :
    Yields Inv x P' := by
  intro before hbefore
  obtain ⟨a, after, hrun, ha, hafter⟩ := h before hbefore
  exact ⟨a, after, hrun, hP a ha, hafter⟩

theorem bind {x : StateM σ α} {next : α → StateM σ β} (h : Yields Inv x P)
    (hnext : ∀ a, P a → Yields Inv (next a) Q) : Yields Inv (x >>= next) Q := by
  intro before hbefore
  obtain ⟨a, between, hrun, ha, hbetween⟩ := h before hbefore
  obtain ⟨b, after, hrest, hb, hafter⟩ := hnext a ha between hbetween
  refine ⟨b, after, ?_, hb, hafter⟩
  show (x before >>= fun ended => next ended.1 ended.2) = (b, after)
  rw [hrun]
  exact hrest

/-- Computations for all items, each of which gives a value that fits its item. -/
theorem mapM {f : α → StateM σ β} {R : α → β → Prop} {items : List α}
    (h : ∀ a ∈ items, Yields Inv (f a) (R a)) :
    Yields Inv (items.mapM f) (List.Forall₂ R items) := by
  induction items with
  | nil => exact .pure .nil
  | cons a later ih =>
    obtain ⟨ha, hlater⟩ := List.forall_mem_cons.mp h
    rw [List.mapM_cons]
    exact ha.bind fun b hb => (ih hlater).bind fun bs hbs => .pure (.cons hb hbs)

/-- The same where each value is determined by its item. -/
theorem mapM_eq {f : α → StateM σ β} {g : α → β} {items : List α}
    (h : ∀ a ∈ items, Yields Inv (f a) (· = g a)) :
    Yields Inv (items.mapM f) (· = items.map g) := by
  refine (mapM h).mono fun values hvalues => ?_
  induction hvalues with
  | nil => rfl
  | cons hvalue _ ih => rw [hvalue, ih fun a ha => h a (List.mem_cons_of_mem _ ha), List.map_cons]

end Yields

/-! ## Jobs -/

section

variable {Inv : σ → Prop} {P : α → Prop} {Q : Logged Warning Fault β → Prop}

theorem yields_lift {x : StateM σ α} (h : Yields Inv x P) :
    Yields Inv (Job.lift x).run fun first => ∃ a, first = .ok a ∧ P a :=
  h.bind fun a ha => .pure ⟨a, rfl, ha⟩

/-- A job that warns of nothing and has a result goes on with that. -/
theorem yields_job_bind {x : Job (StateM σ) α} {next : α → Job (StateM σ) β}
    (h : Yields Inv x.run fun first => ∃ a, first = .ok a ∧ P a)
    (hnext : ∀ a, P a → Yields Inv (next a).run Q) : Yields Inv (x >>= next).run Q := by
  refine h.bind fun first hfirst => ?_
  obtain ⟨a, rfl, ha⟩ := hfirst
  refine (hnext a ha).bind fun second hsecond => .pure ?_
  exact hsecond

end

/-! ## Tasks side by side -/

/-- Sorting gives the one sorted order of the elements. -/
theorem mergeSort_eq_of_perm {le : α → α → Bool} {as bs : List α}
    (htrans : ∀ a b c, le a b = true → le b c = true → le a c = true)
    (htotal : ∀ a b, (le a b || le b a) = true) (h : as.Perm bs)
    (hsorted : bs.Pairwise fun a b => le a b = true)
    (hantisymm : ∀ a ∈ bs, ∀ b ∈ bs, le a b = true → le b a = true → a = b) :
    as.mergeSort le = bs := by
  have hperm : (as.mergeSort le).Perm bs := (List.mergeSort_perm as le).trans h
  exact hperm.eq_of_pairwise (fun a b ha hb => hantisymm a (hperm.subset ha) b hb)
    (List.pairwise_mergeSort htrans htotal as) hsorted

/-- Whatever order tasks end in, their results come in the order of the items. -/
theorem yields_runTasks {Inv : σ → Prop} {disk : Disk (StateM σ)} {task : α → StateM σ β}
    {items : List α} {results : List β}
    (hschedule : Yields Inv (disk.schedule items.length) fun _ => True)
    (h : List.Forall₂ (fun a b => Yields Inv (task a) (· = b)) items results) :
    Yields Inv (runTasks disk task items) (· = results) := by
  have hlength := h.length_eq
  let result := fun i : Fin items.length => (i, results.get (i.cast hlength))
  refine hschedule.bind fun schedule _ => ?_
  have hended : Yields Inv (schedule.order.mapM fun i => do return (i, ← task items[i]))
      (· = schedule.order.map result) :=
    Yields.mapM_eq fun i _ => (h.get i.isLt (hlength ▸ i.isLt)).bind fun b hb =>
      .pure (congrArg (i, ·) hb)
  -- there is one result for every index, and they are sorted by their indices
  have hsorted : (schedule.order.map result).mergeSort (fun a b => decide (a.1 ≤ b.1)) =
      (List.finRange items.length).map result := by
    refine mergeSort_eq_of_perm
      (fun a b c hab hbc => decide_eq_true (Fin.le_trans (of_decide_eq_true hab)
        (of_decide_eq_true hbc)))
      (fun a b => by simpa using Fin.le_total a.1 b.1) (schedule.complete.map result)
      (List.pairwise_map.mpr ((List.pairwise_le_finRange _).imp decide_eq_true)) ?_
    intro a ha b hb hab hba
    obtain ⟨i, -, rfl⟩ := List.mem_map.mp ha
    obtain ⟨j, -, rfl⟩ := List.mem_map.mp hb
    exact congrArg result (Fin.le_antisymm (of_decide_eq_true hab) (of_decide_eq_true hba))
  have hresults : ((List.finRange items.length).map result).map Prod.snd = results := by
    refine List.ext_getElem (by simpa using hlength) fun i hi hi' => ?_
    simp [result]
  refine hended.bind fun ended hended => .pure ?_
  rw [hended, hsorted, hresults]

end WireSchema.Files
