import WireSchema.NameMap

/-!
# Maps filled in order

Entries that come in ascending order of their names are put at the end of a map,
each after those before it.
-/

namespace WireSchema

variable {α β : Type}

theorem insertEntry_of_forall_lt {name : String} {value : α} {entries : List (String × α)}
    (h : ∀ entry ∈ entries, entry.1 < name) :
    insertEntry name value entries = entries ++ [(name, value)] := by
  induction entries with
  | nil => rfl
  | cons first rest ih =>
    have hfirst := h first (by simp)
    have hnot : ¬ name < first.1 := fun hlt => String.lt_irrefl _ (String.lt_trans hfirst hlt)
    have hne : name ≠ first.1 := fun heq => String.lt_irrefl first.1 (heq ▸ hfirst)
    rw [insertEntry, if_neg hnot, if_neg hne, ih fun entry hentry => h entry (by simp [hentry])]
    rfl

theorem mem_of_get? {map : NameMap α} {name : String} {value : α}
    (h : map.get? name = some value) : (name, value) ∈ map.entries := by
  simp only [NameMap.get?, Option.map_eq_some_iff] at h
  obtain ⟨entry, hfind, rfl⟩ := h
  have hname := List.find?_some hfind
  simp only [beq_iff_eq] at hname
  have hmem := List.mem_of_find?_eq_some hfind
  rwa [← hname]

theorem mem_insertEntry_self (name : String) (value : α) (entries : List (String × α)) :
    (name, value) ∈ insertEntry name value entries := by
  induction entries with
  | nil => exact List.mem_cons_self
  | cons first rest ih =>
    rw [insertEntry]
    split
    · exact List.mem_cons_self
    · split
      · exact List.mem_cons_self
      · exact List.mem_cons_of_mem first ih

theorem mem_insertEntry_of_ne {name : String} (value : α) {entries : List (String × α)}
    {entry : String × α} (hmem : entry ∈ entries) (hne : entry.1 ≠ name) :
    entry ∈ insertEntry name value entries := by
  induction entries with
  | nil => cases hmem
  | cons first rest ih =>
    rw [insertEntry]
    split
    · exact List.mem_cons_of_mem _ hmem
    · rcases List.mem_cons.mp hmem with rfl | hrest
      · rw [if_neg (Ne.symm hne)]
        exact List.mem_cons_self
      · split
        · exact List.mem_cons_of_mem _ hrest
        · exact List.mem_cons_of_mem _ (ih hrest)

namespace NameMap

/-- What holds of a new entry and of the entries before holds of them all. -/
theorem forall_mem_insert {P : String × α → Prop} {map : NameMap α} {name : String} {value : α}
    (h : ∀ entry ∈ map.entries, P entry) (hnew : P (name, value)) :
    ∀ entry ∈ (map.insert name value).entries, P entry := by
  intro entry hentry
  rcases mem_insertEntry hentry with rfl | hold
  · exact hnew
  · exact h entry hold

theorem foldl_insert_entries {bindings : List (String × α)} (h : Ascending bindings)
    (map : NameMap α) (hafter : ∀ done ∈ map.entries, ∀ entry ∈ bindings, done.1 < entry.1) :
    (bindings.foldl (fun map binding => map.insert binding.1 binding.2) map).entries =
      map.entries ++ bindings := by
  induction bindings generalizing map with
  | nil => simp
  | cons entry later ih =>
    have hinsert : (map.insert entry.1 entry.2).entries = map.entries ++ [entry] :=
      insertEntry_of_forall_lt fun done hdone => hafter done hdone entry List.mem_cons_self
    have hlater := ih (List.pairwise_cons.mp h).2 (map.insert entry.1 entry.2) (by
      intro done hdone next hnext
      rw [hinsert] at hdone
      rcases List.mem_append.mp hdone with hold | hnew
      · exact hafter done hold next (List.mem_cons_of_mem entry hnext)
      · rw [List.mem_singleton.mp hnew]
        exact (List.pairwise_cons.mp h).1 next hnext)
    rw [List.foldl_cons, hlater, hinsert, List.append_assoc, List.singleton_append]

/-- A map of bindings that come in ascending order has these as its entries. -/
theorem entries_ofList {bindings : List (String × α)} (h : Ascending bindings) :
    (ofList bindings).entries = bindings :=
  foldl_insert_entries h empty (by simp)

theorem ofList_singleton_inj {a b : String × α} (h : ofList [a] = ofList [b]) : a = b :=
  (List.cons.inj (congrArg entries h)).1

theorem get?_eq_some {map : NameMap α} {entry : String × α} (h : entry ∈ map.entries) :
    map.get? entry.1 = some entry.2 := by
  have hfind : ∀ {entries : List (String × α)}, Ascending entries → entry ∈ entries →
      entries.find? (fun other => other.1 == entry.1) = some entry := by
    intro entries hasc hmem
    induction entries with
    | nil => cases hmem
    | cons first later ih =>
      rcases List.mem_cons.mp hmem with rfl | hlater
      · simp
      · have hlt := (List.pairwise_cons.mp hasc).1 entry hlater
        have hne : first.1 ≠ entry.1 := fun heq => String.lt_irrefl _ (heq ▸ hlt)
        rw [List.find?_cons_of_neg (by simpa using hne)]
        exact ih (List.pairwise_cons.mp hasc).2 hlater
  rw [get?, hfind map.ascending h]
  rfl

theorem contains_eq_true {map : NameMap α} {entry : String × α} (h : entry ∈ map.entries) :
    map.contains entry.1 = true :=
  List.any_eq_true.mpr ⟨entry, h, beq_self_eq_true _⟩

end NameMap

end WireSchema
