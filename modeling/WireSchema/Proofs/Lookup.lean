import Mathlib.Data.List.Nodup
import WireSchema.Proofs.NameMap

/-!
# Lookups in maps

A map is determined by what it gives to each name. So two ways of filling a map are
compared by their lookups, whatever the order in which entries came.
-/

namespace WireSchema

variable {α β : Type}

namespace NameMap

theorem nodup_names (map : NameMap α) : map.names.Nodup := by
  refine List.pairwise_map.mpr (map.ascending.imp fun {a b} hlt hsame => ?_)
  rw [hsame] at hlt
  exact String.lt_irrefl _ hlt

theorem eq_of_name_eq {map : NameMap α} {a b : String × α} (ha : a ∈ map.entries)
    (hb : b ∈ map.entries) (h : a.1 = b.1) : a = b :=
  List.inj_on_of_nodup_map map.nodup_names ha hb h

theorem get?_eq_some_iff {map : NameMap α} {name : String} {value : α} :
    map.get? name = some value ↔ (name, value) ∈ map.entries :=
  ⟨mem_of_get?, fun h => get?_eq_some h⟩

theorem mem_values_iff {map : NameMap α} {value : α} :
    value ∈ map.values ↔ ∃ name, map.get? name = some value := by
  simp [values, get?_eq_some_iff]

theorem contains_eq_isSome (map : NameMap α) (name : String) :
    map.contains name = (map.get? name).isSome := by
  rw [contains, get?, Option.isSome_map, Bool.eq_iff_iff, List.find?_isSome, List.any_eq_true]

theorem contains_iff_mem_names {map : NameMap α} {name : String} :
    map.contains name = true ↔ name ∈ map.names := by
  simp [contains, names]

theorem get?_insert (map : NameMap α) (name other : String) (value : α) :
    (map.insert name value).get? other = if other = name then some value else map.get? other := by
  have hself : (map.insert name value).get? name = some value :=
    get?_eq_some_iff.mpr (mem_insertEntry_self name value map.entries)
  by_cases hsame : other = name
  · rw [if_pos hsame, hsame, hself]
  · rw [if_neg hsame]
    ext found
    rw [get?_eq_some_iff, get?_eq_some_iff]
    constructor
    · intro hmem
      rcases mem_insertEntry hmem with heq | hold
      · exact absurd (congrArg Prod.fst heq) hsame
      · exact hold
    · exact fun hmem => mem_insertEntry_of_ne value hmem hsame

theorem get?_mapValues (map : NameMap α) (f : String → α → β) (name : String) :
    (map.mapValues f).get? name = (map.get? name).map (f name) := by
  ext found
  rw [get?_eq_some_iff, Option.map_eq_some_iff]
  constructor
  · intro hmem
    obtain ⟨entry, hentry, heq⟩ := List.mem_map.mp hmem
    cases heq
    exact ⟨entry.2, get?_eq_some_iff.mpr hentry, rfl⟩
  · rintro ⟨value, hvalue, rfl⟩
    exact List.mem_map.mpr ⟨(name, value), get?_eq_some_iff.mp hvalue, rfl⟩

theorem contains_insert (map : NameMap α) (name other : String) (value : α) :
    (map.insert name value).contains other = (other == name || map.contains other) := by
  rw [contains_eq_isSome, contains_eq_isSome, get?_insert]
  by_cases hsame : other = name <;> simp [hsame]

/-- Of several bindings of one name the last counts, and before all of them what was there. -/
theorem get?_foldl_insert (map : NameMap α) (bindings : List (String × α)) (name : String) :
    (bindings.foldl (fun map binding => map.insert binding.1 binding.2) map).get? name =
      ((bindings.filter fun binding => binding.1 == name).getLast?.map Prod.snd).or
        (map.get? name) := by
  induction bindings generalizing map with
  | nil => rfl
  | cons binding later ih =>
    rw [List.foldl_cons, ih, get?_insert]
    by_cases hname : binding.1 = name
    · rw [List.filter_cons_of_pos (by simpa using hname), if_pos hname.symm, List.getLast?_cons]
      cases (later.filter fun binding => binding.1 == name).getLast? <;> rfl
    · rw [List.filter_cons_of_neg (by simpa using hname), if_neg (Ne.symm hname)]

theorem get?_ofList_eq (bindings : List (String × α)) (name : String) :
    (ofList bindings).get? name =
      (bindings.filter fun binding => binding.1 == name).getLast?.map Prod.snd :=
  (get?_foldl_insert empty bindings name).trans Option.or_none

theorem contains_ofList {bindings : List (String × α)} {name : String} :
    (ofList bindings).contains name = true ↔ name ∈ bindings.map Prod.fst := by
  rw [contains_eq_isSome, get?_ofList_eq, Option.isSome_map, List.getLast?_isSome]
  simp

theorem mem_ofList {bindings : List (String × α)} {entry : String × α}
    (h : entry ∈ (ofList bindings).entries) : entry ∈ bindings := by
  have hget := get?_eq_some h
  rw [get?_ofList_eq, Option.map_eq_some_iff] at hget
  obtain ⟨binding, hlast, hvalue⟩ := hget
  obtain ⟨hmem, hname⟩ := List.mem_filter.mp (List.mem_of_getLast? hlast)
  rwa [← Prod.ext (beq_iff_eq.mp hname) hvalue]

/-- Every name that is bound has a value, if not the one of this binding. -/
theorem exists_mem_ofList {bindings : List (String × α)} {binding : String × α}
    (h : binding ∈ bindings) : ∃ entry ∈ (ofList bindings).entries, entry.1 = binding.1 := by
  have hbound := contains_ofList.mpr (List.mem_map_of_mem h)
  obtain ⟨entry, hentry, hname⟩ := List.any_eq_true.mp hbound
  exact ⟨entry, hentry, beq_iff_eq.mp hname⟩

/-- A name that is bound to one value only has this value. -/
theorem get?_ofList_of_forall_eq {bindings : List (String × α)} {binding : String × α}
    (h : binding ∈ bindings) (honly : ∀ other ∈ bindings, other.1 = binding.1 → other = binding) :
    (ofList bindings).get? binding.1 = some binding.2 := by
  obtain ⟨entry, hentry, hname⟩ := exists_mem_ofList h
  have hsame := honly entry (mem_ofList hentry) hname
  subst hsame
  exact get?_eq_some hentry

theorem get?_ofList {bindings : List (String × α)} (hnodup : (bindings.map Prod.fst).Nodup)
    {name : String} {value : α} :
    (ofList bindings).get? name = some value ↔ (name, value) ∈ bindings := by
  constructor
  · exact fun hget => mem_ofList (mem_of_get? hget)
  · intro hmem
    exact get?_ofList_of_forall_eq hmem fun other hother hname =>
      List.inj_on_of_nodup_map hnodup hother hmem hname

theorem eq_of_mem_iff {as bs : List (String × α)} (ha : Ascending as) (hb : Ascending bs)
    (h : ∀ entry, entry ∈ as ↔ entry ∈ bs) : as = bs := by
  induction as generalizing bs with
  | nil => exact (List.eq_nil_iff_forall_not_mem.mpr fun entry hentry =>
      List.not_mem_nil ((h entry).mpr hentry)).symm
  | cons a later ih =>
    obtain ⟨hfirst, hlater⟩ := List.pairwise_cons.mp ha
    cases bs with
    | nil => exact absurd ((h a).mp List.mem_cons_self) List.not_mem_nil
    | cons b rest =>
      obtain ⟨hfirst', hrest⟩ := List.pairwise_cons.mp hb
      have hsame : a = b := by
        rcases List.mem_cons.mp ((h a).mp List.mem_cons_self) with heq | hafter
        · exact heq
        · rcases List.mem_cons.mp ((h b).mpr List.mem_cons_self) with heq | hafter'
          · exact heq.symm
          · exact absurd (String.lt_trans (hfirst b hafter') (hfirst' a hafter))
              (String.lt_irrefl _)
      subst hsame
      refine congrArg (a :: ·) (ih hlater hrest fun entry => ?_)
      have hne : ∀ {more : List (String × α)}, (∀ other ∈ more, a.1 < other.1) →
          a ∉ more := fun hmore hmem => String.lt_irrefl _ (hmore a hmem)
      constructor
      · intro hmem
        rcases List.mem_cons.mp ((h entry).mp (List.mem_cons_of_mem a hmem)) with rfl | hrest
        · exact absurd hmem (hne hfirst)
        · exact hrest
      · intro hmem
        rcases List.mem_cons.mp ((h entry).mpr (List.mem_cons_of_mem a hmem)) with rfl | hlater
        · exact absurd hmem (hne hfirst')
        · exact hlater

/-- A map is determined by the values that it gives to names. -/
theorem ext_get? {a b : NameMap α} (h : ∀ name, a.get? name = b.get? name) : a = b := by
  refine ext (eq_of_mem_iff a.ascending b.ascending fun entry => ?_)
  have hleft : a.get? entry.1 = some entry.2 ↔ entry ∈ a.entries := get?_eq_some_iff
  have hright : b.get? entry.1 = some entry.2 ↔ entry ∈ b.entries := get?_eq_some_iff
  rw [← hleft, ← hright, h entry.1]

end NameMap

/-- A map of bindings with different names does not depend on their order. -/
theorem NameMap.ofList_eq_of_perm {as bs : List (String × α)} (h : as.Perm bs)
    (hnodup : (as.map Prod.fst).Nodup) : ofList as = ofList bs := by
  refine ext_get? fun name => Option.ext fun value => ?_
  rw [get?_ofList hnodup, get?_ofList ((h.map Prod.fst).nodup_iff.mp hnodup), h.mem_iff]

/-! ## Sets -/

theorem NameSet.contains_add (set : NameSet) (name other : String) :
    (set.add name).contains other = (other == name || set.contains other) :=
  NameMap.contains_insert set name other ()

theorem NameSet.contains_ofNames {names : List String} {name : String} :
    (NameSet.ofNames names).contains name = true ↔ name ∈ names := by
  have hfold : ∀ (names : List String) (set : NameSet),
      (names.foldl NameSet.add set).contains name = true ↔
        set.contains name = true ∨ name ∈ names := by
    intro names
    induction names with
    | nil => simp
    | cons first later ih =>
      intro set
      rw [List.foldl_cons, ih, contains_add, List.mem_cons, Bool.or_eq_true, beq_iff_eq]
      rw [or_comm (a := name = first), or_assoc]
  rw [ofNames, hfold]
  simp [NameMap.contains]

end WireSchema
