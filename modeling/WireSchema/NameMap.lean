/-!
# Maps from names

A map from names to values, kept as its entries in ascending order of the names.
Order is by code point. Two maps with the same entries are the same value, so the
order in which a map was filled leaves no trace in it.
-/

namespace WireSchema

def Ascending {α : Type} (entries : List (String × α)) : Prop :=
  entries.Pairwise fun a b => a.1 < b.1

structure NameMap (α : Type) where
  entries : List (String × α)
  ascending : Ascending entries

/-- The entries with `name` bound to `value`, in place of what it was bound to. -/
def insertEntry {α : Type} (name : String) (value : α) :
    List (String × α) → List (String × α)
  | [] => [(name, value)]
  | entry :: rest =>
    if name < entry.1 then (name, value) :: entry :: rest
    else if name = entry.1 then (name, value) :: rest
    else entry :: insertEntry name value rest

theorem mem_insertEntry {α : Type} {name : String} {value : α} {entries : List (String × α)}
    {entry : String × α} (h : entry ∈ insertEntry name value entries) :
    entry = (name, value) ∨ entry ∈ entries := by
  induction entries with
  | nil => simpa [insertEntry] using h
  | cons first rest ih =>
    unfold insertEntry at h
    split at h
    · simpa using h
    · split at h
      · rcases List.mem_cons.mp h with rfl | later
        · exact Or.inl rfl
        · exact Or.inr (List.mem_cons_of_mem _ later)
      · rcases List.mem_cons.mp h with rfl | later
        · exact Or.inr List.mem_cons_self
        · rcases ih later with new | old
          · exact Or.inl new
          · exact Or.inr (List.mem_cons_of_mem _ old)

theorem ascending_insertEntry {α : Type} (name : String) (value : α)
    {entries : List (String × α)} (h : Ascending entries) :
    Ascending (insertEntry name value entries) := by
  induction entries with
  | nil => exact List.pairwise_singleton _ _
  | cons first rest ih =>
    have hfirst := (List.pairwise_cons.mp h).1
    have hrest := (List.pairwise_cons.mp h).2
    unfold insertEntry
    split
    · next before =>
      refine List.pairwise_cons.mpr ⟨fun entry hentry => ?_, h⟩
      rcases List.mem_cons.mp hentry with rfl | later
      · exact before
      · exact String.lt_trans before (hfirst entry later)
    · next notBefore =>
      split
      · next same =>
        exact List.pairwise_cons.mpr ⟨fun entry hentry => same ▸ hfirst entry hentry, hrest⟩
      · next different =>
        have after : first.1 < name := by
          rcases String.le_total first.1 name with le | ge
          · refine String.not_le.mp fun ge => ?_
            exact different (String.le_antisymm ge le)
          · exact absurd (String.not_le.mp fun le => different (String.le_antisymm ge le)) notBefore
        refine List.pairwise_cons.mpr ⟨fun entry hentry => ?_, ih hrest⟩
        rcases mem_insertEntry hentry with rfl | old
        · exact after
        · exact hfirst entry old

theorem ascending_map {α β : Type} (f : String → α → β) {entries : List (String × α)}
    (h : Ascending entries) : Ascending (entries.map fun entry => (entry.1, f entry.1 entry.2)) :=
  List.pairwise_map.mpr h

namespace NameMap

variable {α β : Type}

instance [DecidableEq α] : DecidableEq (NameMap α) := fun a b =>
  if h : a.entries = b.entries then
    .isTrue (by cases a; cases b; cases h; rfl)
  else
    .isFalse fun same => h (same ▸ rfl)

def empty : NameMap α := ⟨[], List.Pairwise.nil⟩

instance : EmptyCollection (NameMap α) := ⟨empty⟩

instance : Inhabited (NameMap α) := ⟨empty⟩

def insert (map : NameMap α) (name : String) (value : α) : NameMap α :=
  ⟨insertEntry name value map.entries, ascending_insertEntry name value map.ascending⟩

def get? (map : NameMap α) (name : String) : Option α :=
  (map.entries.find? fun entry => entry.1 == name).map Prod.snd

def contains (map : NameMap α) (name : String) : Bool :=
  map.entries.any fun entry => entry.1 == name

def names (map : NameMap α) : List String :=
  map.entries.map Prod.fst

def values (map : NameMap α) : List α :=
  map.entries.map Prod.snd

def size (map : NameMap α) : Nat :=
  map.entries.length

def isEmpty (map : NameMap α) : Bool :=
  map.entries.isEmpty

/-- The map of the given bindings; of two for one name the later one counts. -/
def ofList (bindings : List (String × α)) : NameMap α :=
  bindings.foldl (fun map binding => map.insert binding.1 binding.2) empty

def mapValues (map : NameMap α) (f : String → α → β) : NameMap β :=
  ⟨map.entries.map fun entry => (entry.1, f entry.1 entry.2),
    ascending_map f map.ascending⟩

def filter (map : NameMap α) (p : String → α → Bool) : NameMap α :=
  ⟨map.entries.filter fun entry => p entry.1 entry.2, map.ascending.filter _⟩

@[simp] theorem entries_empty : (empty : NameMap α).entries = [] := rfl

@[simp] theorem entries_insert (map : NameMap α) (name : String) (value : α) :
    (map.insert name value).entries = insertEntry name value map.entries := rfl

@[simp] theorem entries_mapValues (map : NameMap α) (f : String → α → β) :
    (map.mapValues f).entries = map.entries.map fun entry => (entry.1, f entry.1 entry.2) := rfl

/-- A map is determined by its entries. -/
@[ext] theorem ext {a b : NameMap α} (h : a.entries = b.entries) : a = b := by
  cases a; cases b; cases h; rfl

end NameMap

abbrev NameSet := NameMap Unit

namespace NameSet

def add (set : NameSet) (name : String) : NameSet :=
  NameMap.insert set name ()

def ofNames (names : List String) : NameSet :=
  names.foldl add NameMap.empty

end NameSet

end WireSchema
