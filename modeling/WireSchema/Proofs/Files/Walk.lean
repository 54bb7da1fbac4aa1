import WireSchema.Files.Tree
import WireSchema.Files.Walk
import WireSchema.Proofs.Files.Runs
import Mathlib.Data.List.Perm.Basic

/-!
# Walking plain files and folders

What a disk holds below a root is a tree of plain files and folders. The disk may list the
entries of a folder in any order, and in another one each time. A walk comes upon every file
of the tree once, whatever the order, and reports nothing else.
-/

namespace WireSchema.Files

abbrev Contents := Except IoError ByteArray

/-- A finite tree of plain files and folders. -/
inductive Node where
  | file (contents : Contents)
  | folder (entries : List (String × Node))

namespace Node

mutual

def files : Node → List (Place × Contents)
  | file contents => [([], contents)]
  | folder entries => filesIn entries

def filesIn : List (String × Node) → List (Place × Contents)
  | [] => []
  | (name, node) :: later => (node.files.map fun file => (name :: file.1, file.2)) ++ filesIn later

end

mutual

def depth : Node → Nat
  | file _ => 1
  | folder entries => depthIn entries + 1

def depthIn : List (String × Node) → Nat
  | [] => 0
  | (_, node) :: later => max node.depth (depthIn later)

end

theorem filesIn_eq_flatMap (entries : List (String × Node)) :
    filesIn entries = entries.flatMap fun entry =>
      entry.2.files.map fun file => (entry.1 :: file.1, file.2) := by
  induction entries with
  | nil => rfl
  | cons entry later ih =>
    rw [filesIn, ih]
    rfl

theorem depth_le_depthIn {entries : List (String × Node)} {entry : String × Node}
    (h : entry ∈ entries) : entry.2.depth ≤ depthIn entries := by
  induction entries with
  | nil => cases h
  | cons first later ih =>
    rw [depthIn]
    rcases List.mem_cons.mp h with rfl | hlater
    · exact Nat.le_max_left _ _
    · exact (ih hlater).trans (Nat.le_max_right _ _)

end Node

def pathBelow (root : String) (place : Place) : String :=
  place.foldl join root

/-! ## Disks that hold a tree -/

variable {σ : Type}

section

variable (disk : Disk (StateM σ)) (Inv : σ → Prop)

/-- What stands at the path and below it on the disk is the tree. Names are listed in any
order, no name twice, and there are no links. -/
inductive Holds : String → Node → Prop where
  | file {path : String} {contents : Contents}
      (plain : Yields Inv (disk.isLink path) (· = false))
      (look : Yields Inv (disk.look path) (· = .ok .file))
      (read : Yields Inv (disk.read path) (· = contents)) :
      Holds path (.file contents)
  | folder {path : String} {entries : List (String × Node)}
      (plain : Yields Inv (disk.isLink path) (· = false))
      (look : Yields Inv (disk.look path) fun found => ∃ identity, found = .ok (.folder identity))
      (names : Yields Inv (disk.names path) fun found =>
        ∃ listed : List (String × Node), listed.Perm entries ∧ found = .ok (listed.map Prod.fst))
      (distinct : (entries.map Prod.fst).Nodup)
      (below : ∀ entry ∈ entries, Holds (join path entry.1) entry.2) :
      Holds path (.folder entries)

/-- A disk with a tree below a root: it lets tasks end in any order, and takes paths as long as
the tree is deep. -/
structure Carries (root : String) (tree : Node) : Prop where
  holds : Holds disk Inv root tree
  deep : Yields Inv disk.maxDepth (tree.depth ≤ ·)
  schedule : ∀ count, Yields Inv (disk.schedule count) fun _ => True

end

variable {disk : Disk (StateM σ)} {Inv : σ → Prop}

theorem yields_read {path : String} {tree : Node} (h : Holds disk Inv path tree) :
    ∀ file ∈ tree.files, Yields Inv (disk.read (pathBelow path file.1)) (· = file.2) := by
  induction h with
  | file _ _ hread =>
    intro file hfile
    rw [List.mem_singleton.mp hfile]
    exact hread
  | folder _ _ _ _ _ ih =>
    intro file hfile
    rw [Node.files, Node.filesIn_eq_flatMap] at hfile
    obtain ⟨entry, hentry, hin⟩ := List.mem_flatMap.mp hfile
    obtain ⟨inner, hinner, rfl⟩ := List.mem_map.mp hin
    exact ih entry hentry inner hinner

/-- No two files have one place. -/
theorem nodup_places {path : String} {tree : Node} (h : Holds disk Inv path tree) :
    (tree.files.map Prod.fst).Nodup := by
  induction h with
  | file => exact List.nodup_singleton _
  | @folder path entries _ _ _ hdistinct _ ih =>
    rw [Node.files, Node.filesIn_eq_flatMap, List.map_flatMap, List.nodup_flatMap]
    constructor
    · intro entry hentry
      rw [List.map_map]
      have hinner := (ih entry hentry).map (List.cons_injective (a := entry.1))
      rwa [List.map_map] at hinner
    · refine (List.pairwise_map.mp hdistinct).imp fun {entry other} hne => ?_
      intro place hplace hother
      simp only [List.map_map, List.mem_map, Function.comp_apply] at hplace hother
      obtain ⟨file, -, rfl⟩ := hplace
      obtain ⟨file', -, heq⟩ := hother
      exact hne (List.cons.inj heq).1.symm

/-! ## Visits -/

def expectedVisits (path : String) (below : Place) (tree : Node) : List Visit :=
  tree.files.map fun file => .file ⟨pathBelow path file.1, below ++ file.1⟩

theorem expectedVisits_folder (path : String) (below : Place) (entries : List (String × Node)) :
    expectedVisits path below (.folder entries) = entries.flatMap fun entry =>
      expectedVisits (join path entry.1) (below ++ [entry.1]) entry.2 := by
  simp only [expectedVisits, Node.files, Node.filesIn_eq_flatMap, List.map_flatMap, List.map_map,
    List.append_assoc, List.singleton_append]
  rfl

theorem flatten_perm_of_forall₂ {α β : Type} {f : α → List β} {as : List α} {bss : List (List β)}
    (h : List.Forall₂ (fun a bs => bs.Perm (f a)) as bss) : bss.flatten.Perm (as.flatMap f) := by
  induction h with
  | nil => exact .refl _
  | cons hfirst _ ih => exact hfirst.append ih

/-- A walk that may go deep enough comes upon all files, and upon nothing else. -/
theorem yields_visit {path : String} {tree : Node} (h : Holds disk Inv path tree) {depth : Nat}
    (hdepth : tree.depth ≤ depth) (ancestors : List Ancestor) (below : Place) :
    Yields Inv (visit disk depth ancestors ⟨path, below⟩)
      (·.Perm (expectedVisits path below tree)) := by
  induction h generalizing depth ancestors below with
  | @file path contents hplain hlook _ =>
    match depth, hdepth with
    | depth + 1, _ =>
      rw [visit]
      refine hplain.bind fun linked _ => hlook.bind fun standing hstanding => ?_
      subst hstanding
      refine .pure ?_
      rw [expectedVisits, Node.files, List.map_singleton, List.append_nil]
      exact .refl _
  | @folder path entries hplain hlook hnames _ _ ih =>
    match depth, hdepth with
    | depth + 1, hdepth =>
      rw [visit]
      refine hplain.bind fun linked hlinked => hlook.bind fun standing hstanding => ?_
      obtain ⟨identity, rfl⟩ := hstanding
      subst hlinked
      refine hnames.bind fun found hfound => ?_
      obtain ⟨listed, hlisted, rfl⟩ := hfound
      dsimp only
      rw [List.mapM_map]
      have hentries : ∀ entry ∈ listed, Yields Inv
          (visit disk depth (⟨identity, path⟩ :: ancestors)
            ⟨join path entry.1, below ++ [entry.1]⟩)
          (·.Perm (expectedVisits (join path entry.1) (below ++ [entry.1]) entry.2)) := by
        intro entry hentry
        have hmem := hlisted.subset hentry
        have hshallow : entry.2.depth ≤ depth :=
          (Node.depth_le_depthIn hmem).trans (Nat.le_of_succ_le_succ hdepth)
        exact ih entry hmem hshallow _ _
      refine (Yields.mapM hentries).bind fun visits hvisits => .pure ?_
      rw [expectedVisits_folder]
      exact (flatten_perm_of_forall₂ hvisits).trans (hlisted.flatMap_right _)

end WireSchema.Files
