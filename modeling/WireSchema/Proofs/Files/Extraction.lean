import WireSchema.Files.Operations
import WireSchema.Proofs.Files.Walk

/-!
# Extracting the sources below a folder

Which schema a folder has depends on the files in it alone: not on the order in which they are
found, nor on that in which they are read and parsed. Files that cannot be read as text or
parsed add a warning each, and nothing else.
-/

namespace WireSchema.Files

def hasExtension (root extension : String) (file : Place × Contents) : Bool :=
  extension? (fileName (pathBelow root file.1)) == some extension

def declarationsIn? (file : Place × Contents) : Option (List Swift.Decl) :=
  (file.2.toOption.bind String.fromUTF8?).bind fun text => (Swift.parse text).toOption

def skipOf? (root : String) (file : Place × Contents) : Option Warning :=
  match parseSource file.2 with
  | .error error => some (.skippedFile (pathBelow root file.1) error)
  | .ok _ => none

def foundAt (root : String) (file : Place × Contents) : Found :=
  ⟨pathBelow root file.1, file.1⟩

def parsedAt (root : String) (file : Place × Contents) :
    String × Except SourceError (List Swift.Decl) :=
  (pathBelow root file.1, parseSource file.2)

/-! ## One file -/

theorem parseSource_toOption (file : Place × Contents) :
    (parseSource file.2).toOption = declarationsIn? file := by
  rw [parseSource.eq_def, declarationsIn?]
  cases file.2 with
  | error error => rfl
  | ok contents =>
    dsimp only [Except.toOption, Option.bind_some]
    cases String.fromUTF8? contents with
    | none => rfl
    | some text => cases hparse : Swift.parse text <;> simp only [Option.bind_some, hparse] <;> rfl

/-! ## Sources in their order -/

theorem isBefore_iff {a b : Place} : isBefore a b = true ↔ ¬ b < a := by
  rw [isBefore, Bool.not_eq_true', decide_eq_false_iff_not]

theorem isBefore_trans (a b c : Place) (hab : isBefore a b = true) (hbc : isBefore b c = true) :
    isBefore a c = true := by
  rw [isBefore_iff, List.not_lt] at *
  exact List.le_trans hab hbc

theorem isBefore_total (a b : Place) : (isBefore a b || isBefore b a) = true := by
  rw [Bool.or_eq_true, isBefore_iff, isBefore_iff, List.not_lt, List.not_lt]
  exact List.le_total a b

theorem isBefore_antisymm {a b : Place} (hab : isBefore a b = true) (hba : isBefore b a = true) :
    a = b := by
  rw [isBefore_iff, List.not_lt] at *
  exact List.le_antisymm hab hba

/-- The files with an extension are sorted by their places. -/
theorem sourceFiles_eq {root extension : String} {tree : Node} {visits : List Visit}
    (hvisits : visits.Perm (expectedVisits root [] tree)) {files : List (Place × Contents)}
    (hsorted : files.Pairwise fun a b => a.1 < b.1)
    (hfiles : files.Perm (tree.files.filter (hasExtension root extension))) :
    sourceFiles extension visits = files.map (foundAt root) := by
  have hfound : (foundFiles visits).Perm (tree.files.map (foundAt root)) := by
    refine (hvisits.filterMap _).trans (.of_eq ?_)
    rw [expectedVisits, List.filterMap_map]
    exact congrFun (List.filterMap_eq_map (f := foundAt root)) tree.files
  have hsources := hfound.filter fun found => extension? (fileName found.path) == some extension
  rw [List.filter_map] at hsources
  refine mergeSort_eq_of_perm (fun a b c => isBefore_trans _ _ _) (fun a b => isBefore_total _ _)
    (hsources.trans (hfiles.symm.map _))
    (List.pairwise_map.mpr (hsorted.imp fun h => isBefore_iff.mpr (List.lt_asymm h))) ?_
  intro a ha b hb hab hba
  obtain ⟨file, -, rfl⟩ := List.mem_map.mp ha
  obtain ⟨other, -, rfl⟩ := List.mem_map.mp hb
  have hplace : file.1 = other.1 := isBefore_antisymm hab hba
  rw [foundAt, foundAt, hplace]

theorem keepSources_eq (root : String) (files : List (Place × Contents)) :
    keepSources (files.map (parsedAt root)) =
      ⟨files.filterMap (skipOf? root), .ok (files.filterMap declarationsIn?)⟩ := by
  induction files with
  | nil => rfl
  | cons file later ih =>
    cases hparse : parseSource file.2 with
    | error error =>
      have hskip : skipOf? root file = some (.skippedFile (pathBelow root file.1) error) := by
        rw [skipOf?, hparse]
      have hdecls : declarationsIn? file = none := by
        rw [← parseSource_toOption, hparse]
        rfl
      rw [List.map_cons, parsedAt, hparse, List.filterMap_cons_some hskip,
        List.filterMap_cons_none hdecls, keepSources, ih]
      rfl
    | ok decls =>
      have hskip : skipOf? root file = none := by
        rw [skipOf?, hparse]
      have hdecls : declarationsIn? file = some decls := by
        rw [← parseSource_toOption, hparse]
        rfl
      rw [List.map_cons, parsedAt, hparse, List.filterMap_cons_none hskip,
        List.filterMap_cons_some hdecls, keepSources, ih]
      exact congrArg (fun log => (⟨log, .ok _⟩ : Logged Warning Fault (List (List Swift.Decl))))
        (List.append_nil _)

/-! ## The whole extraction -/

def extractionOf (options : Extraction.Options) (root : String) (files : List (Place × Contents)) :
    Logged Warning Fault Schema :=
  let extracted := Extraction.extract options (files.filterMap declarationsIn?)
  ⟨files.filterMap (skipOf? root) ++ extracted.log.map .extraction,
    extracted.result.mapError .extraction⟩

variable {σ : Type} {disk : Disk (StateM σ)} {Inv : σ → Prop}

theorem yields_extractDirectory {root extension : String} {tree : Node}
    (h : Carries disk Inv root tree) {files : List (Place × Contents)}
    (hsorted : files.Pairwise fun a b => a.1 < b.1)
    (hfiles : files.Perm (tree.files.filter (hasExtension root extension)))
    (options : Extraction.Options) :
    Yields Inv (extractDirectory disk root extension options).run
      (· = extractionOf options root files) := by
  have hwalk : Yields Inv (walk disk root) (·.Perm (expectedVisits root [] tree)) :=
    h.deep.bind fun depth hdepth => yields_visit h.holds hdepth [] []
  have hfind : Yields Inv (findSources disk root extension).run fun first =>
      ∃ sources, first = .ok sources ∧ sources = files.map (foundAt root) := by
    refine yields_job_bind (yields_lift hwalk) fun visits hvisits => ?_
    have hplain : ∀ visit ∈ visits, ∃ found, visit = .file found := by
      intro visit hvisit
      obtain ⟨file, -, rfl⟩ := List.mem_map.mp (hvisits.subset hvisit)
      exact ⟨_, rfl⟩
    have hroot : rootError? visits = none := by
      refine List.findSome?_eq_none_iff.mpr fun visit hvisit => ?_
      obtain ⟨found, rfl⟩ := hplain visit hvisit
      rfl
    have herrors : visitErrors visits = [] := by
      refine List.filterMap_eq_nil_iff.mpr fun visit hvisit => ?_
      obtain ⟨found, rfl⟩ := hplain visit hvisit
      rfl
    rw [hroot, herrors]
    exact .pure ⟨_, rfl, sourceFiles_eq hvisits hsorted hfiles⟩
  refine yields_job_bind hfind fun sources hsources => ?_
  subst hsources
  have hread : ∀ file ∈ files, Yields Inv (readSource disk (foundAt root file))
      (· = parsedAt root file) := by
    intro file hfile
    have hmem := List.mem_of_mem_filter (hfiles.subset hfile)
    refine (yields_read h.holds file hmem).bind fun contents hcontents => .pure ?_
    rw [hcontents]
    rfl
  have hparsed : Yields Inv (runTasks disk (readSource disk) (files.map (foundAt root)))
      (· = files.map (parsedAt root)) := by
    refine yields_runTasks (h.schedule _) ?_
    rw [List.forall₂_map_left_iff, List.forall₂_map_right_iff, List.forall₂_same]
    exact hread
  refine yields_job_bind (yields_lift hparsed) fun parsed hparsed => .pure ?_
  rw [hparsed, extractSources, keepSources_eq]
  rfl

/-! ## Files that are skipped -/

/-- Files with different places can be put in the order of the places. -/
theorem exists_sorted {files : List (Place × Contents)} (h : (files.map Prod.fst).Nodup) :
    ∃ sorted : List (Place × Contents),
      sorted.Pairwise (fun a b => a.1 < b.1) ∧ sorted.Perm files := by
  have hperm := List.mergeSort_perm files fun a b => isBefore a.1 b.1
  have hbefore : (files.mergeSort fun a b => isBefore a.1 b.1).Pairwise fun a b =>
      isBefore a.1 b.1 = true :=
    List.pairwise_mergeSort (fun a b c => isBefore_trans a.1 b.1 c.1)
      (fun a b => isBefore_total a.1 b.1) files
  have hne := List.pairwise_map.mp ((hperm.map Prod.fst).nodup_iff.mpr h)
  refine ⟨_, (hbefore.and hne).imp fun ⟨hab, hne⟩ => ?_, hperm⟩
  by_contra hlt
  exact hne (isBefore_antisymm hab (isBefore_iff.mpr hlt))

/-- A folder has one schema: that of the files with the extension that can be read, in the order
of their places. It is the same on every disk that holds these files, whatever order it lists
them in and lets tasks end in, and without any of the files that cannot be read. Only the
warnings that files are skipped are as many as there are such files. -/
theorem extractDirectory_isolates {σ' : Type} {disk' : Disk (StateM σ')} {Inv' : σ' → Prop}
    {root : String} {tree tree' : Node} (h : Carries disk Inv root tree)
    (h' : Carries disk' Inv' root tree') (removed : Place × Contents → Bool)
    (hremoved : tree'.files.Perm (tree.files.filter fun file => !removed file))
    (hskipped : ∀ file ∈ tree.files, removed file = true → declarationsIn? file = none)
    (extension : String) (options : Extraction.Options) :
    ∃ files : List (Place × Contents),
      files.Pairwise (fun a b => a.1 < b.1) ∧
      files.Perm (tree.files.filter (hasExtension root extension)) ∧
      ∃ log result,
        Extraction.extract options (files.filterMap declarationsIn?) = ⟨log, result⟩ ∧
        Yields Inv (extractDirectory disk root extension options).run
          (· = ⟨files.filterMap (skipOf? root) ++ log.map .extraction,
            result.mapError .extraction⟩) ∧
        Yields Inv' (extractDirectory disk' root extension options).run
          (· = ⟨(files.filter fun file => !removed file).filterMap (skipOf? root) ++
            log.map .extraction, result.mapError .extraction⟩) := by
  have hplaces := (List.filter_sublist (p := hasExtension root extension)).map Prod.fst
    |>.nodup (nodup_places h.holds)
  obtain ⟨files, hsorted, hfiles⟩ := exists_sorted hplaces
  refine ⟨files, hsorted, hfiles, _, _, rfl,
    yields_extractDirectory h hsorted hfiles options, ?_⟩
  have hkept : (files.filter fun file => !removed file).Perm
      (tree'.files.filter (hasExtension root extension)) := by
    refine (hfiles.filter _).trans (.trans (.of_eq ?_) (hremoved.filter _).symm)
    rw [List.filter_filter, List.filter_filter, funext fun file => Bool.and_comm _ _]
  have hsame : (files.filter fun file => !removed file).filterMap declarationsIn? =
      files.filterMap declarationsIn? := by
    rw [List.filterMap_filter]
    refine List.filterMap_congr fun file hfile => ?_
    cases hfate : removed file with
    | false => rfl
    | true => exact (hskipped file (List.mem_of_mem_filter (hfiles.subset hfile)) hfate).symm
  have hrun := yields_extractDirectory h' (hsorted.filter _) hkept options
  rw [extractionOf, hsame] at hrun
  exact hrun

/-! ## A shelf of sources -/

theorem yields_inspect {α : Type} {tree : Tree} {f : Tree → α} {P : α → Prop} (h : P (f tree)) :
    Yields (· = tree) (inspect f) P :=
  fun _ hbefore => ⟨_, _, rfl, hbefore ▸ h, hbefore⟩

def scheduledDisk (schedule : (count : Nat) → Schedule count) : Disk (StateM Tree) :=
  { treeDisk with schedule := fun count => return schedule count }

def bookSource : Contents := .ok "struct Book { let title: String }".toUTF8

def penSource : Contents := .ok "struct Pen { let width: Int }".toUTF8

def noText : Contents := .ok ⟨#[255]⟩

def shelf : Node :=
  .folder [("a.swift", .file bookSource), ("a", .folder [("x.swift", .file penSource)]),
    ("b.swift", .file noText)]

/-- The shelf without the file that holds no text. -/
def clearedShelf : Node :=
  .folder [("a.swift", .file bookSource), ("a", .folder [("x.swift", .file penSource)])]

def shelfTree : Tree :=
  ⟨[(["src"], .folder), (["src", "a.swift"], .file "struct Book { let title: String }".toUTF8),
    (["src", "a"], .folder), (["src", "a", "x.swift"], .file "struct Pen { let width: Int }".toUTF8),
    (["src", "b.swift"], .file ⟨#[255]⟩)]⟩

/-- The tree of the cleared shelf, with its items the other way round. -/
def clearedTree : Tree :=
  ⟨shelfTree.items.dropLast.reverse⟩

section

variable {schedule : (count : Nat) → Schedule count} {tree : Tree} {path : String}

theorem holds_file {contents : Contents} (hlink : tree.isLink path = false)
    (hlook : tree.look path = .ok .file) (hread : tree.read path = contents) :
    Holds (scheduledDisk schedule) (· = tree) path (.file contents) :=
  .file (yields_inspect hlink) (yields_inspect hlook) (yields_inspect hread)

theorem holds_folder {entries listed : List (String × Node)} (identity : String)
    (hlink : tree.isLink path = false) (hlook : tree.look path = .ok (.folder identity))
    (hlisted : listed.Perm entries) (hnames : tree.names path = .ok (listed.map Prod.fst))
    (hdistinct : (entries.map Prod.fst).Nodup)
    (hbelow : ∀ entry ∈ entries,
      Holds (scheduledDisk schedule) (· = tree) (join path entry.1) entry.2) :
    Holds (scheduledDisk schedule) (· = tree) path (.folder entries) :=
  .folder (yields_inspect hlink) (yields_inspect ⟨identity, hlook⟩)
    (yields_inspect ⟨listed, hlisted, hnames⟩) hdistinct hbelow

variable (schedule)

theorem carries_shelf : Carries (scheduledDisk schedule) (· = shelfTree) "src" shelf where
  holds := by
    refine holds_folder "src" (by decide +kernel) (by decide +kernel) (.refl _)
      (by decide +kernel) (by decide) ?_
    simp only [List.forall_mem_cons, List.not_mem_nil, false_imp_iff, implies_true, and_true]
    refine ⟨holds_file (by decide +kernel) (by decide +kernel) (by decide +kernel), ?_,
      holds_file (by decide +kernel) (by decide +kernel) (by decide +kernel)⟩
    refine holds_folder "src/a" (by decide +kernel) (by decide +kernel) (.refl _)
      (by decide +kernel) (by decide) ?_
    simp only [List.forall_mem_cons, List.not_mem_nil, false_imp_iff, implies_true, and_true]
    exact holds_file (by decide +kernel) (by decide +kernel) (by decide +kernel)
  deep := yields_inspect (by decide +kernel)
  schedule := fun _ => .pure trivial

theorem carries_clearedShelf :
    Carries (scheduledDisk schedule) (· = clearedTree) "src" clearedShelf where
  holds := by
    refine holds_folder "src" (by decide +kernel) (by decide +kernel)
      (List.reverse_perm _) (by decide +kernel) (by decide) ?_
    simp only [List.forall_mem_cons, List.not_mem_nil, false_imp_iff, implies_true, and_true]
    refine ⟨holds_file (by decide +kernel) (by decide +kernel) (by decide +kernel), ?_⟩
    refine holds_folder "src/a" (by decide +kernel) (by decide +kernel) (.refl _)
      (by decide +kernel) (by decide) ?_
    simp only [List.forall_mem_cons, List.not_mem_nil, false_imp_iff, implies_true, and_true]
    exact holds_file (by decide +kernel) (by decide +kernel) (by decide +kernel)
  deep := yields_inspect (by decide +kernel)
  schedule := fun _ => .pure trivial

end

def Schedule.reversed (count : Nat) : Schedule count :=
  ⟨(List.finRange count).reverse, List.reverse_perm _⟩

def shelfOptions : Extraction.Options :=
  { provider := "shelf", fallbackCase := "unknown", strictness := .strict }

/-- The files of the shelf in their order: the folder `a` comes before the file `a.swift`. -/
def shelfFiles : List (Place × Contents) :=
  [(["a", "x.swift"], penSource), (["a.swift"], bookSource), (["b.swift"], noText)]

/-- The file that holds no text changes nothing but the warnings. -/
theorem extractDirectory_shelf :
    ∃ schema,
      Yields (· = shelfTree) (extractDirectory (scheduledDisk .inOrder) "src" "swift" shelfOptions).run
        (· = ⟨[.skippedFile "src/b.swift" (.access .notText)], .ok schema⟩) ∧
      Yields (· = clearedTree)
        (extractDirectory (scheduledDisk .reversed) "src" "swift" shelfOptions).run
        (· = ⟨[], .ok schema⟩) ∧
      schema.types.names = ["Book", "Pen"] := by
  obtain ⟨files, hsorted, hfiles, log, result, hextract, hrun, hrun'⟩ :=
    extractDirectory_isolates (carries_shelf .inOrder)
      (carries_clearedShelf .reversed) (fun file => file.1 == ["b.swift"])
      (.of_eq (by decide +kernel)) (by decide +kernel) "swift" shelfOptions
  have hlisted : files = shelfFiles :=
    List.Perm.eq_of_pairwise (fun a b _ _ hab hba => absurd hba (List.lt_asymm hab)) hsorted
      (by decide +kernel) (hfiles.trans (by decide +kernel))
  subst hlisted
  have hskips : shelfFiles.filterMap (skipOf? "src") =
      [.skippedFile "src/b.swift" (.access .notText)] := by decide +kernel
  have hkept : (shelfFiles.filter fun file => !(file.1 == ["b.swift"])).filterMap (skipOf? "src") =
      [] := by decide +kernel
  have hlog : (Extraction.extract shelfOptions (shelfFiles.filterMap declarationsIn?)).log = [] := by
    decide +kernel
  have hnames : (Extraction.extract shelfOptions
      (shelfFiles.filterMap declarationsIn?)).result.toOption.map (·.types.names) =
        some ["Book", "Pen"] := by decide +kernel
  rw [hextract] at hlog hnames
  subst hlog
  cases result with
  | error fault => cases hnames
  | ok schema =>
    rw [hskips] at hrun
    rw [hkept] at hrun'
    exact ⟨schema, hrun, hrun', Option.some.inj hnames⟩

end WireSchema.Files
