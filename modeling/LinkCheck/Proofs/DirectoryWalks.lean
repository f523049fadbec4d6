import LinkCheck.Proofs.ClassFilePaths
import LinkCheck.Proofs.SourceHistories

/-!
# Directories before and after they are gone through

A directory is asked for single classes before all its classes have been listed. Then the directory of the
package is looked at, and once all names have been asked for, these decide. Both ways agree on regular names,
unless a file stands for the class by a path that is not plain.

## Main definitions

- `ClassSource.Knows` — what is found, contained and located of a class
- `DirectoryAnswers` — what a directory tells after some calls

## Main results

- `ClassDirectory.mem_classesIn_iff` — the directory of a package holds what is found below the root
- `ClassSource.openDirectory_answers` — the answers of a directory after any calls
- `ClassSource.openDirectory_disagrees` — where the two ways do not agree
-/

namespace LinkCheck

open LinkCheck.Path

namespace ClassDirectory

variable {directory : ClassDirectory} {files : FileTree} {name : ClassName} {found : List (List String)}

/-- The directory of a package holds a class if it holds the file of its simple name. -/
theorem mem_classesIn_of_list {entries : List (String × Node)}
    (h : files.list (((segments name.package).filter (· ≠ "")).foldl join directory.root) =
      .ok entries) :
    name.simpleName ∈ directory.classesIn files name.package ↔
      ∃ number, (name.simpleName ++ ".class", .file number) ∈ entries := by
  unfold classesIn
  simp only [h]
  rw [List.mem_filterMap]
  constructor
  · rintro ⟨⟨file, _ | number⟩, hmem, hentry⟩
    · cases hentry
    · obtain ⟨stem, hstem, hname⟩ := Option.map_eq_some_iff.1 hentry
      rw [List.isSuffixOf?_eq_some_iff_append_eq] at hstem
      have hfile : file = name.simpleName ++ ".class" := by
        apply String.toList_injective
        simpa [← hname] using hstem.symm
      exact ⟨number, hfile ▸ hmem⟩
  · rintro ⟨number, hmem⟩
    have hstem : ".class".toList.isSuffixOf? (name.simpleName ++ ".class").toList =
        some name.simpleName.toList := by
      rw [List.isSuffixOf?_eq_some_iff_append_eq, String.toList_append]
    refine ⟨_, hmem, ?_⟩
    simp only [Node.isFile, Node.isDirectory, hstem]
    simp

theorem classesIn_of_error {package : String} {fault : StorageFault}
    (h : files.directoryAt (((segments package).filter (· ≠ "")).foldl join directory.root) =
      .error fault) : directory.classesIn files package = [] := by
  have hlist : files.list (((segments package).filter (· ≠ "")).foldl join directory.root) =
      .error fault := by
    unfold FileTree.list
    rw [h]
    rfl
  unfold classesIn
  simp only [hlist]

/-- The segments of a package are names that can be followed, since a class name has no dots. -/
theorem step_of_mem_segments (hdots : '.' ∉ name.text.toList) :
    ∀ segment ∈ (segments name.package).filter (· ≠ ""),
      '/' ∉ segment.toList ∧ isStep segment = true ∧ segment ≠ ".." := by
  rw [ClassName.filter_segments_package]
  intro segment hsegment
  obtain ⟨hsegment, hne⟩ := List.mem_filter.1 hsegment
  have hmem := List.dropLast_subset _ hsegment
  have hdot : '.' ∉ segment.toList := fun hdot => hdots (of_mem_segments hmem hdot).1
  refine ⟨fun hslash => (of_mem_segments hmem hslash).2 rfl, ?_, ?_⟩
  · have hother : segment ≠ "." := fun hsame => hdot (by rw [hsame]; decide)
    simpa [isStep, hother] using hne
  · exact fun hsame => hdot (by rw [hsame]; decide)

/-- Outside of the tree no classes are known. -/
theorem not_mem_classesIn_of_outside (hroot : files.directoryAt directory.root = .ok .outside)
    (hdots : '.' ∉ name.text.toList) :
    name.simpleName ∉ directory.classesIn files name.package := by
  have hsteps := step_of_mem_segments hdots
  obtain ⟨hresolved, -⟩ := FileTree.directoryAt_eq_ok_iff.1 hroot
  have hne : directory.root ≠ "" := (FileTree.resolve_eq_ok_iff.1 hresolved).2.2.1
  cases hdirectory : files.directoryAt
      (((segments name.package).filter (· ≠ "")).foldl join directory.root) with
  | error fault =>
    rw [classesIn_of_error hdirectory]
    exact List.not_mem_nil
  | ok next =>
    obtain ⟨-, -, place, hplace, hwalked⟩ := (FileTree.resolve_foldl_join_iff hne
      fun segment hmem => (hsteps segment hmem).1).1 (FileTree.directoryAt_eq_ok_iff.1 hdirectory).1
    obtain rfl := Except.ok.inj (hplace.symm.trans hresolved)
    have hnil := FileTree.eq_nil_of_foldlM_step_outside (fun segment hmem => (hsteps segment hmem).2)
      hwalked
    have hlist : files.list (((segments name.package).filter (· ≠ "")).foldl join directory.root) =
        .ok [("", .directory)] := by
      rw [hnil]
      unfold FileTree.list
      rw [List.foldl_nil, hroot]
      rfl
    rw [mem_classesIn_of_list hlist]
    simp

theorem filesBelow_of_outside (hroot : files.directoryAt directory.root = .ok .outside) :
    files.filesBelow directory.root = .ok [] := by
  unfold FileTree.filesBelow
  rw [hroot]
  rfl

theorem exists_filesBelow {place : Place} (hroot : files.directoryAt directory.root = .ok place) :
    ∃ found, files.filesBelow directory.root = .ok found := by
  cases place with
  | outside => exact ⟨[], filesBelow_of_outside hroot⟩
  | inside place =>
    obtain ⟨found, hfound, -⟩ := FileTree.mem_filesBelow_iff hroot
    exact ⟨found, hfound⟩

/-- The directory of a package holds a class if the file of the class is found below the root. -/
theorem mem_classesIn_iff {place : Place} (hfiles : files.WellFormed)
    (hroot : files.directoryAt directory.root = .ok place)
    (hfound : files.filesBelow directory.root = .ok found) (hdots : '.' ∉ name.text.toList) :
    name.simpleName ∈ directory.classesIn files name.package ↔ name.classFile ∈ found := by
  have hsteps := step_of_mem_segments hdots
  cases place with
  | outside =>
    obtain rfl := Except.ok.inj (hfound.symm.trans (filesBelow_of_outside hroot))
    exact iff_of_false (not_mem_classesIn_of_outside hroot hdots) List.not_mem_nil
  | inside place =>
    obtain ⟨others, hothers, hbelow⟩ := FileTree.mem_filesBelow_iff hroot
    obtain rfl := Except.ok.inj (hfound.symm.trans hothers)
    have hpackage : ∀ next, files.directoryAt
        (((segments name.package).filter (· ≠ "")).foldl join directory.root) = .ok next ↔ _ :=
      fun next => hfiles.directoryAt_foldl_join_iff hroot (fun segment hmem => (hsteps segment hmem).1)
        fun segment hmem => (hsteps segment hmem).2
    rw [hbelow, ClassName.classFile, List.dropLast_concat, ← List.append_assoc]
    constructor
    · intro hmem
      cases hdirectory : files.directoryAt
          (((segments name.package).filter (· ≠ "")).foldl join directory.root) with
      | error fault =>
        rw [classesIn_of_error hdirectory] at hmem
        cases hmem
      | ok next =>
        obtain ⟨hlimit, rfl, -⟩ := (hpackage next).1 hdirectory
        obtain ⟨entries, hlist, hentries⟩ := FileTree.mem_list_iff hdirectory
        obtain ⟨number, hfile⟩ := (mem_classesIn_of_list hlist).1 hmem
        exact ⟨hlimit, number, (hentries _ _).1 hfile⟩
    · rintro ⟨hlimit, number, hfile⟩
      have hkey := List.mem_map_of_mem (f := Prod.fst) hfile
      have habove := hfiles.parent _ hkey
      rw [List.dropLast_concat] at habove
      have hdirectory := (hpackage _).2 ⟨hlimit, rfl, habove⟩
      obtain ⟨entries, hlist, hentries⟩ := FileTree.mem_list_iff hdirectory
      exact (mem_classesIn_of_list hlist).2 ⟨number, (hentries _ _).2 hfile⟩

/-- What is found below a directory has names. -/
theorem isName_of_mem_filesBelow {place : Place} {names : List String} (hfiles : files.WellFormed)
    (hroot : files.directoryAt directory.root = .ok place)
    (hfound : files.filesBelow directory.root = .ok found) (h : names ∈ found) :
    ∀ name ∈ names, IsName name := by
  cases place with
  | outside =>
    obtain rfl := Except.ok.inj (hfound.symm.trans (filesBelow_of_outside hroot))
    cases h
  | inside place =>
    obtain ⟨others, hothers, hbelow⟩ := FileTree.mem_filesBelow_iff hroot
    obtain rfl := Except.ok.inj (hfound.symm.trans hothers)
    obtain ⟨-, number, hmem⟩ := (hbelow names).1 h
    exact fun name hname => hfiles.named _ (List.mem_map_of_mem hmem) name
      (List.mem_append_right _ hname)

theorem mem_walk_iff (hfound : files.filesBelow directory.root = .ok found) :
    name ∈ directory.walk files ↔
      ∃ names ∈ found, ClassName.ofEntryPath? ("/".intercalate names) = some name := by
  unfold walk
  simp only [hfound]
  rw [List.mem_eraseDups, List.mem_filterMap]

/-- Regular names are listed in the directory of their package if they are found below the root, unless
a file stands for them by a path that is not plain. -/
theorem mem_classesIn_iff_mem_walk {place : Place} {text : String} (hfiles : files.WellFormed)
    (hroot : files.directoryAt directory.root = .ok place)
    (hfound : files.filesBelow directory.root = .ok found) (h : (ClassName.ofText text).Regular)
    (hplain : ∀ names ∈ found, ClassName.ofEntryPath? ("/".intercalate names) =
      some (.ofText text) → ClassName.IsPlain ("/".intercalate names)) :
    (ClassName.ofText text).simpleName ∈
        directory.classesIn files (ClassName.ofText text).package ↔
      ClassName.ofText text ∈ directory.walk files := by
  rw [mem_classesIn_iff hfiles hroot hfound (ClassName.not_mem_ofText h.notArray),
    mem_walk_iff hfound]
  constructor
  · exact fun hmem => ⟨_, hmem, ClassName.ofEntryPath?_classFile h⟩
  · rintro ⟨names, hmem, hname⟩
    have hne : names ≠ [] := by
      rintro rfl
      cases hname
    have hfile := ClassName.eq_classFile_of_isPlain hne
      (isName_of_mem_filesBelow hfiles hroot hfound hmem) (hplain names hmem hname) hname
    rwa [← hfile]

/-- There are no classes below a directory without entries. -/
theorem walk_eq_nil {place : Place} (hfiles : files.WellFormed)
    (hroot : files.directoryAt directory.root = .ok place)
    (hlist : files.list directory.root = .ok []) : directory.walk files = [] := by
  cases place with
  | outside =>
    unfold walk
    simp only [filesBelow_of_outside hroot]
    rfl
  | inside place =>
    obtain ⟨found, hfound, hbelow⟩ := FileTree.mem_filesBelow_iff hroot
    obtain ⟨entries, hentries, hlisted⟩ := FileTree.mem_list_iff hroot
    obtain rfl := Except.ok.inj (hlist.symm.trans hentries)
    refine List.eq_nil_iff_forall_not_mem.2 fun name hname => ?_
    obtain ⟨names, hmem, htold⟩ := (mem_walk_iff hfound).1 hname
    cases names with
    | nil => cases htold
    | cons first rest =>
      obtain ⟨-, number, hfile⟩ := (hbelow _).1 hmem
      have hkey := hfiles.mem_keys_of_append (List.mem_map_of_mem hfile)
      obtain ⟨⟨names, node⟩, hentry, hnames⟩ := List.mem_map.1 hkey
      obtain rfl : names = place ++ [first] := hnames
      exact List.not_mem_nil ((hlisted first node).2 hentry)

-- ════════════════════════════════════════════════════════════════════════
-- Whether all names have been asked for
-- ════════════════════════════════════════════════════════════════════════

variable {shelf : Shelf} {id : Nat}

theorem names_listing (package : String) (other : Nat) (kind : ClassDirectory) :
    (((directory.listing id package).run shelf).2.directoryState other kind).names =
      (shelf.directoryState other kind).names := by
  rw [run_listing]
  cases (shelf.directoryState id directory).listings.get? package with
  | some listing => rfl
  | none =>
    dsimp only
    exact Shelf.names_setDirectory directory (by rfl) other kind

theorem names_contains (name : ClassName) (other : Nat) (kind : ClassDirectory) :
    (((directory.contains id name).run shelf).2.directoryState other kind).names =
      (shelf.directoryState other kind).names := by
  rw [run_contains]
  cases (shelf.directoryState id directory).names with
  | some names => rfl
  | none =>
    dsimp only
    split
    · rfl
    · exact names_listing name.package other kind

/-- Looking for a class leaves the names that are remembered. -/
theorem names_find (name : ClassName) (other : Nat) (kind : ClassDirectory) :
    (((directory.find id name).run shelf).2.directoryState other kind).names =
      (shelf.directoryState other kind).names := by
  rw [run_find]
  split
  · dsimp only
    rcases RecencyCache.get _ name with ⟨_ | result, cache⟩
    · dsimp only
      rw [Shelf.names_setDirectory directory (by rfl), names_contains]
    · dsimp only
      rw [Shelf.names_setDirectory directory (by rfl), names_contains]
  · exact names_contains name other kind

/-- All names are remembered once they have been asked for, and not before. -/
theorem isSome_names_perform (call : SourceCall) :
    (((call.perform (.directory id directory)).run shelf).2.directoryState id
        directory).names.isSome = true ↔
      call = .names ∨ (shelf.directoryState id directory).names.isSome = true := by
  cases call with
  | find name =>
    change (((directory.find id name).run shelf).2.directoryState id directory).names.isSome = true ↔ _
    rw [names_find]
    simp
  | contains name | locate name =>
    change (((directory.contains id name).run shelf).2.directoryState id directory).names.isSome =
      true ↔ _
    rw [names_contains]
    simp
  | names =>
    change (((directory.names id).run shelf).2.directoryState id directory).names.isSome = true ↔ _
    rw [run_names]
    cases hnames : (shelf.directoryState id directory).names with
    | some names => simp [hnames]
    | none => simp [Shelf.directoryState_setDirectory]
  | isEmpty =>
    change (((directory.isEmpty id).run shelf).2.directoryState id directory).names.isSome = true ↔ _
    rw [run_isEmpty]
    simp
  | close =>
    change ((shelf.setDirectory id _).directoryState id directory).names.isSome = true ↔ _
    rw [Shelf.directoryState_setDirectory, if_pos rfl]
    simp

theorem isSome_names_performAll (calls : List SourceCall) :
    (((calls.forM (SourceCall.perform (.directory id directory))).run shelf).2.directoryState id
        directory).names.isSome = true ↔
      .names ∈ calls ∨ (shelf.directoryState id directory).names.isSome = true := by
  induction calls generalizing shelf with
  | nil => exact (or_iff_right List.not_mem_nil).symm
  | cons call calls ih =>
    change (((calls.forM (SourceCall.perform (.directory id directory))).run
      ((call.perform (.directory id directory)).run shelf).2).2.directoryState id
        directory).names.isSome = true ↔ _
    rw [ih, isSome_names_perform, List.mem_cons, ← or_assoc, eq_comm]
    exact or_congr_left or_comm

-- ════════════════════════════════════════════════════════════════════════
-- Answers
-- ════════════════════════════════════════════════════════════════════════

variable {inventory : Inventory}

theorem contains_iff_of_walked (htruthful : shelf.Truthful inventory)
    (hid : inventory id = some (.directory id directory))
    (hwalked : (shelf.directoryState id directory).names.isSome = true) :
    ((directory.contains id name).run shelf).1 = true ↔ name ∈ directory.walk shelf.files := by
  obtain ⟨names, hnames⟩ := Option.isSome_iff_exists.1 hwalked
  rw [run_contains, hnames, (htruthful.directory hid).names names hnames]
  exact decide_eq_true_iff

theorem contains_iff_of_early (htruthful : shelf.Truthful inventory)
    (hid : inventory id = some (.directory id directory))
    (hearly : (shelf.directoryState id directory).names = none) :
    ((directory.contains id name).run shelf).1 = true ↔
      name.isArray = false ∧ name.simpleName ∈ directory.classesIn shelf.files name.package := by
  rw [run_contains, hearly, ← (listing_steady htruthful hid name.package).1]
  dsimp only
  cases name.isArray <;> simp

end ClassDirectory

/-- What is found, contained and located of a class goes by one condition. -/
structure ClassSource.Knows (source : ClassSource) (shelf : Shelf) (name : ClassName)
    (known : Prop) : Prop where
  contains : ((source.contains name).run shelf).1 = true ↔ known
  locate : ((source.locate name).run shelf).1.isSome = true ↔ known
  find : ((source.find name).run shelf).1 ≠ .ok none ↔ known

/-- What a directory tells when all names have been asked for, and what it tells before. -/
structure DirectoryAnswers (files : FileTree) (root : String) (found : List (List String))
    (listed : List ClassName) (walked : Prop) (source : ClassSource) (shelf : Shelf) : Prop where
  names : (source.names.run shelf).1 = listed
  alike : ∀ name, source.Knows shelf name (((source.contains name).run shelf).1 = true)
  regular : ∀ text, (ClassName.ofText text).Regular →
    (∀ file ∈ found, ClassName.ofEntryPath? ("/".intercalate file) = some (.ofText text) →
      ClassName.IsPlain ("/".intercalate file)) →
    source.Knows shelf (.ofText text) (ClassName.ofText text ∈ listed)
  all : walked → ∀ name, source.Knows shelf name (name ∈ listed)
  isEmpty_iff : walked → ((source.isEmpty.run shelf).1 = true ↔ listed = [])
  /-- Before all names have been asked for, a directory counts as empty if it has no entries. -/
  isEmpty_early_iff : ¬ walked → ((source.isEmpty.run shelf).1 = true ↔ files.list root = .ok [])
  empty : (source.isEmpty.run shelf).1 = true → listed = []

section Answers

variable {directory : ClassDirectory} {shelf : Shelf} {inventory : Inventory} {id : Nat}

theorem ClassSource.Knows.congr {source : ClassSource} {name : ClassName} {known other : Prop}
    (h : source.Knows shelf name known) (hknown : known ↔ other) : source.Knows shelf name other :=
  ⟨h.contains.trans hknown, h.locate.trans hknown, h.find.trans hknown⟩

theorem ClassDirectory.knows (htruthful : shelf.Truthful inventory)
    (hid : inventory id = some (.directory id directory)) (name : ClassName) :
    (ClassSource.directory id directory).Knows shelf name
      (((directory.contains id name).run shelf).1 = true) where
  contains := Iff.rfl
  locate := by
    change (if ((directory.contains id name).run shelf).1 then
      some (ClassSource.directory id directory) else none).isSome = true ↔ _
    cases ((directory.contains id name).run shelf).1 <;> simp
  find := by
    change ((directory.find id name).run shelf).1 ≠ .ok none ↔ _
    by_cases hcontains : ((directory.contains id name).run shelf).1 = true
    · rw [find_of_contains (htruthful.directory hid) hcontains]
      refine iff_of_true ?_ hcontains
      cases directory.readFile shelf.files name with
      | error failure => exact nofun
      | ok definition => exact nofun
    · exact iff_of_false (fun hfound => hfound (find_of_not_contains hcontains)) hcontains

theorem ClassDirectory.isEmpty_of_walked (htruthful : shelf.Truthful inventory)
    (hid : inventory id = some (.directory id directory))
    (hwalked : (shelf.directoryState id directory).names.isSome = true) :
    ((directory.isEmpty id).run shelf).1 = true ↔ directory.walk shelf.files = [] := by
  obtain ⟨names, hnames⟩ := Option.isSome_iff_exists.1 hwalked
  rw [run_isEmpty, hnames, (htruthful.directory hid).names names hnames]
  exact List.isEmpty_iff

theorem ClassDirectory.isEmpty_of_early {place : Place}
    (hroot : shelf.files.directoryAt directory.root = .ok place)
    (hearly : (shelf.directoryState id directory).names = none) :
    ((directory.isEmpty id).run shelf).1 = true ↔ shelf.files.list directory.root = .ok [] := by
  have hlist : ∃ entries, shelf.files.list directory.root = .ok entries := by
    unfold FileTree.list
    rw [hroot]
    cases place <;> exact ⟨_, rfl⟩
  obtain ⟨entries, hentries⟩ := hlist
  rw [run_isEmpty, hearly, hentries]
  simp

/-- A directory on whose shelf right things are remembered answers as it should. -/
theorem ClassDirectory.answers {place : Place} {found : List (List String)}
    (htruthful : shelf.Truthful inventory) (hid : inventory id = some (.directory id directory))
    (hfiles : shelf.files.WellFormed) (hroot : shelf.files.directoryAt directory.root = .ok place)
    (hfound : shelf.files.filesBelow directory.root = .ok found) :
    DirectoryAnswers shelf.files directory.root found (directory.walk shelf.files)
      ((shelf.directoryState id directory).names.isSome = true) (.directory id directory) shelf := by
  have hearly : ¬ (shelf.directoryState id directory).names.isSome = true →
      (shelf.directoryState id directory).names = none := by
    intro hnot
    simpa using hnot
  refine ⟨(names_steady htruthful hid).1, fun name => knows htruthful hid name,
    fun text hregular hplain => (knows htruthful hid _).congr ?_,
    fun hwalked name => (knows htruthful hid name).congr (contains_iff_of_walked htruthful hid hwalked),
    isEmpty_of_walked htruthful hid, fun hnot => isEmpty_of_early hroot (hearly hnot), fun hempty => ?_⟩
  · by_cases hwalked : (shelf.directoryState id directory).names.isSome = true
    · exact contains_iff_of_walked htruthful hid hwalked
    · rw [contains_iff_of_early htruthful hid (hearly hwalked),
        mem_classesIn_iff_mem_walk hfiles hroot hfound hregular hplain]
      exact and_iff_right hregular.notArray
  · by_cases hwalked : (shelf.directoryState id directory).names.isSome = true
    · exact (isEmpty_of_walked htruthful hid hwalked).1 hempty
    · exact walk_eq_nil hfiles hroot ((isEmpty_of_early hroot (hearly hwalked)).1 hempty)

theorem ClassDirectory.answers_performAll {place : Place} {found : List (List String)}
    (htruthful : shelf.Truthful inventory) (hid : inventory id = some (.directory id directory))
    (hfiles : shelf.files.WellFormed) (hroot : shelf.files.directoryAt directory.root = .ok place)
    (hfound : shelf.files.filesBelow directory.root = .ok found)
    (hearly : (shelf.directoryState id directory).names = none) (calls : List SourceCall) :
    DirectoryAnswers shelf.files directory.root found (directory.walk shelf.files)
      (SourceCall.names ∈ calls) (.directory id directory)
      ((calls.forM (SourceCall.perform (.directory id directory))).run shelf).2 := by
  have hkeeps := SourceCall.keeps_performEach calls (.directory hid) htruthful
  rw [← hkeeps.files] at hfiles hroot hfound ⊢
  have hanswers := answers hkeeps.truthful hid hfiles hroot hfound
  simpa only [isSome_names_performAll, hearly, Option.isSome_none, Bool.false_eq_true, or_false]
    using hanswers

end Answers

theorem ClassSource.run_openDirectory {shelf : Shelf} {path : String} (capacity : Nat)
    (h : shelf.files.isDirectory path = true) :
    (openDirectory path capacity).run.run shelf =
      (.ok (.directory shelf.nextId { root := path, capacity }),
        { shelf with nextId := shelf.nextId + 1 }) := by
  rw [openDirectory, run_get_bind, if_pos h]
  rfl

/-- A directory tells the same names at all times. What it finds, contains and locates of a class agrees at
any time, and it agrees with the names for every regular name, unless a file stands for the class by a path
that is not plain. Once all names have been asked for, all answers agree with them. Before, a directory
counts as empty if it has no entries, and then it tells no names. -/
theorem ClassSource.openDirectory_answers (shelf : Shelf) (path : String) (capacity : Nat)
    (hfiles : shelf.files.WellFormed) (hdirectory : shelf.files.isDirectory path = true)
    (hunused : shelf.Unused) :
    ∃ (source : ClassSource) (found : List (List String)) (listed : List ClassName),
      let opened := (openDirectory path capacity).run.run shelf
      opened.1 = .ok source ∧ shelf.files.filesBelow path = .ok found ∧
        (∀ name, name ∈ listed ↔
          ∃ file ∈ found, ClassName.ofEntryPath? ("/".intercalate file) = some name) ∧
        ∀ calls : List SourceCall,
          let asked := (calls.forM (SourceCall.perform source)).run opened.2
          DirectoryAnswers shelf.files path found listed (SourceCall.names ∈ calls) source
            asked.2 := by
  obtain ⟨place, hroot⟩ := FileTree.exists_directoryAt_of_isDirectory hdirectory
  let directory : ClassDirectory := { root := path, capacity }
  obtain ⟨found, hfound⟩ : ∃ found, shelf.files.filesBelow directory.root = .ok found :=
    ClassDirectory.exists_filesBelow hroot
  refine ⟨.directory shelf.nextId directory, found, directory.walk shelf.files, ?_⟩
  dsimp only
  rw [run_openDirectory capacity hdirectory]
  refine ⟨rfl, hfound, fun name => ClassDirectory.mem_walk_iff hfound, fun calls => ?_⟩
  have hid := Inventory.only_self shelf.nextId (.directory shelf.nextId directory)
  have htruthful := hunused.truthful_only (Nat.le_refl _) (Nat.lt_succ_self _)
    (.directory shelf.nextId directory)
  refine ClassDirectory.answers_performAll htruthful hid hfiles hroot hfound ?_ calls
  rw [Shelf.directoryState, hunused.directories _ (Nat.le_refl _)]
  rfl

/-- A directory with two classes and a file that stands for no class, and one without classes. -/
def mixedShelf : Shelf :=
  .blank (.ofEntries [("d/a/X.class", [0xca]), ("d/a.b/C.class", []), ("d/module-info.class", []),
    ("e/README.txt", [])])

theorem mixedShelf_wellFormed : mixedShelf.files.WellFormed :=
  ⟨by decide +kernel, by decide +kernel, by decide +kernel⟩

/-- A class at its own path is known before all names are asked for, and then all listed ones are. -/
theorem ClassSource.openDirectory_answers_mixed :
    mixedShelf.files.WellFormed ∧ mixedShelf.files.isDirectory "d" = true ∧ mixedShelf.Unused ∧
      ∃ (source : ClassSource) (found : List (List String)) (listed : List ClassName),
        let opened := (openDirectory "d" 1).run.run mixedShelf
        let asked := ([SourceCall.find ⟨"a/X"⟩, .isEmpty].forM (SourceCall.perform source)).run opened.2
        let walked := ([SourceCall.names, .close].forM (SourceCall.perform source)).run opened.2
        opened.1 = .ok source ∧ found = [["a", "X.class"], ["a.b", "C.class"], ["module-info.class"]] ∧
          source.Knows asked.2 (.ofText "a/X") (ClassName.ofText "a/X" ∈ listed) ∧
          (source.names.run asked.2).1 = (source.names.run walked.2).1 ∧
          (∀ name, source.Knows walked.2 name (name ∈ listed)) ∧ ⟨"a/X"⟩ ∈ listed ∧
          ⟨"a/b/C"⟩ ∈ listed := by
  have hdirectory : mixedShelf.files.isDirectory "d" = true := by decide +kernel
  have hunused : mixedShelf.Unused := Shelf.unused_blank _
  have hbelow : mixedShelf.files.filesBelow "d" =
      .ok [["a", "X.class"], ["a.b", "C.class"], ["module-info.class"]] := by decide +kernel
  obtain ⟨source, found, listed, hopened, hfound, hlisted, hanswers⟩ :=
    openDirectory_answers mixedShelf "d" 1 mixedShelf_wellFormed hdirectory hunused
  obtain rfl := Except.ok.inj (hfound.symm.trans hbelow)
  have hregular : (ClassName.ofText "a/X").Regular := by
    constructor <;> decide +kernel
  have hother : ∀ file ∈ [["a.b", "C.class"], ["module-info.class"]],
      ClassName.ofEntryPath? ("/".intercalate file) ≠ some (.ofText "a/X") := by decide +kernel
  have hasked := hanswers [.find ⟨"a/X"⟩, .isEmpty]
  have hwalked := hanswers [.names, .close]
  refine ⟨mixedShelf_wellFormed, hdirectory, hunused, source, _, listed, hopened, rfl,
    hasked.regular "a/X" hregular fun file hfile hname => ?_, hasked.names.trans hwalked.names.symm,
    hwalked.all List.mem_cons_self, (hlisted _).2 ⟨_, List.mem_cons_self, by decide +kernel⟩,
    (hlisted _).2 ⟨_, .tail _ List.mem_cons_self, by decide +kernel⟩⟩
  rcases List.mem_cons.1 hfile with rfl | hfile
  · exact ⟨"a/X", by decide +kernel, by decide +kernel, by decide +kernel⟩
  · exact absurd hname (hother file hfile)

/-- A directory with entries but without classes does not count as empty at first. A class that is contained
at first may not be listed, and one that is listed may not be contained at first. -/
theorem ClassSource.openDirectory_disagrees :
    let bare := directory 0 { root := "e", capacity := 16 }
    let opened := (openDirectory "e" 16).run.run mixedShelf
    let mixed := directory 1 { root := "d", capacity := 16 }
    let reopened := (openDirectory "d" 16).run.run opened.2
    let listed := (mixed.names.run reopened.2).1
    opened.1 = .ok bare ∧ (bare.isEmpty.run opened.2).1 = false ∧ (bare.names.run opened.2).1 = [] ∧
      reopened.1 = .ok mixed ∧
      ((mixed.contains ⟨"module-info"⟩).run reopened.2).1 = true ∧ ⟨"module-info"⟩ ∉ listed ∧
      ((mixed.contains ⟨"a/b/C"⟩).run reopened.2).1 = false ∧ ⟨"a/b/C"⟩ ∈ listed := by
  have hbare : mixedShelf.files.isDirectory "e" = true := by decide +kernel
  have hmixed : ({ mixedShelf with nextId := mixedShelf.nextId + 1 } : Shelf).files.isDirectory "d" =
      true := by decide +kernel
  dsimp only
  rw [run_openDirectory 16 hbare, run_openDirectory 16 hmixed]
  exact ⟨rfl, by decide +kernel, by decide +kernel, rfl, by decide +kernel, by decide +kernel,
    by decide +kernel, by decide +kernel⟩

end LinkCheck
