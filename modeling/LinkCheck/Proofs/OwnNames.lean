import LinkCheck.Proofs.ComposedSources
import LinkCheck.Proofs.ThreadedChecks

/-!
# Classes under their own names

A class that is read under a name has this name, or it counts as unreadable. What is read is remembered in
several places, and none of them mixes up names. So a check finds all classes under their own names.

## Main definitions

- `Classpath.OwnNames` — every class stands under its own name
- `Shelf.OwnNames`, `ClassSource.OwnNames` — the same for what is remembered, and for what sources hold

## Main results

- `ClassSource.OwnNames.find` — looking for a class gives one with this name
- `ClassSource.OwnNames.verifyAgainst` — a check puts down classes under their own names
- `ClassSource.OwnNames.flat` — sources that are searched in turn give classes under their own names
-/

namespace LinkCheck

namespace Classpath

variable {classpath : Classpath} {name : ClassName} {definition : ClassDefinition}

/-- Every class stands under its own name. -/
def OwnNames (classpath : Classpath) : Prop :=
  ∀ name definition, classpath.load name = .ok definition → definition.name = name

/-- All of some names can be loaded. -/
def LoadsAll (classpath : Classpath) (names : List ClassName) : Prop :=
  ∀ name ∈ names, ∃ definition, classpath.load name = .ok definition

/-- Only the names of the classpath count. -/
theorem ownNames_iff_of_names : classpath.OwnNames ↔
    ∀ name ∈ classpath.names, (classpath.load name).toOption.all (·.name = name) = true := by
  constructor
  · intro h name _
    cases hload : classpath.load name with
    | error unresolved => rfl
    | ok definition => simpa [Except.toOption] using h name definition hload
  · intro h name definition hload
    have hname := h name (mem_names_of_load hload)
    rw [hload] at hname
    simpa [Except.toOption] using hname

instance : DecidablePred OwnNames := fun _ => decidable_of_iff _ ownNames_iff_of_names.symm

end Classpath

/-- Every class in a cache stands under its own name. -/
def RecencyCache.OwnNames (cache : RecencyCache ClassName ReadResult) : Prop :=
  ∀ name definition, (name, .ok definition) ∈ cache.entries → definition.name = name

namespace RecencyCache.OwnNames

variable {cache after : RecencyCache ClassName ReadResult} {name : ClassName}

theorem get {answer : Option ReadResult} (h : cache.OwnNames)
    (hget : cache.get name = (answer, after)) : after.OwnNames :=
  fun other definition hmem => h other definition (mem_entries_after_get hget hmem)

theorem insert {result : ReadResult} (h : cache.OwnNames)
    (hresult : ∀ definition, result = .ok definition → definition.name = name) :
    (cache.insert name result).OwnNames := by
  intro other definition hmem
  rcases mem_entries_after_insert hmem with hnew | hold
  · obtain ⟨rfl, hdefinition⟩ := Prod.mk.inj hnew
    exact hresult definition hdefinition.symm
  · exact h other definition hold

end RecencyCache.OwnNames

/-- All that is remembered stands under its own name. -/
structure Shelf.OwnNames (shelf : Shelf) : Prop where
  archives : ∀ id archive, (shelf.archiveState id archive).cache.OwnNames
  directories : ∀ id directory, (shelf.directoryState id directory).cache.OwnNames
  memos : ∀ id name definition,
    (shelf.memo id).get? name = some (.ok (some definition)) → definition.name = name

namespace Shelf.OwnNames

variable {shelf : Shelf} {id : Nat}

theorem blank (files : FileTree) : (Shelf.blank files).OwnNames where
  archives := fun _ _ _ _ hmem => by cases hmem
  directories := fun _ _ _ _ hmem => by cases hmem
  memos := fun _ _ _ hmemo => by cases hmemo

theorem setArchive {state : ArchiveState} (h : shelf.OwnNames) (hstate : state.cache.OwnNames) :
    (shelf.setArchive id state).OwnNames where
  archives := fun other archive => by
    rw [archiveState_setArchive]
    split
    · exact hstate
    · exact h.archives other archive
  directories := h.directories
  memos := h.memos

theorem setDirectory {state : DirectoryState} (h : shelf.OwnNames)
    (hstate : state.cache.OwnNames) : (shelf.setDirectory id state).OwnNames where
  archives := h.archives
  directories := fun other directory => by
    rw [directoryState_setDirectory]
    split
    · exact hstate
    · exact h.directories other directory
  memos := h.memos

theorem addMemo {name : ClassName} {answer : FindResult} (h : shelf.OwnNames)
    (hanswer : ∀ definition, answer = .ok (some definition) → definition.name = name) :
    (shelf.addMemo id name answer).OwnNames where
  archives := h.archives
  directories := h.directories
  memos := fun other asked definition hmemo => by
    rw [memo_addMemo] at hmemo
    split at hmemo
    · rw [Table.get?_insert] at hmemo
      split at hmemo
      · next hsame =>
        rw [hsame]
        exact hanswer definition (Option.some.inj hmemo)
      · exact h.memos id asked definition hmemo
    · exact h.memos other asked definition hmemo

end Shelf.OwnNames

/-- What an answer holds has the name that was asked for. -/
def FindResult.Names (name : ClassName) (answer : FindResult) : Prop :=
  ∀ definition, answer = .ok (some definition) → definition.name = name

theorem FindResult.Names.ofRead {name : ClassName} {result : ReadResult}
    (h : ∀ definition, result = .ok definition → definition.name = name) :
    FindResult.Names name (some <$> result) := by
  intro definition hfound
  cases result with
  | error failure => cases hfound
  | ok read =>
    cases hfound
    exact h definition rfl

theorem FindResult.Names.none (name : ClassName) : FindResult.Names name (.ok none) := by
  intro definition hfound
  cases hfound

/-- What is read from an entry of an archive has the name that was asked for. -/
theorem IndexedArchive.name_of_readEntry {archive : IndexedArchive} {files : FileTree}
    {state : ArchiveState} {name : ClassName} {entry : String} {definition : ClassDefinition}
    (h : (archive.readEntry files state name entry).1 = .ok definition) : definition.name = name := by
  cases hopen : archive.openNow files state with
  | error fault =>
    rw [readEntry_of_fault hopen] at h
    cases h
  | ok opened =>
    rw [readEntry_of_open hopen] at h
    split at h
    · cases h
    · exact define_name h

theorem ClassDirectory.name_of_readFile {directory : ClassDirectory} {files : FileTree}
    {name : ClassName} {definition : ClassDefinition}
    (h : directory.readFile files name = .ok definition) : definition.name = name := by
  unfold readFile at h
  split at h
  · cases h
  · exact define_name h

namespace ClassSource

/-- The archives of a source that have been read have their classes under their own names. -/
inductive OwnNames : ClassSource → Prop where
  | empty (id : Nat) : OwnNames (.empty id)
  | read {id : Nat} {archive : ReadArchive} (h : Leaf.WellNamed ⟨id, archive⟩) :
    OwnNames (.read id archive)
  | indexed (id : Nat) (archive : IndexedArchive) : OwnNames (.indexed id archive)
  | directory (id : Nat) (classFiles : ClassDirectory) : OwnNames (.directory id classFiles)
  | union (id : Nat) (moniker : String) {children : List (List ClassName × ClassSource)}
    (h : ∀ part ∈ children, OwnNames part.2) : OwnNames (.union id moniker children)
  | caching (id : Nat) {inner : ClassSource} (h : OwnNames inner) : OwnNames (.caching id inner)

end ClassSource

section Parts

variable {shelf : Shelf} {id : Nat} {name : ClassName}

theorem IndexedArchive.ownNames_find (archive : IndexedArchive) (hshelf : shelf.OwnNames) :
    FindResult.Names name ((archive.find id name).run shelf).1 ∧
      ((archive.find id name).run shelf).2.OwnNames := by
  have hcache := hshelf.archives id archive
  rw [run_find]
  cases archive.entries.get? name with
  | none => exact ⟨.none name, hshelf⟩
  | some entry =>
    dsimp only
    rcases hget : (shelf.archiveState id archive).cache.get name with ⟨_ | result, cache⟩
    · have hread : ∀ definition, (archive.readEntry shelf.files (shelf.archiveState id archive)
          name entry).1 = .ok definition → definition.name = name := fun _ => name_of_readEntry
      exact ⟨.ofRead hread, hshelf.setArchive ((hcache.get hget).insert hread)⟩
    · refine ⟨.ofRead fun definition hresult => ?_, hshelf.setArchive (hcache.get hget)⟩
      subst hresult
      exact hcache name definition (RecencyCache.mem_entries_of_get hget)

namespace ClassDirectory

theorem ownNames_names (directory : ClassDirectory) (hshelf : shelf.OwnNames) :
    ((directory.names id).run shelf).2.OwnNames := by
  rw [run_names]
  split
  · exact hshelf
  · exact hshelf.setDirectory (hshelf.directories id directory)

theorem ownNames_contains (directory : ClassDirectory) (id : Nat) (name : ClassName)
    (hshelf : shelf.OwnNames) : ((directory.contains id name).run shelf).2.OwnNames := by
  rw [run_contains]
  split
  · exact hshelf
  · split
    · exact hshelf
    · rw [run_listing]
      split
      · exact hshelf
      · exact hshelf.setDirectory (hshelf.directories id directory)

theorem ownNames_find (directory : ClassDirectory) (hshelf : shelf.OwnNames) :
    FindResult.Names name ((directory.find id name).run shelf).1 ∧
      ((directory.find id name).run shelf).2.OwnNames := by
  have hafter := directory.ownNames_contains id name hshelf
  have hcache := hafter.directories id directory
  rw [run_find]
  split
  · dsimp only
    rcases hget : (((directory.contains id name).run shelf).2.directoryState id
      directory).cache.get name with ⟨_ | result, cache⟩
    · have hread : ∀ definition, directory.readFile ((directory.contains id name).run shelf).2.files
          name = .ok definition → definition.name = name := fun _ => name_of_readFile
      exact ⟨.ofRead hread, hafter.setDirectory ((hcache.get hget).insert hread)⟩
    · refine ⟨.ofRead fun definition hresult => ?_, hafter.setDirectory (hcache.get hget)⟩
      subst hresult
      exact hcache name definition (RecencyCache.mem_entries_of_get hget)
  · exact ⟨.none name, hafter⟩

end ClassDirectory

end Parts

namespace ClassSource.OwnNames

variable {source : ClassSource} {shelf : Shelf}

theorem names (h : source.OwnNames) (hshelf : shelf.OwnNames) :
    (source.names.run shelf).2.OwnNames := by
  induction h with
  | empty | read | indexed | union => exact hshelf
  | directory id classFiles => exact classFiles.ownNames_names hshelf
  | caching _ _ ih => exact ih

/-- Looking for a class gives one with this name, and puts nothing down under another. -/
theorem find (h : source.OwnNames) (hshelf : shelf.OwnNames) (name : ClassName) :
    FindResult.Names name ((source.find name).run shelf).1 ∧
      ((source.find name).run shelf).2.OwnNames := by
  induction h with
  | empty => exact ⟨.none name, hshelf⟩
  | @read id archive hnamed =>
    refine ⟨fun definition hfound => ?_, hshelf⟩
    change archive.find name = _ at hfound
    unfold ReadArchive.find at hfound
    split at hfound
    · cases hfound
    · next result hresult =>
      refine FindResult.Names.ofRead (fun read hread => ?_) definition hfound
      subst hread
      exact hnamed name read hresult
  | indexed id archive => exact archive.ownNames_find hshelf
  | directory id classFiles => exact classFiles.ownNames_find hshelf
  | @union id moniker children _ ih =>
    change FindResult.Names name ((findOwned name children).run shelf).1 ∧
      ((findOwned name children).run shelf).2.OwnNames
    rw [findOwned_eq]
    cases howner : owner? name children with
    | none => exact ⟨.none name, hshelf⟩
    | some child =>
      obtain ⟨part, hpart, rfl, _⟩ := exists_of_owner? howner
      exact ih part hpart
  | @caching id inner _ ih =>
    cases hmemo : (shelf.memo id).get? name with
    | some answer =>
      rw [run_find_remembered hmemo]
      refine ⟨fun definition hfound => ?_, hshelf⟩
      subst hfound
      exact hshelf.memos id name definition hmemo
    | none =>
      rw [run_find_anew hmemo]
      exact ⟨ih.1, ih.2.addMemo ih.1⟩

/-- A check puts down classes under their own names only. -/
theorem verifyAgainst {plugin effective : ClassSource} (hplugin : plugin.OwnNames)
    (heffective : effective.OwnNames) (options : Options) (hshelf : shelf.OwnNames) :
    ((plugin.verifyAgainst effective options).run shelf).2.OwnNames := by
  have hlinking : Linking Shelf.OwnNames Shelf.OwnNames plugin effective :=
    { plugin := fun _ hnow name => (hplugin.find hnow name).2
      names := fun _ hnow => heffective.names hnow
      find := fun _ hnow name => (heffective.find hnow name).2
      leave := fun _ hnow => hnow }
  exact hlinking.kept_verifyAgainst options (hplugin.names hshelf)

/-- Sources that are searched one after the other give classes under their own names. -/
theorem flat {sources : List ClassSource} (h : ∀ source ∈ sources, source.OwnNames)
    (files : FileTree) : (Classpath.flat files sources).OwnNames := by
  intro name definition hload
  rw [Classpath.load_eq_ok_iff, Classpath.find] at hload
  split at hload
  · change (sources.findSome? (contained? files name)).getD _ = _ at hload
    cases hfirst : sources.findSome? (contained? files name) with
    | none =>
      rw [hfirst] at hload
      cases hload
    | some result =>
      rw [hfirst] at hload
      obtain ⟨source, hsource, hcontained⟩ := List.exists_of_findSome?_eq_some hfirst
      unfold contained? at hcontained
      split at hcontained
      · cases hcontained
        exact ((h source hsource).find (.blank files) name).1 definition hload
      · cases hcontained
  · cases hload

theorem mapM_withNames {sources : List ClassSource} (h : ∀ source ∈ sources, source.OwnNames)
    (hshelf : shelf.OwnNames) :
    ((sources.mapM withNames).run shelf).1.map Prod.snd = sources ∧
      ((sources.mapM withNames).run shelf).2.OwnNames := by
  induction sources generalizing shelf with
  | nil => exact ⟨rfl, hshelf⟩
  | cons source sources ih =>
    obtain ⟨hsource, hsources⟩ := List.forall_mem_cons.1 h
    obtain ⟨hsame, hafter⟩ := ih hsources (hsource.names hshelf)
    rw [List.mapM_cons, Shelved.run_bind, Shelved.run_bind]
    exact ⟨congrArg (source :: ·) hsame, hafter⟩

/-- Laying sources one behind the other keeps classes under their own names. -/
theorem unionOf {sources : List ClassSource} (h : ∀ source ∈ sources, source.OwnNames)
    (hshelf : shelf.OwnNames) :
    ((unionOf sources).run shelf).1.OwnNames ∧ ((unionOf sources).run shelf).2.OwnNames := by
  have hfresh : ∀ {shelf : Shelf}, shelf.OwnNames → (Shelf.freshId.run shelf).2.OwnNames :=
    fun hshelf => ⟨hshelf.archives, hshelf.directories, hshelf.memos⟩
  have hfilled : ∀ source ∈ filled shelf sources, source.OwnNames :=
    fun source hsource => h source (List.mem_of_mem_filter hsource)
  obtain ⟨_, hrun⟩ | ⟨source, hsingle, hrun⟩ | hrun := run_unionOf sources shelf
  · rw [hrun]
    exact ⟨.empty _, hfresh hshelf⟩
  · rw [hrun]
    exact ⟨hfilled source (hsingle ▸ List.mem_singleton_self source), hshelf⟩
  · obtain ⟨hsame, hafter⟩ := mapM_withNames hfilled hshelf
    rw [hrun]
    refine ⟨.union _ _ fun part hpart => ?_, hfresh hafter⟩
    obtain ⟨names, hnamed, _⟩ := exists_of_mem_shareNames hpart
    exact hfilled part.2 (hsame ▸ List.mem_map.2 ⟨_, hnamed, rfl⟩)

end ClassSource.OwnNames

end LinkCheck
