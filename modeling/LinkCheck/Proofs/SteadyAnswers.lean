import LinkCheck.Proofs.ShelfMemory

/-!
# Sources answer the same at all times

While the files stay as they are, a source tells the same names whatever has been asked before, and it
answers the same for a name that it lists. Using a source keeps what is remembered right.

## Main definitions

- `ClassSource.Grounded` — the parts of a source are those that an inventory knows
- `ClassSource.Coherent` — what a source finds, contains and lists agree

## Main results

- `ClassSource.Grounded.names`, `ClassSource.Grounded.isEmpty` — names are the same at all times
- `ClassSource.Grounded.find` — answers are the same at all times
-/

namespace LinkCheck

-- ════════════════════════════════════════════════════════════════════════
-- Runs
-- ════════════════════════════════════════════════════════════════════════

namespace ClassDirectory

variable (directory : ClassDirectory) (id : Nat) (shelf : Shelf)

theorem run_names : (directory.names id).run shelf =
    match (shelf.directoryState id directory).names with
    | some names => (names, shelf)
    | none => (directory.walk shelf.files, shelf.setDirectory id
        { shelf.directoryState id directory with names := some (directory.walk shelf.files) }) := by
  simp only [names, StateT.run_bind, StateT.run_get, pure_bind]
  cases (shelf.directoryState id directory).names <;> rfl

theorem run_listing (package : String) : (directory.listing id package).run shelf =
    match (shelf.directoryState id directory).listings.get? package with
    | some listing => (listing, shelf)
    | none => (directory.classesIn shelf.files package, shelf.setDirectory id
        { shelf.directoryState id directory with
          listings := (shelf.directoryState id directory).listings.insert package
            (directory.classesIn shelf.files package) }) := by
  simp only [listing, StateT.run_bind, StateT.run_get, pure_bind]
  cases (shelf.directoryState id directory).listings.get? package <;> rfl

theorem run_contains (name : ClassName) : (directory.contains id name).run shelf =
    match (shelf.directoryState id directory).names with
    | some names => (decide (name ∈ names), shelf)
    | none =>
      if name.isArray then (false, shelf)
      else
        (decide (name.simpleName ∈ ((directory.listing id name.package).run shelf).1),
          ((directory.listing id name.package).run shelf).2) := by
  simp only [contains, StateT.run_bind, StateT.run_get, pure_bind]
  cases (shelf.directoryState id directory).names with
  | some names => rfl
  | none =>
    by_cases harray : name.isArray
    · simp only [harray, if_true]; rfl
    · simp only [harray]; rfl

theorem run_isEmpty : (directory.isEmpty id).run shelf =
    (match (shelf.directoryState id directory).names with
      | some names => names.isEmpty
      | none =>
        match shelf.files.list directory.root with
        | .ok entries => entries.isEmpty
        | .error _ => true, shelf) := by
  simp only [isEmpty, StateT.run_bind, StateT.run_get, pure_bind]
  cases (shelf.directoryState id directory).names with
  | some names => rfl
  | none => cases shelf.files.list directory.root <;> rfl

theorem run_find (name : ClassName) : (directory.find id name).run shelf =
    if ((directory.contains id name).run shelf).1 then
      let after := ((directory.contains id name).run shelf).2
      let state := after.directoryState id directory
      match state.cache.get name with
      | (some result, cache) => (some <$> result, after.setDirectory id { state with cache })
      | (none, cache) =>
        (some <$> directory.readFile after.files name, after.setDirectory id
          { state with cache := cache.insert name (directory.readFile after.files name) })
    else (.ok none, ((directory.contains id name).run shelf).2) := by
  unfold find
  rw [StateT.run_bind]
  rcases (directory.contains id name).run shelf with ⟨_ | _, after⟩
  · rfl
  · change (match (after.directoryState id directory).cache.get name with
      | (some result, cache) => _
      | (none, cache) => _ : Shelved FindResult).run after = _
    rcases hget : (after.directoryState id directory).cache.get name with ⟨_ | result, cache⟩
    · simp only [hget]; rfl
    · simp only [hget]; rfl

end ClassDirectory

theorem IndexedArchive.run_find (archive : IndexedArchive) (id : Nat) (shelf : Shelf)
    (name : ClassName) : (archive.find id name).run shelf =
    match archive.entries.get? name with
    | none => (.ok none, shelf)
    | some entry =>
      let state := shelf.archiveState id archive
      match state.cache.get name with
      | (some result, cache) => (some <$> result, shelf.setArchive id { state with cache })
      | (none, cache) =>
        (some <$> (archive.readEntry shelf.files state name entry).1, shelf.setArchive id
          { opened := (archive.readEntry shelf.files state name entry).2
            cache := cache.insert name (archive.readEntry shelf.files state name entry).1 }) := by
  unfold find
  cases archive.entries.get? name with
  | none => rfl
  | some entry =>
    change (match (shelf.archiveState id archive).cache.get name with
      | (some result, cache) => _
      | (none, cache) => _ : Shelved FindResult).run shelf = _
    rcases hget : (shelf.archiveState id archive).cache.get name with ⟨_ | result, cache⟩
    · simp only [hget]; rfl
    · simp only [hget]; rfl

theorem IndexedArchive.answer_eq (archive : IndexedArchive) (id : Nat) (files : FileTree)
    (name : ClassName) : ClassSource.answer files (.indexed id archive) name =
    match archive.entries.get? name with
    | none => .ok none
    | some entry => some <$> archive.readAnew files name entry := by
  change ((archive.find id name).run (.blank files)).1 = _
  rw [run_find]
  cases archive.entries.get? name <;> rfl

-- ════════════════════════════════════════════════════════════════════════
-- Archives and directories
-- ════════════════════════════════════════════════════════════════════════

section Parts

variable {inventory : Inventory} {shelf : Shelf} {id : Nat} {name : ClassName}

/-- An archive that is read on demand answers as if nothing were remembered. -/
theorem IndexedArchive.find_steady {archive : IndexedArchive} (htruthful : shelf.Truthful inventory)
    (hid : inventory id = some (.indexed id archive)) :
    ((archive.find id name).run shelf).1 =
        ClassSource.answer shelf.files (.indexed id archive) name ∧
      shelf.Keeps inventory ((archive.find id name).run shelf).2 := by
  have hstate := htruthful.archive hid
  rw [answer_eq, run_find]
  cases hentry : archive.entries.get? name with
  | none => exact ⟨rfl, .refl htruthful⟩
  | some entry =>
    obtain ⟨hread, hopened⟩ := hstate.readEntry name entry
    dsimp only
    rcases hget : (shelf.archiveState id archive).cache.get name with ⟨_ | result, cache⟩
    · dsimp only
      refine ⟨congrArg (some <$> ·) hread, .setArchive htruthful hid ⟨hopened, ?_⟩⟩
      intro other value hmem
      rcases RecencyCache.mem_entries_after_insert hmem with hnew | hold
      · cases hnew
        intro place hplace
        cases hentry.symm.trans hplace
        exact hread
      · exact hstate.cache other value (RecencyCache.mem_entries_after_get hget hold)
    · have hresult := hstate.cache name result (RecencyCache.mem_entries_of_get hget) entry hentry
      dsimp only
      refine ⟨congrArg (some <$> ·) hresult, .setArchive htruthful hid ⟨hstate.opened, ?_⟩⟩
      exact fun other value hmem =>
        hstate.cache other value (RecencyCache.mem_entries_after_get hget hmem)

theorem IndexedArchive.close_keeps {archive : IndexedArchive}
    (htruthful : shelf.Truthful inventory) (hid : inventory id = some (.indexed id archive)) :
    shelf.Keeps inventory ((archive.close id).run shelf).2 := by
  refine .setArchive htruthful hid ⟨fun opened hopened => ?_, (htruthful.archive hid).cache⟩
  cases hopened

namespace ClassDirectory

variable {directory : ClassDirectory}

/-- The names of a directory are those below its root. -/
theorem names_steady (htruthful : shelf.Truthful inventory)
    (hid : inventory id = some (.directory id directory)) :
    ((directory.names id).run shelf).1 = directory.walk shelf.files ∧
      shelf.Keeps inventory ((directory.names id).run shelf).2 := by
  have hstate := htruthful.directory hid
  rw [run_names]
  cases hnames : (shelf.directoryState id directory).names with
  | some names => exact ⟨hstate.names names hnames, .refl htruthful⟩
  | none =>
    exact ⟨rfl, .setDirectory htruthful hid hstate.withNames⟩

theorem listing_steady (htruthful : shelf.Truthful inventory)
    (hid : inventory id = some (.directory id directory)) (package : String) :
    ((directory.listing id package).run shelf).1 = directory.classesIn shelf.files package ∧
      shelf.Keeps inventory ((directory.listing id package).run shelf).2 := by
  have hstate := htruthful.directory hid
  rw [run_listing]
  cases hlisting : (shelf.directoryState id directory).listings.get? package with
  | some listing => exact ⟨hstate.listings package listing hlisting, .refl htruthful⟩
  | none =>
    dsimp only
    exact ⟨rfl, .setDirectory htruthful hid (hstate.withListing package)⟩

/-- Until all names have been asked for, the directory of the package decides, and from then on the
names do. -/
theorem contains_steady (htruthful : shelf.Truthful inventory)
    (hid : inventory id = some (.directory id directory)) (name : ClassName) :
    (name ∈ directory.walk shelf.files → name.isArray = false →
        name.simpleName ∈ directory.classesIn shelf.files name.package →
          ((directory.contains id name).run shelf).1 = true) ∧
      shelf.Keeps inventory ((directory.contains id name).run shelf).2 := by
  have hstate := htruthful.directory hid
  rw [run_contains]
  cases hnames : (shelf.directoryState id directory).names with
  | some names =>
    refine ⟨fun hwalk _ _ => ?_, .refl htruthful⟩
    rw [← hstate.names names hnames] at hwalk
    exact decide_eq_true hwalk
  | none =>
    obtain ⟨hlisting, hkeeps⟩ := listing_steady htruthful hid name.package
    dsimp only
    split
    · next harray =>
      refine ⟨fun _ hnot => ?_, .refl htruthful⟩
      rw [harray] at hnot
      cases hnot
    · refine ⟨fun _ _ hlisted => ?_, hkeeps⟩
      simpa only [hlisting, decide_eq_true_eq] using hlisted

/-- When nothing is remembered, the directory of the package decides. -/
theorem contains_blank (files : FileTree) :
    ((directory.contains id name).run (.blank files)).1 = true ↔
      name.isArray = false ∧ name.simpleName ∈ directory.classesIn files name.package := by
  simp only [run_contains, run_listing, Shelf.directoryState_blank, Shelf.files_blank,
    Table.get?_empty]
  cases name.isArray <;> simp

theorem isEmpty_steady (htruthful : shelf.Truthful inventory)
    (hid : inventory id = some (.directory id directory))
    (hblank : ((directory.isEmpty id).run (.blank shelf.files)).1 = true →
      directory.walk shelf.files = [])
    (h : ((directory.isEmpty id).run shelf).1 = true) : directory.walk shelf.files = [] := by
  rw [run_isEmpty] at h hblank
  cases hnames : (shelf.directoryState id directory).names with
  | some names =>
    rw [hnames] at h
    rw [← (htruthful.directory hid).names names hnames]
    exact List.isEmpty_iff.1 h
  | none =>
    rw [hnames] at h
    exact hblank h

/-- Whether there is a class is told without reading any. -/
theorem cache_contains (directory : ClassDirectory) (id : Nat) (name : ClassName) (shelf : Shelf) :
    ((directory.contains id name).run shelf).2.files = shelf.files ∧
      (((directory.contains id name).run shelf).2.directoryState id directory).cache =
        (shelf.directoryState id directory).cache := by
  rw [run_contains]
  cases (shelf.directoryState id directory).names with
  | some names => exact ⟨rfl, rfl⟩
  | none =>
    dsimp only
    split
    · exact ⟨rfl, rfl⟩
    · rw [run_listing]
      cases (shelf.directoryState id directory).listings.get? name.package with
      | some listing => exact ⟨rfl, rfl⟩
      | none =>
        refine ⟨rfl, ?_⟩
        rw [Shelf.directoryState_setDirectory, if_pos rfl]

/-- A class that is there is what its file holds. -/
theorem find_of_contains
    (hstate : (shelf.directoryState id directory).Truthful directory shelf.files)
    (h : ((directory.contains id name).run shelf).1 = true) :
    ((directory.find id name).run shelf).1 = some <$> directory.readFile shelf.files name := by
  obtain ⟨hfiles, hcache⟩ := directory.cache_contains id name shelf
  rw [run_find, if_pos h]
  dsimp only
  rw [hfiles, hcache]
  rcases hget : (shelf.directoryState id directory).cache.get name with ⟨_ | result, cache⟩
  · rfl
  · rw [← hstate.cache name result (RecencyCache.mem_entries_of_get hget)]

theorem find_of_not_contains (h : ((directory.contains id name).run shelf).1 ≠ true) :
    ((directory.find id name).run shelf).1 = .ok none := by
  rw [run_find, if_neg h]

/-- Looking for a class keeps what is remembered right. -/
theorem find_keeps (htruthful : shelf.Truthful inventory)
    (hid : inventory id = some (.directory id directory)) (name : ClassName) :
    shelf.Keeps inventory ((directory.find id name).run shelf).2 := by
  obtain ⟨_, hkeeps⟩ := contains_steady htruthful hid name
  have hstate := hkeeps.truthful.directory hid
  rw [run_find]
  split
  · dsimp only
    rcases hget : ((((directory.contains id name).run shelf).2.directoryState id
      directory).cache.get name) with ⟨_ | result, cache⟩
    · refine hkeeps.trans (.setDirectory hkeeps.truthful hid ?_)
      refine hstate.withCache fun other value hmem => ?_
      rcases RecencyCache.mem_entries_after_insert hmem with hnew | hold
      · cases hnew
        rfl
      · exact hstate.cache other value (RecencyCache.mem_entries_after_get hget hold)
    · refine hkeeps.trans (.setDirectory hkeeps.truthful hid ?_)
      refine hstate.withCache fun other value hmem => ?_
      exact hstate.cache other value (RecencyCache.mem_entries_after_get hget hmem)
  · exact hkeeps

theorem close_keeps (htruthful : shelf.Truthful inventory)
    (hid : inventory id = some (.directory id directory)) :
    shelf.Keeps inventory ((directory.close id).run shelf).2 := by
  have hstate := htruthful.directory hid
  refine .setDirectory htruthful hid (hstate.withCache fun name result hmem => ?_)
  cases hmem

end ClassDirectory

end Parts

namespace ClassSource

/-- The parts of a source are those that an inventory knows, and a part of a union answers only for
names that it lists. -/
inductive Grounded (inventory : Inventory) (files : FileTree) : ClassSource → Prop where
  | empty (id : Nat) : Grounded inventory files (.empty id)
  | read (id : Nat) (archive : ReadArchive) : Grounded inventory files (.read id archive)
  | indexed {id : Nat} {archive : IndexedArchive} (h : inventory id = some (.indexed id archive)) :
    Grounded inventory files (.indexed id archive)
  | directory {id : Nat} {classFiles : ClassDirectory}
    (h : inventory id = some (.directory id classFiles)) :
    Grounded inventory files (.directory id classFiles)
  | union (id : Nat) (moniker : String) {children : List (List ClassName × ClassSource)}
    (howned : ∀ part ∈ children, ∀ name ∈ part.1, name ∈ part.2.listed files)
    (h : ∀ part ∈ children, Grounded inventory files part.2) :
    Grounded inventory files (.union id moniker children)
  | caching {id : Nat} {inner : ClassSource} (hid : inventory id = some (.caching id inner))
    (h : Grounded inventory files inner) : Grounded inventory files (.caching id inner)

/-- What a source finds, contains and lists agree on which names there are, and it is empty only if it
lists none. -/
structure Coherent (files : FileTree) (source : ClassSource) : Prop where
  contains_iff : ∀ name,
    ((source.contains name).run (.blank files)).1 = true ↔ name ∈ source.listed files
  find_iff : ∀ name, source.answer files name ≠ .ok none ↔ name ∈ source.listed files
  empty : (source.isEmpty.run (.blank files)).1 = true → source.listed files = []

theorem Coherent.empty_source (files : FileTree) (id : Nat) :
    (ClassSource.empty id).Coherent files where
  contains_iff := fun _ => iff_of_false Bool.false_ne_true List.not_mem_nil
  find_iff := fun _ => iff_of_false (fun h => h rfl) List.not_mem_nil
  empty := fun _ => rfl

/-- An archive is coherent whatever its entries hold, since it tells of an entry that it cannot be read. -/
theorem Coherent.indexed_archive (files : FileTree) (id : Nat) (archive : IndexedArchive) :
    (indexed id archive).Coherent files where
  contains_iff := fun name => (Table.mem_keys_iff archive.entries name).symm
  find_iff := fun name => by
    change _ ↔ name ∈ archive.entries.keys
    rw [Table.mem_keys_iff, Table.contains, IndexedArchive.answer_eq]
    cases archive.entries.get? name with
    | none => simp
    | some entry =>
      refine iff_of_true ?_ rfl
      change some <$> archive.readAnew files name entry ≠ .ok none
      cases archive.readAnew files name entry with
      | error failure => exact fun h => by cases h
      | ok definition => exact fun h => by cases h
  empty := List.isEmpty_iff.1

section Caching

variable {shelf : Shelf} {id : Nat} {inner : ClassSource} {name : ClassName}

/-- An answer that is remembered is given again. -/
theorem run_find_remembered {result : FindResult} (h : (shelf.memo id).get? name = some result) :
    ((caching id inner).find name).run shelf = (result, shelf) := by
  simp only [find, StateT.run_bind, StateT.run_get, pure_bind, h]
  rfl

/-- An answer that is not remembered is remembered from then on. -/
theorem run_find_anew (h : (shelf.memo id).get? name = none) :
    ((caching id inner).find name).run shelf =
      (((inner.find name).run shelf).1,
        ((inner.find name).run shelf).2.addMemo id name ((inner.find name).run shelf).1) := by
  simp only [find, StateT.run_bind, StateT.run_get, pure_bind, h]
  rfl

/-- Remembering answers makes no difference while nothing is remembered. -/
theorem answer_caching (files : FileTree) (id : Nat) (inner : ClassSource) (name : ClassName) :
    (caching id inner).answer files name = inner.answer files name := by
  rw [answer, run_find_anew rfl, answer]

end Caching

section Owners

variable {name : ClassName} {children : List (List ClassName × ClassSource)}

/-- The part of a union that a name belongs to. -/
def owner? (name : ClassName) (children : List (List ClassName × ClassSource)) :
    Option ClassSource :=
  (children.find? (name ∈ ·.1)).map Prod.snd

theorem owner?_cons (name : ClassName) (owned : List ClassName) (child : ClassSource)
    (children : List (List ClassName × ClassSource)) :
    owner? name ((owned, child) :: children) =
      if name ∈ owned then some child else owner? name children := by
  by_cases h : name ∈ owned <;> simp [owner?, h]

theorem owner?_eq_none_iff : owner? name children = none ↔ name ∉ children.flatMap Prod.fst := by
  simp [owner?, List.find?_eq_none]

theorem exists_of_owner? {child : ClassSource} (h : owner? name children = some child) :
    ∃ part ∈ children, part.2 = child ∧ name ∈ part.1 := by
  obtain ⟨part, hpart, hchild⟩ := Option.map_eq_some_iff.1 h
  exact ⟨part, List.mem_of_find?_eq_some hpart, hchild, by simpa using List.find?_some hpart⟩

/-- A union asks the part that a name belongs to. -/
theorem findOwned_eq (name : ClassName) (children : List (List ClassName × ClassSource)) :
    findOwned name children = (owner? name children).elim (pure (.ok none)) (find name) := by
  induction children with
  | nil => rfl
  | cons part children ih =>
    obtain ⟨owned, child⟩ := part
    rw [findOwned, owner?_cons, ih]
    split <;> rfl

end Owners

namespace Grounded

variable {inventory : Inventory} {shelf : Shelf} {source : ClassSource}

/-- A source stays known when an inventory grows. -/
theorem mono {later : Inventory} {files : FileTree} (h : source.Grounded inventory files)
    (hknown : ∀ id source, inventory id = some source → later id = some source) :
    source.Grounded later files := by
  induction h with
  | empty id => exact .empty id
  | read id archive => exact .read id archive
  | indexed hid => exact .indexed (hknown _ _ hid)
  | directory hid => exact .directory (hknown _ _ hid)
  | union id moniker howned _ ih => exact .union id moniker howned ih
  | caching hid _ ih => exact .caching (hknown _ _ hid) ih

/-- A caching source that is made now is known together with the source behind it. -/
theorem withCaching (h : source.Grounded inventory shelf.files)
    (htruthful : shelf.Truthful inventory) :
    (ClassSource.caching shelf.nextId source).Grounded
      (inventory.withCaching shelf.nextId source) shelf.files :=
  .caching (if_pos rfl) (h.mono (htruthful.known_withCaching source))

/-- A source tells the same names at all times. -/
theorem names (h : source.Grounded inventory shelf.files) (htruthful : shelf.Truthful inventory) :
    (source.names.run shelf).1 = source.listed shelf.files ∧
      shelf.Keeps inventory (source.names.run shelf).2 := by
  induction h with
  | empty | read | indexed | union => exact ⟨rfl, .refl htruthful⟩
  | caching _ _ ih => exact ih
  | directory hid => exact ClassDirectory.names_steady htruthful hid

/-- A source that is empty at some time lists no names, if it does so when nothing is remembered. -/
theorem isEmpty (h : source.Grounded inventory shelf.files) (htruthful : shelf.Truthful inventory) :
    (((source.isEmpty.run (.blank shelf.files)).1 = true → source.listed shelf.files = []) →
        (source.isEmpty.run shelf).1 = true → source.listed shelf.files = []) ∧
      shelf.Keeps inventory (source.isEmpty.run shelf).2 := by
  induction h with
  | empty | read | indexed | union =>
    exact ⟨fun _ hempty => List.isEmpty_iff.1 hempty, .refl htruthful⟩
  | caching _ _ ih => exact ih
  | @directory id classFiles hid =>
    refine ⟨ClassDirectory.isEmpty_steady htruthful hid, ?_⟩
    change shelf.Keeps inventory ((classFiles.isEmpty id).run shelf).2
    rw [ClassDirectory.run_isEmpty]
    exact .refl htruthful

theorem findOwned_steady {children : List (List ClassName × ClassSource)} {name : ClassName}
    (htruthful : shelf.Truthful inventory)
    (howned : ∀ part ∈ children, ∀ name ∈ part.1, name ∈ part.2.listed shelf.files)
    (h : ∀ part ∈ children,
      part.2.Answers shelf.files name ((part.2.find name).run shelf).1 ∧
        shelf.Keeps inventory ((part.2.find name).run shelf).2) :
    (((findOwned name children).run (.blank shelf.files)).1 ≠ .ok none →
        ((findOwned name children).run shelf).1 =
          ((findOwned name children).run (.blank shelf.files)).1) ∧
      shelf.Keeps inventory ((findOwned name children).run shelf).2 := by
  rw [findOwned_eq]
  cases howner : owner? name children with
  | none => exact ⟨fun _ => rfl, .refl htruthful⟩
  | some child =>
    obtain ⟨part, hpart, rfl, hname⟩ := exists_of_owner? howner
    obtain ⟨hanswers, hkeeps⟩ := h part hpart
    exact ⟨fun hpresent => hanswers (howned part hpart name hname) hpresent, hkeeps⟩

/-- A source answers the same at all times for a name that it lists. -/
theorem find (h : source.Grounded inventory shelf.files) (htruthful : shelf.Truthful inventory)
    (name : ClassName) :
    source.Answers shelf.files name ((source.find name).run shelf).1 ∧
      shelf.Keeps inventory ((source.find name).run shelf).2 := by
  induction h with
  | empty | read => exact ⟨fun _ _ => rfl, .refl htruthful⟩
  | indexed hid =>
    obtain ⟨hanswer, hkeeps⟩ := IndexedArchive.find_steady htruthful hid
    exact ⟨fun _ _ => hanswer, hkeeps⟩
  | @directory id classFiles hid =>
    refine ⟨fun hlisted hpresent => ?_, ClassDirectory.find_keeps htruthful hid name⟩
    -- With nothing remembered the directory of the package decides, later all names may do so. A name
    -- that is listed and answered for passes both ways.
    have hblank : ((classFiles.contains id name).run (.blank shelf.files)).1 = true :=
      Decidable.byContradiction fun hnot => hpresent (ClassDirectory.find_of_not_contains hnot)
    obtain ⟨harray, hlisting⟩ := (ClassDirectory.contains_blank shelf.files).1 hblank
    have hcontains := (ClassDirectory.contains_steady htruthful hid name).1 hlisted harray hlisting
    have hfound := ClassDirectory.find_of_contains (htruthful.directory hid) hcontains
    have hfoundBlank := ClassDirectory.find_of_contains (.blank classFiles shelf.files) hblank
    exact hfound.trans hfoundBlank.symm
  | union id moniker howned _ ih =>
    obtain ⟨hanswer, hkeeps⟩ := findOwned_steady htruthful howned ih
    exact ⟨fun _ => hanswer, hkeeps⟩
  | @caching id inner hid _ ih =>
    obtain ⟨hanswers, hkeeps⟩ := ih
    cases hmemo : (shelf.memo id).get? name with
    | some result =>
      rw [run_find_remembered hmemo]
      exact ⟨htruthful.memo hid hmemo, .refl htruthful⟩
    | none =>
      rw [run_find_anew hmemo]
      -- The answer is put down once the source behind has used the shelf, with the same files.
      refine ⟨hanswers, hkeeps.trans (.addMemo hkeeps.truthful hid ?_)⟩
      rw [hkeeps.files]
      exact hanswers

theorem closeAll_keeps {children : List (List ClassName × ClassSource)}
    (htruthful : shelf.Truthful inventory)
    (h : ∀ part ∈ children, ∀ current : Shelf, current.files = shelf.files →
      current.Truthful inventory → current.Keeps inventory (part.2.close.run current).2) :
    shelf.Keeps inventory ((closeAll children).run shelf).2 := by
  suffices hall : ∀ current : Shelf, current.files = shelf.files → current.Truthful inventory →
      current.Keeps inventory ((closeAll children).run current).2 from hall shelf rfl htruthful
  induction children with
  | nil => exact fun _ _ hcurrent => .refl hcurrent
  | cons part children ih =>
    intro current hfiles hcurrent
    obtain ⟨owned, child⟩ := part
    have hclosed := h (owned, child) List.mem_cons_self current hfiles hcurrent
    have hrest := ih (fun part hpart => h part (.tail _ hpart)) _ (hclosed.files.trans hfiles)
      hclosed.truthful
    rw [closeAll]
    exact hclosed.trans hrest

/-- Closing a source keeps what is remembered right. -/
theorem close {files : FileTree} (h : source.Grounded inventory files) :
    ∀ shelf : Shelf, shelf.files = files → shelf.Truthful inventory →
      shelf.Keeps inventory (source.close.run shelf).2 := by
  induction h with
  | empty | read => exact fun _ _ htruthful => .refl htruthful
  | indexed hid => exact fun _ _ htruthful => IndexedArchive.close_keeps htruthful hid
  | directory hid => exact fun _ _ htruthful => ClassDirectory.close_keeps htruthful hid
  | union _ _ _ _ ih =>
    rintro shelf rfl htruthful
    exact closeAll_keeps htruthful ih
  | caching _ _ ih => exact ih

end Grounded

end ClassSource

end LinkCheck
