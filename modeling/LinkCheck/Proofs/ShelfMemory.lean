import LinkCheck.ClassSource.Opening
import LinkCheck.Proofs.Tables

/-!
# What sources remember

Archives and directories remember what they have read, and a caching source remembers answers. As long as
the files stay as they are, everything that is remembered is what would be read anew. Numbers tell sources
apart, so what is remembered under a number belongs to one source.

## Main definitions

- `Shelf.blank` — files, and nothing that is remembered
- `ClassSource.listed`, `ClassSource.answer` — what a source tells when nothing is remembered
- `ArchiveState.Truthful`, `DirectoryState.Truthful` — what is remembered is what would be read anew
- `Inventory`, `Shelf.Truthful` — the same for all sources that numbers stand for
- `Inventory.withCaching` — an inventory with one more caching source
-/

namespace LinkCheck

namespace RecencyCache

variable {κ α : Type} [DecidableEq κ] {cache : RecencyCache κ α} {key : κ} {value : α} {entry : κ × α}

theorem mem_of_mem_without {entries : List (κ × α)} (h : entry ∈ without entries key) :
    entry ∈ entries :=
  (List.mem_filter.1 h).1

theorem mem_entries_of_lookup {entries : List (κ × α)} (h : entries.lookup key = some value) :
    (key, value) ∈ entries := by
  obtain ⟨before, after, rfl, _⟩ := List.lookup_eq_some_iff.1 h
  exact List.mem_append_right _ List.mem_cons_self

/-- A value that a cache gives is one of its entries. -/
theorem mem_entries_of_get {after : RecencyCache κ α} (h : cache.get key = (some value, after)) :
    (key, value) ∈ cache.entries := by
  unfold get at h
  split at h
  · next hlookup =>
    cases h
    exact mem_entries_of_lookup hlookup
  · cases h

/-- Looking into a cache adds nothing. -/
theorem mem_entries_after_get {answer : Option α} {after : RecencyCache κ α}
    (h : cache.get key = (answer, after)) (hentry : entry ∈ after.entries) :
    entry ∈ cache.entries := by
  unfold get at h
  split at h
  · next hlookup =>
    cases h
    rcases List.mem_append.1 hentry with hentry | hentry
    · exact mem_of_mem_without hentry
    · rw [List.mem_singleton.1 hentry]
      exact mem_entries_of_lookup hlookup
  · cases h
    exact hentry

/-- Storing a value adds nothing else. -/
theorem mem_entries_after_insert (h : entry ∈ (cache.insert key value).entries) :
    entry = (key, value) ∨ entry ∈ cache.entries := by
  unfold insert at h
  dsimp only at h
  split at h
  · rcases List.mem_append.1 h with h | h
    · exact .inr (mem_of_mem_without (List.mem_of_mem_drop h))
    · exact .inl (List.mem_singleton.1 h)
  · rcases List.mem_append.1 h with h | h
    · exact .inr (mem_of_mem_without h)
    · exact .inl (List.mem_singleton.1 h)

end RecencyCache

namespace IndexedArchive

variable {archive : IndexedArchive} {files : FileTree}

/-- The archive as it is opened when it is not held open. -/
def openAnew (archive : IndexedArchive) (files : FileTree) : Except StorageFault OpenedArchive :=
  archive.openNow files { cache := .ofCapacity archive.capacity }

/-- What an entry holds when the archive is not held open. -/
def readAnew (archive : IndexedArchive) (files : FileTree) (name : ClassName) (entry : String) :
    ReadResult :=
  (archive.readEntry files { cache := .ofCapacity archive.capacity } name entry).1

theorem readEntry_of_fault {state : ArchiveState} {fault : StorageFault}
    (h : archive.openNow files state = .error fault) (name : ClassName) (entry : String) :
    archive.readEntry files state name entry = (.error (.storage fault), none) := by
  rw [readEntry, h]

theorem readEntry_of_open {state : ArchiveState} {opened : OpenedArchive}
    (h : archive.openNow files state = .ok opened) (name : ClassName) (entry : String) :
    archive.readEntry files state name entry =
      (match (opened.readEntry files entry).1 with
        | .error fault => .error (.storage (.archive fault))
        | .ok bytes => define name bytes,
        some (opened.readEntry files entry).2) := by
  rw [readEntry, h]
  rcases hread : opened.readEntry files entry with ⟨_ | bytes, after⟩
  · simp only [hread]
  · simp only [hread]

/-- Of an archive that has just been opened no data have been read. -/
theorem starts_of_openAnew {opened : OpenedArchive} (h : archive.openAnew files = .ok opened) :
    opened.starts = {} := by
  unfold openAnew openNow at h
  rcases hnode : files.node archive.path with _ | node
  · simp only [hnode] at h
    cases h
  · simp only [hnode] at h
    cases node with
    | directory => cases h
    | file number =>
      change ((files.reader.index (files.bytes number)).map _).mapError _ = _ at h
      rcases hcontent : files.reader.index (files.bytes number) with _ | content
      · rw [hcontent] at h
        cases h
      · rw [hcontent] at h
        cases h
        rfl

end IndexedArchive

/-- An archive that is held open is the one that would be opened anew, and the data of its entries start
where their headers tell. -/
structure OpenedArchive.Truthful (archive : IndexedArchive) (files : FileTree)
    (opened : OpenedArchive) : Prop where
  same : ∃ anew, archive.openAnew files = .ok anew ∧ opened.file = anew.file ∧
    opened.archive = anew.archive
  starts : ∀ entry start, opened.starts.get? entry = some start →
    ∀ slot, opened.archive.get? entry = some slot →
      files.reader.findStart slot (files.bytes opened.file) = .ok start

/-- What an archive remembers is what would be read anew. -/
structure ArchiveState.Truthful (archive : IndexedArchive) (files : FileTree)
    (state : ArchiveState) : Prop where
  opened : ∀ opened, state.opened = some opened → opened.Truthful archive files
  cache : ∀ name result, (name, result) ∈ state.cache.entries →
    ∀ entry, archive.entries.get? name = some entry → result = archive.readAnew files name entry

namespace OpenedArchive.Truthful

variable {archive : IndexedArchive} {files : FileTree} {opened : OpenedArchive}

theorem ofAnew (h : archive.openAnew files = .ok opened) : opened.Truthful archive files where
  same := ⟨opened, h, rfl, rfl⟩
  starts := by
    rw [IndexedArchive.starts_of_openAnew h]
    intro entry start hstart
    cases hstart

/-- Data start where they would be found anew. -/
theorem startOf_eq (h : opened.Truthful archive files) {entry : String} {slot : Slot}
    (hslot : opened.archive.get? entry = some slot) :
    opened.startOf files entry slot = files.reader.findStart slot (files.bytes opened.file) := by
  unfold startOf
  split
  · next start hstart => exact (h.starts entry start hstart slot hslot).symm
  · rfl

/-- Reading an entry gives what it would give anew, and the archive that is held open stays right. -/
theorem readEntry (h : opened.Truthful archive files) {anew : OpenedArchive}
    (hanew : archive.openAnew files = .ok anew) (entry : String) :
    (opened.readEntry files entry).1 = (anew.readEntry files entry).1 ∧
      (opened.readEntry files entry).2.Truthful archive files := by
  obtain ⟨other, hother, hfile, harchive⟩ := h.same
  obtain rfl : anew = other := Except.ok.inj (hanew.symm.trans hother)
  unfold OpenedArchive.readEntry
  rw [← harchive, ← hfile]
  cases hslot : opened.archive.get? entry with
  | none => exact ⟨rfl, h⟩
  | some slot =>
    -- Where the data start is found in the same bytes both times, remembered or not.
    have hstart := h.startOf_eq hslot
    have hstartAnew := (ofAnew hanew).startOf_eq (harchive ▸ hslot)
    rw [← hfile] at hstartAnew
    simp only [hstart, hstartAnew]
    cases hfound : files.reader.findStart slot (files.bytes opened.file) with
    | error fault => exact ⟨rfl, h⟩
    | ok start =>
      refine ⟨rfl, ⟨anew, hanew, hfile, harchive⟩, fun other place hplace otherSlot hotherSlot => ?_⟩
      rw [Table.get?_insert] at hplace
      split at hplace
      · next hsame =>
        subst hsame
        cases hplace
        rw [hslot] at hotherSlot
        cases hotherSlot
        exact hfound
      · exact h.starts other place hplace otherSlot hotherSlot

end OpenedArchive.Truthful

namespace ArchiveState.Truthful

variable {archive : IndexedArchive} {files : FileTree} {state : ArchiveState}

theorem blank (archive : IndexedArchive) (files : FileTree) :
    ArchiveState.Truthful archive files { cache := .ofCapacity archive.capacity } where
  opened := fun _ hopened => by cases hopened
  cache := fun _ _ hentry => by cases hentry

/-- Reading a class gives what it would give anew, and an archive that is then held open is right. -/
theorem readEntry (h : state.Truthful archive files) (name : ClassName) (entry : String) :
    (archive.readEntry files state name entry).1 = archive.readAnew files name entry ∧
      ∀ opened, (archive.readEntry files state name entry).2 = some opened →
        opened.Truthful archive files := by
  have hopen : ∀ opened, archive.openNow files state = .ok opened →
      opened.Truthful archive files := by
    intro opened hopened
    unfold IndexedArchive.openNow at hopened
    split at hopened
    · next held hheld =>
      cases hopened
      exact h.opened _ hheld
    · exact .ofAnew hopened
  have hfails : ∀ fault, archive.openNow files state = .error fault →
      archive.openAnew files = .error fault := by
    intro fault hfault
    unfold IndexedArchive.openNow at hfault
    split at hfault
    · cases hfault
    · exact hfault
  cases hnow : archive.openNow files state with
  | error fault =>
    rw [IndexedArchive.readAnew, IndexedArchive.readEntry_of_fault hnow,
      IndexedArchive.readEntry_of_fault (hfails fault hnow)]
    exact ⟨rfl, fun _ hnone => by cases hnone⟩
  | ok opened =>
    obtain ⟨anew, hanew, _, _⟩ := (hopen opened hnow).same
    obtain ⟨hsame, hafter⟩ := (hopen opened hnow).readEntry hanew entry
    rw [IndexedArchive.readAnew, IndexedArchive.readEntry_of_open hnow,
      IndexedArchive.readEntry_of_open hanew, hsame]
    refine ⟨rfl, fun after hsome => ?_⟩
    cases hsome
    exact hafter

end ArchiveState.Truthful

/-- What a directory remembers is what would be found anew. -/
structure DirectoryState.Truthful (directory : ClassDirectory) (files : FileTree)
    (state : DirectoryState) : Prop where
  names : ∀ names, state.names = some names → names = directory.walk files
  listings : ∀ package listing, state.listings.get? package = some listing →
    listing = directory.classesIn files package
  cache : ∀ name result, (name, result) ∈ state.cache.entries →
    result = directory.readFile files name

namespace DirectoryState.Truthful

variable {directory : ClassDirectory} {files : FileTree} {state : DirectoryState}

theorem blank (directory : ClassDirectory) (files : FileTree) :
    DirectoryState.Truthful directory files { cache := .ofCapacity directory.capacity } where
  names := fun _ hnames => by cases hnames
  listings := fun _ _ hlisting => by cases hlisting
  cache := fun _ _ hentry => by cases hentry

theorem withNames (h : state.Truthful directory files) :
    ({ state with names := some (directory.walk files) } : DirectoryState).Truthful directory
      files where
  names := fun _ hnames => (Option.some.inj hnames).symm
  listings := h.listings
  cache := h.cache

theorem withListing (h : state.Truthful directory files) (package : String) :
    ({ state with listings := state.listings.insert package (directory.classesIn files package) } :
      DirectoryState).Truthful directory files where
  names := h.names
  listings := fun other listing hlisting => by
    rw [Table.get?_insert] at hlisting
    split at hlisting
    · next hsame => rw [hsame, Option.some.inj hlisting]
    · exact h.listings other listing hlisting
  cache := h.cache

theorem withCache (h : state.Truthful directory files) {cache : RecencyCache ClassName ReadResult}
    (hcache : ∀ name result, (name, result) ∈ cache.entries →
      result = directory.readFile files name) :
    ({ state with cache } : DirectoryState).Truthful directory files :=
  ⟨h.names, h.listings, hcache⟩

end DirectoryState.Truthful

/-- Files, and nothing that is remembered. -/
def Shelf.blank (files : FileTree) : Shelf :=
  { files }

@[simp]
theorem Shelf.files_blank (files : FileTree) : (Shelf.blank files).files = files := rfl

@[simp]
theorem Shelf.directoryState_blank (files : FileTree) (id : Nat) (directory : ClassDirectory) :
    (Shelf.blank files).directoryState id directory =
      { cache := .ofCapacity directory.capacity } := rfl

namespace ClassSource

/-- The names that a source tells when nothing is remembered. -/
def listed (files : FileTree) (source : ClassSource) : List ClassName :=
  (source.names.run (.blank files)).1

/-- The answer that a source gives when nothing is remembered. -/
def answer (files : FileTree) (source : ClassSource) (name : ClassName) : FindResult :=
  ((source.find name).run (.blank files)).1

/-- A remembered answer is right, if the name is listed and not answered with nothing. -/
def Answers (files : FileTree) (source : ClassSource) (name : ClassName) (result : FindResult) :
    Prop :=
  name ∈ source.listed files → source.answer files name ≠ .ok none →
    result = source.answer files name

end ClassSource

/-- What the numbers of sources stand for. -/
abbrev Inventory := Nat → Option ClassSource

/-- All that is remembered under the numbers of an inventory is right, and nothing is remembered under
numbers that no source has yet. -/
structure Shelf.Truthful (inventory : Inventory) (shelf : Shelf) : Prop where
  archive : ∀ {id : Nat} {archive : IndexedArchive}, inventory id = some (.indexed id archive) →
    (shelf.archiveState id archive).Truthful archive shelf.files
  directory : ∀ {id : Nat} {directory : ClassDirectory},
    inventory id = some (.directory id directory) →
      (shelf.directoryState id directory).Truthful directory shelf.files
  memo : ∀ {id : Nat} {inner : ClassSource}, inventory id = some (.caching id inner) →
    ∀ {name : ClassName} {result : FindResult}, (shelf.memo id).get? name = some result →
      inner.Answers shelf.files name result
  numbered : ∀ {id : Nat} {source : ClassSource}, inventory id = some source → id < shelf.nextId
  unused : ∀ {id : Nat}, shelf.nextId ≤ id → ∀ name, (shelf.memo id).get? name = none

/-- The inventory with one more caching source. -/
def Inventory.withCaching (inventory : Inventory) (id : Nat) (inner : ClassSource) : Inventory :=
  fun other => if other = id then some (.caching id inner) else inventory other

/-- What happens to a shelf while sources are used: the files stay, and what is remembered stays right. -/
structure Shelf.Keeps (inventory : Inventory) (before after : Shelf) : Prop where
  files : after.files = before.files
  nextId : before.nextId ≤ after.nextId
  truthful : after.Truthful inventory

namespace Shelf

variable {inventory : Inventory} {shelf : Shelf}

/-- A shelf on which nothing is remembered is right. -/
theorem Truthful.blank {files : FileTree} {nextId : Nat}
    (h : ∀ id source, inventory id = some source → id < nextId) :
    ({ files, nextId } : Shelf).Truthful inventory where
  archive := fun _ => .blank _ files
  directory := fun _ => .blank _ files
  memo := fun _ _ _ hresult => by cases hresult
  numbered := fun hsource => h _ _ hsource
  unused := fun _ _ => rfl

theorem Keeps.refl (h : shelf.Truthful inventory) : shelf.Keeps inventory shelf :=
  ⟨rfl, Nat.le_refl _, h⟩

theorem Keeps.trans {first second third : Shelf} (h : first.Keeps inventory second)
    (hnext : second.Keeps inventory third) : first.Keeps inventory third where
  files := hnext.files.trans h.files
  nextId := Nat.le_trans h.nextId hnext.nextId
  truthful := hnext.truthful

theorem archiveState_setArchive (shelf : Shelf) (id other : Nat) (state : ArchiveState)
    (archive : IndexedArchive) :
    (shelf.setArchive id state).archiveState other archive =
      if other = id then state else shelf.archiveState other archive := by
  unfold archiveState setArchive
  simp only [Table.get?_insert]
  split <;> rfl

theorem directoryState_setDirectory (shelf : Shelf) (id other : Nat) (state : DirectoryState)
    (directory : ClassDirectory) :
    (shelf.setDirectory id state).directoryState other directory =
      if other = id then state else shelf.directoryState other directory := by
  unfold directoryState setDirectory
  simp only [Table.get?_insert]
  split <;> rfl

/-- Which directory has a number makes no difference to the names that are remembered under it. -/
theorem names_directoryState (shelf : Shelf) (id : Nat) (directory other : ClassDirectory) :
    (shelf.directoryState id directory).names = (shelf.directoryState id other).names := by
  unfold directoryState
  cases shelf.directories.get? id <;> rfl

/-- The names that are remembered stay where those that are put down are the same. -/
theorem names_setDirectory {id : Nat} (directory : ClassDirectory) {state : DirectoryState}
    (h : state.names = (shelf.directoryState id directory).names) (other : Nat)
    (kind : ClassDirectory) :
    ((shelf.setDirectory id state).directoryState other kind).names =
      (shelf.directoryState other kind).names := by
  rw [directoryState_setDirectory]
  split
  · next hsame => rw [h, hsame, names_directoryState shelf id directory kind]
  · rfl

theorem memo_addMemo (shelf : Shelf) (id other : Nat) (name : ClassName) (result : FindResult) :
    (shelf.addMemo id name result).memo other =
      if other = id then (shelf.memo id).insert name result else shelf.memo other := by
  unfold addMemo
  rw [memo]
  simp only [Table.get?_insert]
  split <;> rfl

/-- Right things may be put down for an archive. -/
theorem Keeps.setArchive {id : Nat} {archive : IndexedArchive} {state : ArchiveState}
    (h : shelf.Truthful inventory) (hid : inventory id = some (.indexed id archive))
    (hstate : state.Truthful archive shelf.files) :
    shelf.Keeps inventory (shelf.setArchive id state) := by
  refine ⟨rfl, Nat.le_refl _, { h with archive := fun {other kind} hother => ?_ }⟩
  rw [archiveState_setArchive]
  split
  · next hsame =>
    subst hsame
    cases hid.symm.trans hother
    exact hstate
  · exact h.archive hother

/-- Right things may be put down for a directory. -/
theorem Keeps.setDirectory {id : Nat} {directory : ClassDirectory} {state : DirectoryState}
    (h : shelf.Truthful inventory) (hid : inventory id = some (.directory id directory))
    (hstate : state.Truthful directory shelf.files) :
    shelf.Keeps inventory (shelf.setDirectory id state) := by
  refine ⟨rfl, Nat.le_refl _, { h with directory := fun {other kind} hother => ?_ }⟩
  rw [directoryState_setDirectory]
  split
  · next hsame =>
    subst hsame
    cases hid.symm.trans hother
    exact hstate
  · exact h.directory hother

/-- Right answers may be put down for a caching source. -/
theorem Keeps.addMemo {id : Nat} {inner : ClassSource} {name : ClassName} {result : FindResult}
    (h : shelf.Truthful inventory) (hid : inventory id = some (.caching id inner))
    (hresult : inner.Answers shelf.files name result) :
    shelf.Keeps inventory (shelf.addMemo id name result) := by
  refine ⟨rfl, Nat.le_refl _, { h with memo := ?_, unused := ?_ }⟩
  · intro other kind hother key answer hanswer
    rw [memo_addMemo] at hanswer
    split at hanswer
    · next hsame =>
      subst hsame
      cases hid.symm.trans hother
      rw [Table.get?_insert] at hanswer
      split at hanswer
      · next hkey =>
        subst hkey
        cases hanswer
        exact hresult
      · exact h.memo hother hanswer
    · exact h.memo hother hanswer
  · intro other hother key
    rw [memo_addMemo, if_neg]
    · exact h.unused hother key
    · -- The number of a source in the inventory has been given out.
      rintro rfl
      exact Nat.not_lt.2 hother (h.numbered hid)

/-- Giving out a number changes nothing else. -/
theorem Keeps.freshId (h : shelf.Truthful inventory) :
    shelf.Keeps inventory (Shelf.freshId.run shelf).2 where
  files := rfl
  nextId := Nat.le_succ _
  truthful :=
    { archive := h.archive
      directory := h.directory
      memo := h.memo
      numbered := fun hsource => Nat.lt_succ_of_lt (h.numbered hsource)
      unused := fun hid => h.unused (Nat.le_of_succ_le hid) }

/-- What is right for more sources is right for fewer. -/
theorem Truthful.of_known {later : Inventory} (h : shelf.Truthful later)
    (hknown : ∀ id source, inventory id = some source → later id = some source) :
    shelf.Truthful inventory where
  archive := fun hid => h.archive (hknown _ _ hid)
  directory := fun hid => h.directory (hknown _ _ hid)
  memo := fun hid _ _ hresult => h.memo (hknown _ _ hid) hresult
  numbered := fun hid => h.numbered (hknown _ _ hid)
  unused := h.unused

theorem Keeps.of_known {later : Inventory} {after : Shelf} (h : shelf.Keeps later after)
    (hknown : ∀ id source, inventory id = some source → later id = some source) :
    shelf.Keeps inventory after :=
  ⟨h.files, h.nextId, h.truthful.of_known hknown⟩

/-- The number of a caching source that is made now belongs to no other. -/
theorem Truthful.known_withCaching (h : shelf.Truthful inventory) (inner : ClassSource) (id : Nat)
    (source : ClassSource) (hid : inventory id = some source) :
    inventory.withCaching shelf.nextId inner id = some source := by
  rw [Inventory.withCaching, if_neg (Nat.ne_of_lt (h.numbered hid)), hid]

/-- Nothing is remembered for a caching source that is made now. -/
theorem Truthful.withCaching (h : shelf.Truthful inventory) (inner : ClassSource) :
    (Shelf.freshId.run shelf).2.Truthful (inventory.withCaching shelf.nextId inner) where
  archive := fun hid => by
    unfold Inventory.withCaching at hid
    split at hid
    · cases hid
    · exact h.archive hid
  directory := fun hid => by
    unfold Inventory.withCaching at hid
    split at hid
    · cases hid
    · exact h.directory hid
  memo := fun {id _} hid {name _} hresult => by
    unfold Inventory.withCaching at hid
    split at hid
    · next hsame => cases (h.unused (Nat.le_of_eq hsame.symm) name).symm.trans hresult
    · exact h.memo hid hresult
  numbered := fun hid => by
    unfold Inventory.withCaching at hid
    split at hid
    · next hsame => exact hsame ▸ Nat.lt_succ_self _
    · exact Nat.lt_succ_of_lt (h.numbered hid)
  unused := fun hid => h.unused (Nat.le_of_succ_le hid)

end Shelf

end LinkCheck
