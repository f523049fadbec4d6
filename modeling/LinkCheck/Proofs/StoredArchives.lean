import LinkCheck.Archive.Packing
import LinkCheck.Proofs.SourceHistories
import Mathlib.Data.List.Forall2
import Mathlib.Data.List.Induction
import Mathlib.Data.List.Nodup

/-!
# Archives read at once and on demand

An archive may be read when it is opened, or entry by entry when its classes are looked for. Either way it
presents the classes among its entries: their names in the order of the entries, and for each name what the
first entry holds that stands for it. How many classes are kept in memory, and when the file is given up and
opened again, cannot be seen from outside.

## Main definitions

- `ArchiveReader.Stores` — some bytes are an archive with some entries
- `ClassSource.Presents` — a source tells the classes among some entries

## Main results

- `IndexedArchive.readAnew_of_stored` — entries are found by name as they are found in order
- `ClassSource.presents_opened` — both ways of opening present the same classes
-/

namespace LinkCheck

namespace Table

variable {κ α : Type} [DecidableEq κ]

/-- The keys of a table of pairs are all that occur, each where it comes first. -/
theorem keys_ofListNew (pairs : List (κ × α)) :
    (ofListNew pairs).keys = (pairs.map Prod.fst).eraseDups := by
  induction pairs using List.reverseRecOn with
  | nil => rfl
  | append_singleton pairs pair ih =>
    have hlast : ofListNew (pairs ++ [pair]) = (ofListNew pairs).insertNew pair.1 pair.2 := by
      rw [ofListNew, List.foldl_append]
      rfl
    rw [hlast, insertNew, List.map_append, List.eraseDups_append, ← ih]
    have hmem : (ofListNew pairs).contains pair.1 = true ↔ pair.1 ∈ pairs.map Prod.fst := by
      rw [← mem_keys_iff, ih, List.mem_eraseDups]
    by_cases hknown : pair.1 ∈ pairs.map Prod.fst
    · rw [if_pos (hmem.2 hknown)]
      simp [List.removeAll, hknown]
    · rw [if_neg (hknown ∘ hmem.1)]
      have hnew : [pair.1].removeAll (pairs.map Prod.fst) = [pair.1] := by
        simp [List.removeAll, hknown]
      rw [List.map_singleton, hnew]
      exact List.map_append

theorem get?_of_mem {table : Table κ α} {key : κ} {value : α} (h : table.keys.Nodup)
    (hmem : (key, value) ∈ table.entries) : table.get? key = some value := by
  obtain ⟨entries⟩ := table
  unfold keys get? at *
  induction entries with
  | nil => cases hmem
  | cons entry entries ih =>
    obtain ⟨hfirst, hrest⟩ := List.nodup_cons.1 h
    rcases List.mem_cons.1 hmem with rfl | hmem
    · exact List.lookup_cons_self
    · have hne : key ≠ entry.1 := fun hsame => hfirst (hsame ▸ List.mem_map_of_mem hmem)
      rw [List.lookup_cons, beq_false_of_ne hne]
      exact ih hrest hmem

end Table

namespace ArchiveReader

variable {reader : ArchiveReader} {bytes : List UInt8} {archive : Archive}
  {entries : List (String × List UInt8)}

/-- Some bytes are an archive whose directory lists these entries, and the data of each can be read. -/
def Stores (reader : ArchiveReader) (bytes : List UInt8) (entries : List (String × List UInt8)) :
    Prop :=
  ∃ archive, reader.index bytes = .ok archive ∧ reader.contents archive bytes = .ok entries

theorem stores_iff : reader.Stores bytes entries ↔ reader.readAll bytes = .ok entries := by
  constructor
  · rintro ⟨archive, harchive, hentries⟩
    rw [readAll, harchive]
    exact hentries
  · intro h
    rw [readAll] at h
    rcases harchive : reader.index bytes with fault | archive
    · rw [harchive] at h
      cases h
    · rw [harchive] at h
      exact ⟨archive, harchive, h⟩

/-- The data of an entry start where its header tells, and can be read from there. -/
structure Holds (reader : ArchiveReader) (bytes : List UInt8) (slot : String × Slot)
    (entry : String × List UInt8) : Prop where
  name : slot.1 = entry.1
  data : ∃ start, reader.findStart slot.2 bytes = .ok start ∧ reader.checkMethod slot.2 = .ok () ∧
    reader.read slot.2 start bytes = .ok entry.2

theorem holds_of_read {slot : String × Slot} {entry : String × List UInt8}
    (h : (do
      let start ← reader.enter slot.2 bytes
      let data ← (reader.read slot.2 start bytes).mapError fun _ => ArchiveFault.unreadable
      return (slot.1, data)) = Except.ok entry) : reader.Holds bytes slot entry := by
  unfold enter at h
  cases hstart : reader.findStart slot.2 bytes with
  | error fault =>
    rw [hstart] at h
    cases h
  | ok start =>
    cases hmethod : reader.checkMethod slot.2 with
    | error fault =>
      rw [hstart, hmethod] at h
      cases h
    | ok checked =>
      cases hread : reader.read slot.2 start bytes with
      | error fault =>
        rw [hstart, hmethod] at h
        change ((reader.read slot.2 start bytes).mapError _ >>= _) = _ at h
        rw [hread] at h
        cases h
      | ok data =>
        rw [hstart, hmethod] at h
        change ((reader.read slot.2 start bytes).mapError _ >>= _) = _ at h
        rw [hread] at h
        cases h
        exact ⟨rfl, start, hstart, hmethod, hread⟩

theorem forall₂_of_contents (h : reader.contents archive bytes = .ok entries) :
    List.Forall₂ (reader.Holds bytes) archive.entries entries :=
  (mapM_eq_ok_iff.1 h).imp fun _ _ hread => holds_of_read hread

theorem keys_of_contents (h : reader.contents archive bytes = .ok entries) :
    archive.keys = entries.map Prod.fst := by
  have hnames : List.Forall₂ (fun slot entry => slot.1 = entry.1) archive.entries entries :=
    (forall₂_of_contents h).imp fun _ _ hholds => hholds.name
  rwa [Table.keys, ← List.forall₂_eq_eq_eq, List.forall₂_map_left_iff, List.forall₂_map_right_iff]

/-- The data that an entry holds are held by a slot with its name. -/
theorem exists_slot_of_contents (h : reader.contents archive bytes = .ok entries)
    {entry : String × List UInt8} (hmem : entry ∈ entries) :
    ∃ slot ∈ archive.entries, reader.Holds bytes slot entry :=
  exists_of_forall₂ (forall₂_of_contents h).flip hmem

end ArchiveReader

namespace IndexedArchive

variable {files : FileTree} {path : String} {bytes : List UInt8}
  {entries : List (String × List UInt8)}

theorem exists_file_of_read (h : files.read path = .ok bytes) :
    ∃ number, files.node path = .ok (.file number) ∧ files.bytes number = bytes := by
  unfold FileTree.read at h
  rcases hnode : files.node path with fault | _ | number
  · rw [hnode] at h
    cases h
  · rw [hnode] at h
    cases h
  · rw [hnode] at h
    cases h
    exact ⟨number, rfl, rfl⟩

theorem ofFile_of_read (capacity : Nat) {content : Archive} (hfile : files.read path = .ok bytes)
    (hcontent : files.reader.index bytes = .ok content) :
    ofFile files path capacity = .ok (.ofArchive path capacity content) := by
  obtain ⟨number, hnode, hbytes⟩ := exists_file_of_read hfile
  unfold ofFile
  rw [hnode]
  simp only [FileTree.openArchive, hbytes, hcontent]
  rfl

/-- What is read of an entry on demand is what the archive stores under its name. -/
theorem readAnew_of_stored (archive : IndexedArchive) {content : Archive}
    (hfile : files.read archive.path = .ok bytes)
    (hcontent : files.reader.index bytes = .ok content)
    (hstored : files.reader.contents content bytes = .ok entries) {entry : String × List UInt8}
    (hmem : entry ∈ entries) (name : ClassName) :
    archive.readAnew files name entry.1 = define name entry.2 := by
  obtain ⟨number, hnode, hbytes⟩ := exists_file_of_read hfile
  have hopen : archive.openAnew files = .ok { file := number, archive := content } := by
    unfold openAnew openNow
    simp only [hnode]
    change ((files.reader.index (files.bytes number)).map _).mapError _ = _
    rw [hbytes, hcontent]
    rfl
  obtain ⟨⟨place, slot⟩, hslot, hname, start, hstart, hmethod, hread⟩ :=
    ArchiveReader.exists_slot_of_contents hstored hmem
  have hget : content.get? entry.1 = some slot := by
    have hplace : place = entry.1 := hname
    rw [← hplace]
    exact Table.get?_of_mem (files.reader.nodup_keys hcontent) hslot
  have hentry : (OpenedArchive.readEntry { file := number, archive := content } files entry.1).1 =
      .ok entry.2 := by
    unfold OpenedArchive.readEntry
    simp only [hget, OpenedArchive.startOf, Table.get?_empty, hbytes, hstart, hmethod]
    exact hread
  rw [readAnew, readEntry_of_open hopen, hentry]

end IndexedArchive

section Presenting

variable {entries : List (String × List UInt8)}

/-- The first entry that stands for a class. -/
def entryFor? (entries : List (String × List UInt8)) (name : ClassName) :
    Option (String × List UInt8) :=
  entries.find? fun entry => ClassName.ofEntryPath? entry.1 = some name

/-- A source tells the classes among some entries, each as the first entry holds it that stands for
it. -/
structure ClassSource.Presents (entries : List (String × List UInt8)) (shelf : Shelf)
    (source : ClassSource) : Prop where
  names : (source.names.run shelf).1 =
    (entries.filterMap fun entry => ClassName.ofEntryPath? entry.1).eraseDups
  find : ∀ name, ((source.find name).run shelf).1 =
    ((entryFor? entries name).map fun entry => some <$> define name entry.2).getD (.ok none)

theorem lookup_filterMap_ofEntryPath? {α : Type} (value : ClassName → String × List UInt8 → α)
    (entries : List (String × List UInt8)) (name : ClassName) :
    (entries.filterMap fun entry =>
      (ClassName.ofEntryPath? entry.1).map fun found => (found, value found entry)).lookup name =
        (entryFor? entries name).map (value name) := by
  unfold entryFor?
  induction entries with
  | nil => rfl
  | cons entry entries ih =>
    cases hfound : ClassName.ofEntryPath? entry.1 with
    | none => simp [hfound, ih]
    | some found =>
      by_cases hsame : found = name
      · simp [hfound, hsame]
      · simp [hfound, hsame, List.lookup_cons, beq_false_of_ne (Ne.symm hsame), ih]

theorem map_fst_filterMap_ofEntryPath? {α : Type} (value : ClassName → String × List UInt8 → α)
    (entries : List (String × List UInt8)) :
    (entries.filterMap fun entry =>
      (ClassName.ofEntryPath? entry.1).map fun found => (found, value found entry)).map Prod.fst =
        entries.filterMap fun entry => ClassName.ofEntryPath? entry.1 := by
  rw [List.map_filterMap]
  congr 1
  funext entry
  cases ClassName.ofEntryPath? entry.1 <;> rfl

/-- The entry of a directory stands for no class. -/
theorem ofEntryPath?_of_slash {path : String} (h : path.toList.getLast? = some '/') :
    ClassName.ofEntryPath? path = none := by
  have hsuffix : ".class".toList.isSuffixOf? path.toList = none := by
    by_contra hsome
    obtain ⟨stem, hstem⟩ := Option.ne_none_iff_exists'.1 hsome
    rw [List.isSuffixOf?_eq_some_iff_append_eq] at hstem
    rw [← hstem] at h
    simp at h
  rw [ClassName.ofEntryPath?, hsuffix]
  rfl

theorem isPluginDescriptor_of_slash {path : String} (h : path.toList.getLast? = some '/') :
    isPluginDescriptor path = false := by
  refine decide_eq_false fun hdescriptor => ?_
  rw [← List.takeWhile_append_dropWhile (p := (· = '/')) (l := path.toList), hdescriptor] at h
  simp at h

/-- Entries of directories make no difference to what is read of an archive. -/
theorem ReadArchive.ofEntries_filter (moniker : String) (entries : List (String × List UInt8)) :
    ofEntries moniker (entries.filter fun entry => entry.1.toList.getLast? ≠ some '/') =
      ofEntries moniker entries := by
  unfold ofEntries
  congr 1
  · rw [List.filterMap_filter]
    congr 2
    funext entry
    by_cases hslash : entry.1.toList.getLast? = some '/'
    · simp [hslash, ofEntryPath?_of_slash hslash]
    · simp [hslash]
  · rw [List.any_filter]
    congr 1
    funext entry
    by_cases hslash : entry.1.toList.getLast? = some '/'
    · simp [hslash, isPluginDescriptor_of_slash hslash]
    · simp [hslash]

theorem ReadArchive.ofBytes_of_stores {reader : ArchiveReader} (moniker : String)
    {bytes : List UInt8} (h : reader.Stores bytes entries) :
    ofBytes reader moniker bytes = .ok (.ofEntries moniker entries) := by
  unfold ofBytes
  simp only [ArchiveReader.stores_iff.1 h, ofEntries_filter]

namespace ClassSource

theorem presents_read (id : Nat) (moniker : String) (entries : List (String × List UInt8))
    (shelf : Shelf) : Presents entries shelf (.read id (.ofEntries moniker entries)) where
  names := by
    change (Table.ofListNew (entries.filterMap fun entry =>
      (ClassName.ofEntryPath? entry.1).map fun found => (found, define found entry.2))).keys = _
    rw [Table.keys_ofListNew, map_fst_filterMap_ofEntryPath? fun found entry => define found entry.2]
  find := fun name => by
    change ReadArchive.find _ name = _
    rw [ReadArchive.find]
    have hget : (ReadArchive.ofEntries moniker entries).classes.get? name =
        (entryFor? entries name).map fun entry => define name entry.2 :=
      (Table.get?_ofListNew _ name).trans
        (lookup_filterMap_ofEntryPath? (fun found entry => define found entry.2) entries name)
    rw [hget]
    cases entryFor? entries name <;> rfl

variable {shelf : Shelf} {inventory : Inventory} {id : Nat} {path : String} {capacity : Nat}
  {bytes : List UInt8} {content : Archive} {entries : List (String × List UInt8)}

theorem presents_indexed {files : FileTree} (hcontent : files.reader.index bytes = .ok content)
    (hstored : files.reader.contents content bytes = .ok entries)
    (hfile : files.read path = .ok bytes) (hfiles : shelf.files = files)
    (htruthful : shelf.Truthful inventory)
    (hid : inventory id = some (.indexed id (.ofArchive path capacity content))) :
    Presents entries shelf (.indexed id (.ofArchive path capacity content)) := by
  subst hfiles
  have hentries : (IndexedArchive.ofArchive path capacity content).entries =
      .ofListNew (entries.filterMap fun entry =>
        (ClassName.ofEntryPath? entry.1).map fun found => (found, entry.1)) := by
    unfold IndexedArchive.ofArchive
    rw [ArchiveReader.keys_of_contents hstored, List.filterMap_map]
    rfl
  constructor
  · change (IndexedArchive.ofArchive path capacity content).entries.keys = _
    rw [hentries, Table.keys_ofListNew, map_fst_filterMap_ofEntryPath? fun _ entry => entry.1]
  · intro name
    change ((IndexedArchive.find _ id name).run shelf).1 = _
    rw [(IndexedArchive.find_steady htruthful hid).1, IndexedArchive.answer_eq, hentries,
      Table.get?_ofListNew, lookup_filterMap_ofEntryPath? fun _ entry => entry.1]
    cases hentry : entryFor? entries name with
    | none => rfl
    | some entry =>
      have hmem : entry ∈ entries := List.mem_of_find?_eq_some hentry
      have hread := IndexedArchive.readAnew_of_stored (.ofArchive path capacity content) hfile
        hcontent hstored hmem name
      exact congrArg (some <$> ·) hread

theorem run_openEager (hfile : shelf.files.read path = .ok bytes)
    (hstored : shelf.files.reader.Stores bytes entries) :
    (openEager path).run.run shelf =
      (.ok (.read shelf.nextId (.ofEntries path entries)),
        { shelf with nextId := shelf.nextId + 1 }) := by
  rw [openEager, run_get_bind]
  simp only [hfile]
  rw [ofBytes, run_get_bind, run_liftM_bind (ReadArchive.ofBytes_of_stores path hstored)]
  rfl

theorem run_openIndexed (hfile : shelf.files.read path = .ok bytes)
    (hcontent : shelf.files.reader.index bytes = .ok content) :
    (openIndexed path capacity).run.run shelf =
      (.ok (.indexed shelf.nextId (.ofArchive path capacity content)),
        { shelf with nextId := shelf.nextId + 1 }) := by
  rw [openIndexed, run_get_bind,
    run_liftM_bind (IndexedArchive.ofFile_of_read capacity hfile hcontent)]
  rfl

/-- An archive that is read at once and the same archive read on demand, with however little memory, present
the same classes and tell the same of a descriptor, whatever either of them was asked before and by
whatever reader archives are read. -/
theorem presents_opened (shelf : Shelf) (path : String) (capacity : Nat) (bytes : List UInt8)
    (entries : List (String × List UInt8)) (hfile : shelf.files.read path = .ok bytes)
    (hstored : shelf.files.reader.Stores bytes entries) (hunused : shelf.Unused) :
    ∃ (eager : ReadArchive) (onDemand : IndexedArchive),
      let opened := (openEager path).run.run shelf
      let reopened := (openIndexed path capacity).run.run opened.2
      let first := read shelf.nextId eager
      let second := indexed (shelf.nextId + 1) onDemand
      opened.1 = .ok first ∧ reopened.1 = .ok second ∧ onDemand.capacity = capacity ∧
        eager.hasDescriptor = onDemand.hasDescriptor ∧
        (eager.hasDescriptor = true ↔ ∃ entry ∈ entries, isPluginDescriptor entry.1) ∧
        ∀ calls : List (ClassSource × SourceCall),
          (∀ call ∈ calls, call.1 = first ∨ call.1 = second) →
            let asked := (calls.forM fun call => call.2.perform call.1).run reopened.2
            first.Presents entries asked.2 ∧ second.Presents entries asked.2 := by
  have hopened := run_openEager hfile hstored
  obtain ⟨content, hcontent, hentries⟩ := hstored
  have hreopened : (openIndexed path capacity).run.run { shelf with nextId := shelf.nextId + 1 } =
      (.ok (.indexed (shelf.nextId + 1) (.ofArchive path capacity content)),
        { shelf with nextId := shelf.nextId + 2 }) := run_openIndexed hfile hcontent
  refine ⟨.ofEntries path entries, .ofArchive path capacity content, ?_⟩
  dsimp only
  rw [hopened]
  dsimp only
  rw [hreopened]
  refine ⟨rfl, rfl, rfl, ?_, List.any_eq_true, fun calls hcalls => ?_⟩
  · change (entries.any fun entry => isPluginDescriptor entry.1) = content.keys.any isPluginDescriptor
    rw [ArchiveReader.keys_of_contents hentries, List.any_map]
    rfl
  -- Only the archive that is read on demand remembers anything.
  have hid := Inventory.only_self (shelf.nextId + 1)
    (.indexed (shelf.nextId + 1) (.ofArchive path capacity content))
  have htruthful := hunused.truthful_only (Nat.le_succ _) (Nat.lt_succ_self _)
    (.indexed (shelf.nextId + 1) (.ofArchive path capacity content))
  have hkeeps := SourceCall.keeps_performAll calls (fun call hcall => by
    rcases hcalls call hcall with hcall | hcall
    · rw [hcall]
      exact .read _ _
    · rw [hcall]
      exact .indexed hid) htruthful
  exact ⟨presents_read _ path entries _,
    presents_indexed hcontent hentries hfile hkeeps.files hkeeps.truthful hid⟩

end ClassSource

end Presenting

/-- Two entries for one class, neither of which can be read, and a descriptor between them. -/
def twinEntries : List (String × List UInt8) :=
  [("x/X.class", [0xca]), ("META-INF/plugin.xml", []), ("x\\X.class", []), ("lib/", [])]

/-- A shelf with an archive of these entries. -/
def twinShelf : Shelf :=
  .blank (.ofEntries [("a.jar", Archive.pack twinEntries)])

set_option maxRecDepth 20000 in
/-- The first of the two entries counts, also if no class is kept in memory. -/
theorem ClassSource.presents_opened_twins :
    twinShelf.files.read "a.jar" = .ok (Archive.pack twinEntries) ∧
      ArchiveReader.zip.Stores (Archive.pack twinEntries) twinEntries ∧ twinShelf.Unused ∧
      (entryFor? twinEntries ⟨"x/X"⟩).map Prod.snd = some [0xca] ∧
      ∃ (eager : ReadArchive) (onDemand : IndexedArchive),
        let opened := (openEager "a.jar").run.run twinShelf
        let reopened := (openIndexed "a.jar" 0).run.run opened.2
        opened.1 = .ok (read 0 eager) ∧ reopened.1 = .ok (indexed 1 onDemand) ∧
          eager.hasDescriptor = true ∧ onDemand.hasDescriptor = true ∧
          let calls := [(indexed 1 onDemand, SourceCall.find ⟨"x/X"⟩), (indexed 1 onDemand, .close)]
          let asked := (calls.forM fun call => call.2.perform call.1).run reopened.2
          (read 0 eager).Presents twinEntries asked.2 ∧
            (indexed 1 onDemand).Presents twinEntries asked.2 := by
  have hfile : twinShelf.files.read "a.jar" = .ok (Archive.pack twinEntries) := by decide +kernel
  have hstored : ArchiveReader.zip.Stores (Archive.pack twinEntries) twinEntries :=
    ArchiveReader.stores_iff.2 (by decide +kernel)
  have hunused : twinShelf.Unused := Shelf.unused_blank _
  obtain ⟨eager, onDemand, hopened, hreopened, _, hsame, hdescriptor, hpresent⟩ :=
    presents_opened twinShelf "a.jar" 0 _ twinEntries hfile hstored hunused
  have hdescribed : eager.hasDescriptor = true :=
    hdescriptor.2 ⟨("META-INF/plugin.xml", []), by decide, by decide⟩
  refine ⟨hfile, hstored, hunused, by decide +kernel, eager, onDemand, hopened, hreopened, hdescribed,
    hsame ▸ hdescribed, hpresent _ ?_⟩
  intro call hcall
  right
  rcases List.mem_cons.1 hcall with rfl | hcall
  · rfl
  · rw [List.mem_singleton.1 hcall]
    rfl

end LinkCheck
