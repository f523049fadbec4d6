import LinkCheck.Proofs.PluginFiles
import LinkCheck.Proofs.ServedJars

/-!
# Plugins in directories and in archives

A plugin in a directory is opened by going through the directory and its jars are read on demand. Packed into an
archive it is opened by the names of the entries and its jars are read at once. Both ways the same class files are
laid before the same jars in the same order, and the same jars count as libraries, so the classes are the same.

## Main definitions

- `PluginFiles.Regular` — the jars of a plugin are named as usual and can be read
- `PluginFiles.SameClasses` — sources from a directory and from an archive have the same classes

## Main results

- `PluginLayout.serves_assemble` — what is made of class files and jars
- `PluginFiles.serves_openDirectory`, `PluginFiles.serves_openZip` — what is served of a plugin in a directory,
  and in an archive
- `PluginClasspath.sameClasses_open` — both have the same classes
-/

namespace LinkCheck

open LinkCheck.Path

namespace PluginLayout

open ClassSource

variable {reader : ArchiveReader}

theorem splitByDescriptor_map {α β : Type} {hasDescriptor : α → Bool} {isOwn : β → Bool} {f : β → α}
    (h : ∀ value, hasDescriptor (f value) = isOwn value) (values : List β) :
    splitByDescriptor hasDescriptor (values.map f) =
      ((splitByDescriptor isOwn values).1.map f, (splitByDescriptor isOwn values).2.map f) := by
  have hsame : hasDescriptor ∘ f = isOwn := funext h
  unfold splitByDescriptor
  rw [List.any_map, hsame]
  split
  · simp only [List.partition_eq_filter_filter, List.filter_map, hsame, Function.comp_assoc]
  · rfl

/-- The jars with the plugin's own classes. -/
def ownJars (jars : List (StoredJar reader)) : List (StoredJar reader) :=
  (splitByDescriptor StoredJar.hasDescriptor jars).1

/-- The jars that are libraries. -/
def bundledJars (jars : List (StoredJar reader)) : List (StoredJar reader) :=
  (splitByDescriptor StoredJar.hasDescriptor jars).2

section Assembling

variable {α : Type} {hasDescriptor : α → Bool} {toSource : α → Shelved ClassSource}
  {archiveOf : StoredJar reader → α} {inventory : Inventory} {shelf : Shelf}
  {place : Option String} {label : String → String} {isFront : ClassName → Prop}
  {front : Option ClassSource} {jars : List (StoredJar reader)}

variable (make : α → Nat → ClassSource)
  (hdescriptor : ∀ jar, hasDescriptor (archiveOf jar) = jar.hasDescriptor)
  (htoSource : ∀ archive (shelf : Shelf), (toSource archive).run shelf =
    (make archive shelf.nextId, { shelf with nextId := shelf.nextId + 1 }))
include hdescriptor htoSource

theorem run_assemble (front : Option ClassSource) (jars : List (StoredJar reader)) (shelf : Shelf) :
    (assemble hasDescriptor toSource front (jars.map archiveOf)).run shelf =
      let own := made shelf.nextId ((ownJars jars).map (make ∘ archiveOf))
      let bundled :=
        made (shelf.nextId + (ownJars jars).length) ((bundledJars jars).map (make ∘ archiveOf))
      let classes := (unionOf (front.toList ++ own)).run
        { shelf with nextId := shelf.nextId + (ownJars jars ++ bundledJars jars).length }
      let libraries := (unionOf bundled).run classes.2
      ({ classes := classes.1, libraries := libraries.1 }, libraries.2) := by
  simp only [assemble, splitByDescriptor_map hdescriptor, Shelved.run_bind, run_mapM_made htoSource,
    Shelved.run_pure, List.length_map, List.map_map, List.length_append, Nat.add_assoc]
  rfl

/-- A plugin serves its class files and its own jars, and as libraries the others. -/
theorem serves_assemble (hfiles : shelf.files.WellFormed)
    (htruthful : ({ shelf with
      nextId := shelf.nextId + (ownJars jars ++ bundledJars jars).length } : Shelf).Truthful inventory)
    (hfront : ∀ source ∈ front.toList, source.isLeaf = true ∧ some source.moniker = place ∧
      source.Grounded inventory shelf.files)
    (hnames : ∀ name, isFront name ↔ ∃ source ∈ front.toList, name ∈ source.listed shelf.files)
    (hjars : ∀ i jar, (ownJars jars ++ bundledJars jars)[i]? = some jar →
      (make (archiveOf jar) (shelf.nextId + i)).Stands inventory shelf.files label jar) :
    let made := (assemble hasDescriptor toSource front (jars.map archiveOf)).run shelf
    made.2.files = shelf.files ∧ made.2.Truthful inventory ∧
      made.1.classes.Serves inventory shelf.files place label isFront (ownJars jars) ∧
      made.1.libraries.Serves inventory shelf.files none label (fun _ => False)
        (bundledJars jars) := by
  have hown : List.Forall₂ (Stands inventory shelf.files label) (ownJars jars)
      (made shelf.nextId ((ownJars jars).map (make ∘ archiveOf))) := by
    refine forall₂_stands_made fun i jar hjar => hjars i jar ?_
    rw [List.getElem?_append_left (List.getElem?_eq_some_iff.1 hjar).1, hjar]
  have hbundled : List.Forall₂ (Stands inventory shelf.files label) (bundledJars jars)
      (made (shelf.nextId + (ownJars jars).length) ((bundledJars jars).map (make ∘ archiveOf))) := by
    refine forall₂_stands_made fun i jar hjar => ?_
    rw [Nat.add_assoc]
    refine hjars _ jar ?_
    rw [List.getElem?_append_right (Nat.le_add_right _ _), Nat.add_sub_cancel_left, hjar]
  rw [run_assemble make hdescriptor htoSource]
  dsimp only
  obtain ⟨hclasses, hkeeps⟩ := serves_unionOf rfl htruthful hfiles hfront hnames hown
  obtain ⟨hlibraries, hkept⟩ := serves_unionOf_jars hkeeps.files hkeeps.truthful hfiles hbundled
  exact ⟨hkept.files.trans hkeeps.files, hkept.truthful, hclasses, hlibraries⟩

end Assembling

section Opening

variable {shelf : Shelf} {jars : List (StoredJar reader)}

theorem run_bind_of_ok {α β : Type} {first : Opening α} {after : Shelf} {value : α}
    (h : first.run.run shelf = (.ok value, after)) (next : α → Opening β) :
    (first >>= next).run.run shelf = (next value).run.run after := by
  rw [ExceptT.run_bind, StateT.run_bind, h]
  rfl

theorem run_mapM_liftExcept {α β γ : Type} {key : α → β} {opened : α → γ}
    {openOne : β → Except OpenError γ} {items : List α}
    (h : ∀ item ∈ items, openOne (key item) = .ok (opened item)) :
    ((items.map key).mapM fun item => liftExcept (openOne item)).run.run shelf =
      (.ok (items.map opened), shelf) := by
  induction items with
  | nil => rfl
  | cons item items ih =>
    rw [List.forall_mem_cons] at h
    have hfirst : (liftExcept (openOne (key item))).run.run shelf = (.ok (opened item), shelf) := by
      rw [h.1]
      rfl
    rw [List.map_cons, List.mapM_cons, run_bind_of_ok hfirst, run_bind_of_ok (ih h.2)]
    rfl

/-- The path of a jar in the directory of a plugin. -/
def jarPath (directory jar : String) : String :=
  join (join directory "lib") jar

/-- A jar in the directory of a plugin, which is read on demand. -/
def jarOnDemand (directory : String) (capacity : Nat) (jar : StoredJar reader) : IndexedArchive :=
  .ofArchive (jarPath directory jar.name) capacity jar.content

/-- A jar in the archive of a plugin, which is read at once. -/
def jarAtOnce (archive top : String) (jar : StoredJar reader) : ReadArchive :=
  .ofEntries (PluginFiles.nestedJar archive top jar.name) jar.entries

/-- The class files in the directory of a plugin. -/
def classesIn? (shelf : Shelf) (directory : String) (capacity : Nat) : Option ClassSource :=
  if shelf.files.isDirectory (join directory "classes") then
    some (.directory shelf.nextId { root := join directory "classes", capacity })
  else none

/-- The class files in the archive of a plugin. -/
def classesAmong? (shelf : Shelf) (archive : String) (entries : List (String × List UInt8)) :
    Option ClassSource :=
  if (PluginFiles.classEntries entries).isEmpty then none
  else
    some (.read shelf.nextId (.ofEntries (archive ++ "!/classes") (PluginFiles.classEntries entries)))

/-- A run of what is put on a shelf makes no opening fail. -/
theorem run_liftM {α : Type} (first : Shelved α) :
    (liftM first : Opening α).run.run shelf = (.ok (first.run shelf).1, (first.run shelf).2) := rfl

theorem run_openDirectory {directory : String} (hreader : shelf.files.reader = reader)
    (capacity : Nat) (hjars : jarsIn shelf.files (join directory "lib") =
      jars.map fun jar => jarPath directory jar.name)
    (hread : ∀ jar ∈ jars, shelf.files.read (jarPath directory jar.name) = .ok jar.data)
    (hoccupied : jars ≠ [] ∨ shelf.files.isDirectory (join directory "classes") = true) :
    (openDirectory directory capacity).run.run shelf =
      let front := classesIn? shelf directory capacity
      let made := (assemble IndexedArchive.hasDescriptor ofIndexed front
        (jars.map (jarOnDemand directory capacity))).run
          { shelf with nextId := shelf.nextId + front.toList.length }
      (.ok made.1, made.2) := by
  subst hreader
  have harchives : ∀ after : Shelf, ((jars.map fun jar => jarPath directory jar.name).mapM fun jar =>
      liftExcept (IndexedArchive.ofFile shelf.files jar capacity)).run.run after =
        (.ok (jars.map (jarOnDemand directory capacity)), after) :=
    fun after => run_mapM_liftExcept fun jar hjar =>
      IndexedArchive.ofFile_of_read capacity (hread jar hjar) jar.opens
  rw [openDirectory, run_get_bind]
  dsimp only
  rw [hjars, classesIn?]
  by_cases hdirectory : shelf.files.isDirectory (join directory "classes") = true
  · have hfront : (some <$> ClassSource.openDirectory (join directory "classes") capacity).run.run
        shelf = (.ok (some (.directory shelf.nextId { root := join directory "classes", capacity })),
          { shelf with nextId := shelf.nextId + 1 }) := by
      rw [map_eq_pure_bind, run_bind_of_ok (ClassSource.run_openDirectory capacity hdirectory)]
      rfl
    rw [if_pos hdirectory, if_pos hdirectory, run_bind_of_ok hfront, if_neg (by simp),
      run_bind_of_ok (harchives _), run_liftM]
    rfl
  · have hsome : jars ≠ [] := hoccupied.resolve_right hdirectory
    rw [if_neg hdirectory, if_neg hdirectory, pure_bind, if_neg (by simpa using hsome),
      run_bind_of_ok (harchives _), run_liftM]
    rfl

theorem run_openZip {archive top : String} {bytes : List UInt8}
    {entries : List (String × List UInt8)} (hreader : shelf.files.reader = reader)
    (hread : shelf.files.read archive = .ok bytes) (hstores : reader.Stores bytes entries)
    (hjars : sortBy (fun first second => decide (first.1 ≤ second.1))
        ((entries.filter fun entry => isNestedJar entry.1).map fun entry =>
          (archive ++ "!/" ++ entry.1, entry.2)) =
      jars.map fun jar => (PluginFiles.nestedJar archive top jar.name, jar.data))
    (hoccupied : jars ≠ [] ∨ PluginFiles.classEntries entries ≠ []) :
    (openZip archive).run.run shelf =
      let front := classesAmong? shelf archive entries
      let made := (assemble ReadArchive.hasDescriptor ofRead front
        (jars.map (jarAtOnce archive top))).run
          { shelf with nextId := shelf.nextId + front.toList.length }
      (.ok made.1, made.2) := by
  subst hreader
  obtain ⟨content, hcontent, hentries⟩ := hstores
  obtain ⟨number, hnode, hbytes⟩ := IndexedArchive.exists_file_of_read hread
  have hopened : shelf.files.openArchive (.file number) =
      .ok { file := number, archive := content } := by
    simp only [FileTree.openArchive, hbytes, hcontent]
    rfl
  have hreadEntries : (liftExcept (readEntries shelf.files.reader archive
      (shelf.files.bytes number) content.entries)).run.run shelf =
        (.ok (entries.filter fun entry => isRead entry.1), shelf) := by
    rw [hbytes, readEntries_of_holds (ArchiveReader.forall₂_of_contents hentries)]
    rfl
  rw [openZip, run_get_bind]
  simp only [hnode, hopened]
  rw [run_bind_of_ok hreadEntries]
  have hnested : (entries.filter fun entry => isRead entry.1).filter
      (fun entry => isNestedJar entry.1) = entries.filter fun entry => isNestedJar entry.1 := by
    rw [List.filter_filter]
    refine List.filter_congr fun entry _ => ?_
    cases hjar : isNestedJar entry.1 <;> simp [isRead, hjar]
  have harchives : ∀ after : Shelf, ((jars.map fun jar =>
      (PluginFiles.nestedJar archive top jar.name, jar.data)).mapM fun jar =>
        liftExcept (ReadArchive.ofBytes shelf.files.reader jar.1 jar.2)).run.run after =
          (.ok (jars.map (jarAtOnce archive top)), after) :=
    fun after => run_mapM_liftExcept fun jar _ =>
      ReadArchive.ofBytes_of_stores _ ⟨jar.content, jar.opens, jar.stores⟩
  have hsome : ¬(((entries.filter fun entry => isNestedJar entry.1).isEmpty &&
      (PluginFiles.classEntries entries).isEmpty) = true) := by
    intro hempty
    rw [Bool.and_eq_true, List.isEmpty_iff, List.isEmpty_iff] at hempty
    rw [hempty.1] at hjars
    exact hoccupied.elim (fun hne => hne (List.map_eq_nil_iff.1 hjars.symm)) fun hne => hne hempty.2
  rw [hnested, ← PluginFiles.classEntries, if_neg hsome, hjars, run_bind_of_ok (harchives shelf),
    classesAmong?]
  by_cases hempty : (PluginFiles.classEntries entries).isEmpty = true
  · rw [if_pos hempty, if_pos hempty, pure_bind, run_liftM]
    rfl
  · rw [if_neg hempty, if_neg hempty, map_eq_pure_bind, bind_assoc, run_bind_of_ok (run_liftM _),
      pure_bind, run_liftM]
    rfl

end Opening

theorem mem_split_iff {jars : List (StoredJar reader)} {jar : StoredJar reader} :
    jar ∈ ownJars jars ++ bundledJars jars ↔ jar ∈ jars := by
  unfold ownJars bundledJars splitByDescriptor
  split
  · rw [List.partition_eq_filter_filter, List.mem_append, List.mem_filter, List.mem_filter]
    cases hdescriptor : jar.hasDescriptor <;> simp [hdescriptor]
  · simp

end PluginLayout

/-- An archive stores one entry under each name. -/
theorem ArchiveReader.Stores.nodup {reader : ArchiveReader} {bytes : List UInt8}
    {entries : List (String × List UInt8)} (h : reader.Stores bytes entries) :
    (entries.map Prod.fst).Nodup := by
  obtain ⟨content, hopens, hstores⟩ := h
  rw [← keys_of_contents hstores]
  exact reader.nodup_keys hopens

namespace PluginFiles

open ClassSource PluginLayout

variable {reader : ArchiveReader}

/-- The jars of a plugin are named as usual and can be read, and there is a jar or a class file. -/
structure Regular (plugin : PluginFiles) (files : FileTree) (directory : String) : Prop where
  named : plugin.UsualNames
  readable : ∀ name data, (["lib", name], data) ∈ plugin → ".jar".toList <:+ name.toList →
    files.read (jarPath directory name) = .ok data ∧ ∃ entries, files.reader.Stores data entries
  occupied : (∃ name data, (["lib", name], data) ∈ plugin ∧ ".jar".toList <:+ name.toList) ∨
    ∃ names data, ("classes" :: names, data) ∈ plugin ∧
      ".class".toList <:+ ("/".intercalate names).toList

/-- The jars of a plugin can be read. -/
theorem Regular.exists_storedJars {plugin : PluginFiles} {files : FileTree} {directory : String}
    (h : plugin.Regular files directory) :
    ∃ jars : List (StoredJar files.reader),
      jars.map (fun jar => (jar.name, jar.data)) = plugin.jars := by
  have hstored : ∀ jar ∈ plugin.jars, ∃ entries, files.reader.Stores jar.2 entries := by
    intro jar hjar
    obtain ⟨hfile, hending⟩ := mem_jars_iff.1 hjar
    exact (h.readable _ _ hfile hending).2
  generalize plugin.jars = named at hstored ⊢
  induction named with
  | nil => exact ⟨[], rfl⟩
  | cons jar named ih =>
    rw [List.forall_mem_cons] at hstored
    obtain ⟨entries, content, hopens, hstores⟩ := hstored.1
    obtain ⟨jars, rfl⟩ := ih hstored.2
    exact ⟨⟨jar.1, jar.2, content, entries, hopens, hstores⟩ :: jars, rfl⟩

theorem Regular.exists_place {plugin : PluginFiles} {files : FileTree} {directory : String}
    (h : plugin.Regular files directory) (hstand : plugin.StandIn files directory) :
    ∃ place, files.directoryAt directory = .ok (.inside place) := by
  obtain ⟨file, hfile⟩ : ∃ file, file ∈ plugin := by
    obtain ⟨name, data, hmem, -⟩ | ⟨names, data, hmem, -⟩ := h.occupied
    · exact ⟨_, hmem⟩
    · exact ⟨_, hmem⟩
  obtain ⟨place, -, hplace, -⟩ := hstand.held file hfile
  exact ⟨place, hplace⟩

theorem Regular.occupied_of_jars {plugin : PluginFiles} {files : FileTree} {directory : String}
    {jars : List (StoredJar reader)} (h : plugin.Regular files directory)
    (hjars : jars.map (fun jar => (jar.name, jar.data)) = plugin.jars) :
    jars ≠ [] ∨ ∃ names data, names ≠ [] ∧ ("classes" :: names, data) ∈ plugin ∧
      ".class".toList <:+ ("/".intercalate names).toList := by
  obtain ⟨name, data, hmem, hending⟩ | ⟨names, data, hmem, hending⟩ := h.occupied
  · left
    rintro rfl
    have hjar := mem_jars_iff.2 ⟨hmem, hending⟩
    rw [← hjars] at hjar
    cases hjar
  · refine .inr ⟨names, data, ?_, hmem, hending⟩
    rintro rfl
    exact absurd hending (by decide)

section Halves

variable {plugin : PluginFiles} {shelf : Shelf} {directory archive top : String} {capacity : Nat}
  {place : List String} {jars : List (StoredJar reader)}

/-- The class files that are found in a directory are those of the plugin. -/
theorem StandIn.hasClass_iff (hstand : plugin.StandIn shelf.files directory)
    (hfiles : shelf.files.WellFormed)
    (hplace : shelf.files.directoryAt directory = .ok (.inside place)) (capacity : Nat)
    (name : ClassName) : plugin.HasClass name ↔
      ∃ source ∈ (classesIn? shelf directory capacity).toList, name ∈ source.listed shelf.files := by
  rw [classesIn?]
  split
  · next hdirectory =>
    rw [← hstand.mem_walk_iff hfiles hplace hdirectory capacity]
    simp only [Option.toList_some, List.mem_singleton, exists_eq_left]
    rfl
  · next hnone =>
    refine iff_of_false ?_ (by simp)
    rintro ⟨names, hmem, hname⟩
    refine hnone (hstand.isDirectory_classes hfiles hplace hmem ?_)
    rintro rfl
    cases hname

/-- The class files that are found in an archive are those of the plugin. -/
theorem PackedIn.hasClass_iff_listed {entries : List (String × List UInt8)}
    (hpacked : plugin.PackedIn top entries) (hslash : ∀ file ∈ plugin, ∀ name ∈ file.1, '/' ∉ name.toList)
    (shelf : Shelf) (archive : String) (name : ClassName) : plugin.HasClass name ↔
      ∃ source ∈ (classesAmong? shelf archive entries).toList, name ∈ source.listed shelf.files := by
  rw [hpacked.hasClass_iff hslash, classesAmong?]
  split
  · next hempty =>
    rw [List.isEmpty_iff.1 hempty]
    simp
  · simp only [Option.toList_some, List.mem_singleton, exists_eq_left]
    rw [listed, (presents_read _ _ _ _).names, List.mem_eraseDups, List.mem_filterMap]

/-- What is made of the files of a plugin in a directory. -/
def makersOf (shelf : Shelf) (directory : String) (capacity : Nat) (jars : List (StoredJar reader)) :
    List (Nat → ClassSource) :=
  (classesIn? shelf directory capacity).toList.map (fun source _ => source) ++
    (ownJars jars ++ bundledJars jars).map fun jar id =>
      .indexed id (jarOnDemand directory capacity jar)

theorem length_makersOf (shelf : Shelf) (directory : String) (capacity : Nat)
    (jars : List (StoredJar reader)) : (makersOf shelf directory capacity jars).length =
      (classesIn? shelf directory capacity).toList.length +
        (ownJars jars ++ bundledJars jars).length := by
  rw [makersOf, List.length_append, List.length_map, List.length_map]

/-- The jars that are made can be told by their numbers. -/
theorem ofMade_jar {i : Nat} {jar : StoredJar reader}
    (h : (ownJars jars ++ bundledJars jars)[i]? = some jar) (shelf : Shelf) (directory : String)
    (capacity : Nat) :
    let id := shelf.nextId + (classesIn? shelf directory capacity).toList.length + i
    Inventory.ofMade shelf.nextId (makersOf shelf directory capacity jars) id =
      some (.indexed id (jarOnDemand directory capacity jar)) := by
  intro id
  have hid : id = shelf.nextId + ((classesIn? shelf directory capacity).toList.length + i) :=
    Nat.add_assoc _ _ _
  have hmaker : (makersOf shelf directory capacity
      jars)[(classesIn? shelf directory capacity).toList.length + i]? =
        some fun id => .indexed id (jarOnDemand directory capacity jar) := by
    rw [makersOf, List.getElem?_append_right (by simp), List.length_map, Nat.add_sub_cancel_left,
      List.getElem?_map, h]
    rfl
  rw [hid]
  exact Inventory.ofMade_add hmaker

/-- The class files that are made can be told by their number. -/
theorem grounded_of_mem_classesIn? {source : ClassSource}
    (h : source ∈ (classesIn? shelf directory capacity).toList) (jars : List (StoredJar reader)) :
    source.isLeaf = true ∧ some source.moniker = some (join directory "classes") ∧
      source.Grounded (.ofMade shelf.nextId (makersOf shelf directory capacity jars)) shelf.files := by
  have hmaker : (makersOf shelf directory capacity jars)[0]? = some fun _ => source := by
    rw [makersOf, Option.mem_toList.1 h]
    rfl
  have hid : Inventory.ofMade shelf.nextId (makersOf shelf directory capacity jars)
      shelf.nextId = some source := Inventory.ofMade_add hmaker
  rw [Option.mem_toList, classesIn?] at h
  obtain ⟨-, hsource⟩ := Option.ite_none_right_eq_some.1 h
  cases hsource
  exact ⟨rfl, rfl, .directory hid⟩

theorem truthful_ofMade (hunused : shelf.Unused) (directory : String) (capacity : Nat)
    (jars : List (StoredJar reader)) :
    ({ shelf with nextId := shelf.nextId + (makersOf shelf directory capacity jars).length } :
      Shelf).Truthful (.ofMade shelf.nextId (makersOf shelf directory capacity jars)) :=
  hunused.truthful (Nat.le_add_right _ _) fun _ _ => Inventory.bounds_of_ofMade

variable (hjars : jars.map (fun jar => (jar.name, jar.data)) = plugin.jars)
  (hdistinct : (plugin.map Prod.fst).Nodup)
include hjars hdistinct

/-- A plugin in a directory serves its files. -/
theorem serves_openDirectory (hreader : shelf.files.reader = reader) (hunused : shelf.Unused)
    (hfiles : shelf.files.WellFormed)
    (hstand : plugin.StandIn shelf.files directory)
    (hregular : plugin.Regular shelf.files directory) (capacity : Nat) :
    ∃ (inventory : Inventory) (plain : PluginClasspath) (after : Shelf),
      (PluginLayout.openDirectory directory capacity).run.run shelf = (.ok plain, after) ∧
        after.files = shelf.files ∧ after.Truthful inventory ∧
        plain.classes.Serves inventory shelf.files (some (join directory "classes"))
          (jarPath directory) plugin.HasClass (ownJars jars) ∧
        plain.libraries.Serves inventory shelf.files none (jarPath directory) (fun _ => False)
          (bundledJars jars) := by
  obtain ⟨place, hplace⟩ := hregular.exists_place hstand
  have hread : ∀ jar ∈ jars, shelf.files.read (jarPath directory jar.name) = .ok jar.data := by
    intro jar hjar
    have hmem : (jar.name, jar.data) ∈ plugin.jars := hjars ▸ List.mem_map_of_mem hjar
    obtain ⟨hfile, hending⟩ := mem_jars_iff.1 hmem
    exact (hregular.readable _ _ hfile hending).1
  have hjarsIn : jarsIn shelf.files (join directory "lib") =
      jars.map fun jar => jarPath directory jar.name := by
    rw [hstand.jarsIn_eq hfiles hplace hregular.named hdistinct, ← hjars, List.map_map]
    rfl
  have hoccupied : jars ≠ [] ∨ shelf.files.isDirectory (join directory "classes") = true := by
    refine (hregular.occupied_of_jars hjars).imp_right ?_
    rintro ⟨names, data, hne, hmem, -⟩
    exact hstand.isDirectory_classes hfiles hplace (List.mem_map_of_mem hmem) hne
  rw [run_openDirectory hreader capacity hjarsIn hread hoccupied]
  subst hreader
  refine ⟨.ofMade shelf.nextId (makersOf shelf directory capacity jars), _, _, rfl, ?_⟩
  refine serves_assemble (fun archive id => .indexed id archive) ?_ (fun _ _ => rfl) hfiles ?_
    (fun source hsource => grounded_of_mem_classesIn? hsource jars)
    (hstand.hasClass_iff hfiles hplace capacity) ?_
  · intro jar
    change jar.content.keys.any isPluginDescriptor = _
    rw [ArchiveReader.keys_of_contents jar.stores, List.any_map]
    rfl
  · have htruthful := truthful_ofMade hunused directory capacity jars
    rwa [length_makersOf, ← Nat.add_assoc] at htruthful
  · intro i jar hjar
    have hid := ofMade_jar hjar shelf directory capacity
    refine ⟨rfl, rfl, .indexed hid, fun later hsame htruthful => ?_⟩
    have hmem := mem_split_iff.1 (List.mem_of_getElem? hjar)
    exact presents_indexed jar.opens jar.stores (hread jar hmem) hsame htruthful hid

/-- A plugin in an archive serves its files. -/
theorem serves_openZip {inventory : Inventory} {files : FileTree} {bytes : List UInt8}
    {entries : List (String × List UInt8)} (hreader : files.reader = reader)
    (hsame : shelf.files = files) (htruthful : shelf.Truthful inventory) (hfiles : files.WellFormed)
    (hregular : plugin.Regular files directory) (hread : files.read archive = .ok bytes)
    (hstores : reader.Stores bytes entries) (hpacked : plugin.PackedIn top entries)
    (hslash : ∀ file ∈ plugin, ∀ name ∈ file.1, '/' ∉ name.toList) :
    ∃ (zipped : PluginClasspath) (after : Shelf),
      (openZip archive).run.run shelf = (.ok zipped, after) ∧
        after.files = files ∧ after.Truthful inventory ∧
        zipped.classes.Serves inventory files (some (archive ++ "!/classes"))
          (nestedJar archive top) plugin.HasClass (ownJars jars) ∧
        zipped.libraries.Serves inventory files none (nestedJar archive top) (fun _ => False)
          (bundledJars jars) := by
  subst hsame
  have hordered : sortBy (fun first second => decide (first.1 ≤ second.1))
      ((entries.filter fun entry => isNestedJar entry.1).map fun entry =>
        (archive ++ "!/" ++ entry.1, entry.2)) =
      jars.map fun jar => (nestedJar archive top jar.name, jar.data) := by
    rw [hpacked.sortBy_nested hslash archive hdistinct, ← hjars, List.map_map]
    rfl
  have hoccupied : jars ≠ [] ∨ classEntries entries ≠ [] := by
    refine (hregular.occupied_of_jars hjars).imp_right ?_
    rintro ⟨names, data, hne, hmem, hending⟩
    exact List.ne_nil_of_mem (hpacked.mem_classEntries hslash hne hmem hending)
  rw [run_openZip hreader hread hstores hordered hoccupied]
  refine ⟨_, _, rfl, serves_assemble (fun archive id => .read id archive) (fun _ => rfl)
    (fun _ _ => rfl) hfiles (htruthful.renumber (by dsimp only; omega)) ?_ ?_ ?_⟩
  · intro source hsource
    rw [Option.mem_toList, classesAmong?] at hsource
    obtain ⟨-, hsource⟩ := Option.ite_none_left_eq_some.1 hsource
    cases hsource
    exact ⟨rfl, rfl, .read _ _⟩
  · exact hpacked.hasClass_iff_listed hslash shelf archive
  · exact fun i jar _ => ⟨rfl, rfl, .read _ _, fun later _ _ => presents_read _ _ jar.entries later⟩

end Halves

/-- The files of a plugin have a class, be it below `classes` or in a jar. -/
def Offers (reader : ArchiveReader) (plugin : PluginFiles) (name : ClassName) : Prop :=
  plugin.HasClass name ∨ ∃ jar ∈ plugin.jars, ∃ entries, reader.Stores jar.2 entries ∧
    ∃ entry ∈ entries, ClassName.ofEntryPath? entry.1 = some name

end PluginFiles

namespace PluginLayout

variable {directory jar other : String}

theorem jarPath_inj (hdirectory : directory ≠ "") (hjar : '/' ∉ jar.toList)
    (hother : '/' ∉ other.toList) (h : jarPath directory jar = jarPath directory other) :
    jar = other := by
  obtain ⟨start, hstart⟩ := exists_join_eq (join_ne_empty hdirectory (by decide : '/' ∉ "lib".toList))
  rw [jarPath, jarPath, hstart jar hjar, hstart other hother] at h
  exact (String.append_right_inj _).1 h

theorem jarPath_ne_classes (hdirectory : directory ≠ "") (hjar : '/' ∉ jar.toList) :
    jarPath directory jar ≠ join directory "classes" := by
  have hlib := join_ne_empty hdirectory (by decide : '/' ∉ "lib".toList)
  obtain ⟨start, hstart⟩ := exists_join_eq hdirectory
  obtain ⟨rest, hrest, -⟩ := exists_join_eq_append hlib hjar
  rw [jarPath, hrest, hstart _ (by decide), hstart _ (by decide), String.append_assoc, ne_eq,
    String.append_right_inj]
  intro hsame
  have hchars := congrArg String.toList hsame
  rw [String.toList_append] at hchars
  exact absurd (List.cons.inj hchars).1 (by decide)

theorem nestedJar_ne_classes {archive top : String} :
    PluginFiles.nestedJar archive top jar ≠ archive ++ "!/classes" := by
  intro hsame
  have hclasses : "!/classes" = "!/" ++ "classes" := rfl
  rw [PluginFiles.nestedJar, hclasses] at hsame
  simp only [String.append_assoc, String.append_right_inj] at hsame
  have hslash : '/' ∈ (top ++ ("/lib/" ++ jar)).toList := by simp
  rw [hsame] at hslash
  exact absurd hslash (by decide)

end PluginLayout

namespace PluginFiles

open ClassSource PluginLayout

variable {reader : ArchiveReader} {plugin : PluginFiles} {directory archive top : String}
  {shelf : Shelf}

/-- Two sources have the same classes, one from a directory and one from an archive of a plugin. Classes that
are not in class files, if there are any, are in jars of the plugin, each in the same jar, and the same is found
of them. -/
structure SameClasses (plugin : PluginFiles) (directory archive top : String)
    (classFiles packedClassFiles : Option String) (shelf : Shelf) (plain zipped : ClassSource) :
    Prop where
  names : ∀ name, name ∈ (plain.names.run shelf).1 ↔ name ∈ (zipped.names.run shelf).1
  plainOwner : ∀ name moniker, plain.OwnedBy shelf name moniker → some moniker = classFiles ∨
    ∃ jar, ["lib", jar] ∈ plugin.map Prod.fst ∧ moniker = jarPath directory jar
  zippedOwner : ∀ name moniker, zipped.OwnedBy shelf name moniker → some moniker = packedClassFiles ∨
    ∃ jar, ["lib", jar] ∈ plugin.map Prod.fst ∧ moniker = nestedJar archive top jar
  owner : ∀ name jar, ["lib", jar] ∈ plugin.map Prod.fst →
    (plain.OwnedBy shelf name (jarPath directory jar) ↔
      zipped.OwnedBy shelf name (nestedJar archive top jar))
  found : ∀ name jar, ["lib", jar] ∈ plugin.map Prod.fst →
    plain.OwnedBy shelf name (jarPath directory jar) →
      ((plain.find name).run shelf).1 = ((zipped.find name).run shelf).1

/-- Sources that serve the same class files and jars have the same classes. -/
theorem sameClasses_of_serves {inventory : Inventory} {files : FileTree}
    {isFront : ClassName → Prop} {jars : List (StoredJar reader)} {classFiles packedClassFiles : Option String}
    {plain zipped : ClassSource} (hsame : shelf.files = files) (htruthful : shelf.Truthful inventory)
    (hplain : plain.Serves inventory files classFiles (jarPath directory) isFront jars)
    (hzipped : zipped.Serves inventory files packedClassFiles (nestedJar archive top) isFront jars)
    (hjars : ∀ jar ∈ jars, ["lib", jar.name] ∈ plugin.map Prod.fst)
    (hslash : ∀ jar, ["lib", jar] ∈ plugin.map Prod.fst → '/' ∉ jar.toList)
    (hdirectory : directory ≠ "")
    (hclassFiles : classFiles = none ∨ classFiles = some (join directory "classes"))
    (hpackedClassFiles :
      packedClassFiles = none ∨ packedClassFiles = some (archive ++ "!/classes")) :
    plugin.SameClasses directory archive top classFiles packedClassFiles shelf plain zipped := by
  have hplainOwner : ∀ name jar, ["lib", jar] ∈ plugin.map Prod.fst →
      (plain.OwnedBy shelf name (jarPath directory jar) ↔ ∃ found, ¬isFront name ∧
        StoredJar.first? jars name = some found ∧ found.name = jar) := by
    intro name jar hjar
    refine hplain.ownedBy_iff hsame htruthful ?_ fun other hother =>
      jarPath_inj hdirectory (hslash _ (hjars other hother)) (hslash jar hjar)
    obtain rfl | rfl := hclassFiles
    · exact Option.some_ne_none _
    · exact fun heq => jarPath_ne_classes hdirectory (hslash jar hjar) (Option.some.inj heq)
  have hzippedOwner : ∀ name jar,
      (zipped.OwnedBy shelf name (nestedJar archive top jar) ↔ ∃ found, ¬isFront name ∧
        StoredJar.first? jars name = some found ∧ found.name = jar) := by
    intro name jar
    refine hzipped.ownedBy_iff hsame htruthful ?_ fun other _ heq => nestedJar_injective heq
    obtain rfl | rfl := hpackedClassFiles
    · exact Option.some_ne_none _
    · exact fun heq => nestedJar_ne_classes (Option.some.inj heq)
  constructor
  · intro name
    rw [hplain.mem_names_iff hsame htruthful, hzipped.mem_names_iff hsame htruthful]
  · rintro name moniker ⟨owner, hlocated, rfl⟩
    refine (hplain.located hlocated).imp_right ?_
    rintro ⟨jar, -, hfirst, hcalled⟩
    exact ⟨jar.name, hjars jar (List.mem_of_find?_eq_some hfirst), hcalled⟩
  · rintro name moniker ⟨owner, hlocated, rfl⟩
    refine (hzipped.located hlocated).imp_right ?_
    rintro ⟨jar, -, hfirst, hcalled⟩
    exact ⟨jar.name, hjars jar (List.mem_of_find?_eq_some hfirst), hcalled⟩
  · intro name jar hjar
    rw [hplainOwner name jar hjar, hzippedOwner]
  · intro name jar hjar howned
    obtain ⟨found, hnot, hfirst, -⟩ := (hplainOwner name jar hjar).1 howned
    rw [(hplain.held hsame htruthful hnot hfirst).2, (hzipped.held hsame htruthful hnot hfirst).2]

/-- The classes that are served are those that the files offer. -/
theorem offers_iff {jars : List (StoredJar reader)}
    (hjars : jars.map (fun jar => (jar.name, jar.data)) = plugin.jars) (name : ClassName) :
    plugin.Offers reader name ↔ plugin.HasClass name ∨ ∃ jar ∈ jars, name ∈ jar.classNames := by
  have hmem : ∀ {jar : StoredJar reader}, name ∈ jar.classNames ↔
      ∃ entry ∈ jar.entries, ClassName.ofEntryPath? entry.1 = some name := List.mem_filterMap
  refine or_congr_right ?_
  rw [← hjars]
  simp only [List.mem_map, exists_exists_and_eq_and, hmem]
  refine exists_congr fun jar => and_congr_right fun _ => ?_
  have hstores : reader.Stores jar.data jar.entries := ⟨jar.content, jar.opens, jar.stores⟩
  constructor
  · rintro ⟨entries, hentries, hentry⟩
    obtain rfl := Except.ok.inj
      ((ArchiveReader.stores_iff.1 hentries).symm.trans (ArchiveReader.stores_iff.1 hstores))
    exact hentry
  · exact fun hentry => ⟨jar.entries, hstores, hentry⟩

/-- The two halves together list what the files offer. -/
theorem mem_halves_iff {inventory : Inventory} {files : FileTree} {jars : List (StoredJar reader)}
    {classFiles : Option String} {label : String → String} {classes libraries : ClassSource}
    (hjars : jars.map (fun jar => (jar.name, jar.data)) = plugin.jars)
    (hsame : shelf.files = files) (htruthful : shelf.Truthful inventory)
    (hclasses : classes.Serves inventory files classFiles label plugin.HasClass (ownJars jars))
    (hlibraries : libraries.Serves inventory files none label (fun _ => False) (bundledJars jars))
    (name : ClassName) :
    (name ∈ (classes.names.run shelf).1 ∨ name ∈ (libraries.names.run shelf).1) ↔
      plugin.Offers reader name := by
  rw [hclasses.mem_names_iff hsame htruthful, hlibraries.mem_names_iff hsame htruthful,
    offers_iff hjars, false_or, or_assoc, ← exists_or]
  refine or_congr_right (exists_congr fun jar => ?_)
  rw [← or_and_right, ← List.mem_append, mem_split_iff]

end PluginFiles

theorem PluginClasspath.run_open_of_directoryAt {shelf : Shelf} {directory : String}
    {place : List String} (h : shelf.files.directoryAt directory = .ok (.inside place))
    (capacity : Nat) :
    (PluginClasspath.open directory capacity).run.run shelf =
      (PluginLayout.openDirectory directory capacity).run.run shelf := by
  rw [PluginClasspath.open, ClassSource.run_get_bind,
    if_pos (FileTree.isDirectory_of_directoryAt h)]

theorem PluginClasspath.run_open_of_read {shelf : Shelf} {archive : String} {bytes : List UInt8}
    (h : shelf.files.read archive = .ok bytes) (hextension : hasExtension archive "zip" = true)
    (capacity : Nat) :
    (PluginClasspath.open archive capacity).run.run shelf =
      (PluginLayout.openZip archive).run.run shelf := by
  obtain ⟨number, hnode, -⟩ := IndexedArchive.exists_file_of_read h
  have hfile : ¬shelf.files.isDirectory archive = true := by
    simp [FileTree.isDirectory, hnode, Node.isDirectory]
  rw [PluginClasspath.open, ClassSource.run_get_bind, if_neg hfile, if_pos hextension]

open ClassSource PluginLayout in
/-- A plugin has the same classes in a directory and packed into an archive, below whatever directory and in
whatever order: its own classes and its libraries have the same names, all of them those that the files offer,
and what is in a jar is in the same jar and found alike. This holds whatever has been asked before, and by
whatever reader archives are read. -/
theorem PluginClasspath.sameClasses_open (shelf : Shelf) (directory archive top : String)
    (capacity : Nat) (plugin : PluginFiles) (bytes : List UInt8)
    (entries : List (String × List UInt8)) (hunused : shelf.Unused)
    (hfiles : shelf.files.WellFormed) (hstand : plugin.StandIn shelf.files directory)
    (hregular : plugin.Regular shelf.files directory)
    (hextension : hasExtension archive "zip" = true)
    (hread : shelf.files.read archive = .ok bytes)
    (hstores : shelf.files.reader.Stores bytes entries) (hpacked : plugin.PackedIn top entries) :
    ∃ plain zipped : PluginClasspath,
      let opened := (PluginClasspath.open directory capacity).run.run shelf
      let reopened := (PluginClasspath.open archive capacity).run.run opened.2
      opened.1 = .ok plain ∧ reopened.1 = .ok zipped ∧
        ∀ calls : List (ClassSource × SourceCall),
          (∀ call ∈ calls, call.1 ∈
            [plain.classes, plain.libraries, zipped.classes, zipped.libraries]) →
          let asked := (calls.forM fun call => call.2.perform call.1).run reopened.2
          plugin.SameClasses directory archive top (some (join directory "classes"))
              (some (archive ++ "!/classes")) asked.2 plain.classes zipped.classes ∧
            plugin.SameClasses directory archive top none none asked.2 plain.libraries
              zipped.libraries ∧
            ∀ name, (name ∈ (plain.classes.names.run asked.2).1 ∨
              name ∈ (plain.libraries.names.run asked.2).1) ↔
                plugin.Offers shelf.files.reader name := by
  obtain ⟨place, hplace⟩ := hregular.exists_place hstand
  have hname : ∀ names ∈ plugin.map Prod.fst, ∀ name ∈ names, '/' ∉ name.toList :=
    fun names hnames name hname => (hstand.isName hfiles hplace hnames name hname).2.2.1
  have hslash : ∀ file ∈ plugin, ∀ name ∈ file.1, '/' ∉ name.toList :=
    fun file hfile => hname file.1 (List.mem_map_of_mem hfile)
  have hdirectory : directory ≠ "" :=
    (FileTree.resolve_eq_ok_iff.1 (FileTree.directoryAt_eq_ok_iff.1 hplace).1).2.2.1
  obtain ⟨jars, hjars⟩ := hregular.exists_storedJars
  have hlibrary : ∀ jar ∈ ownJars jars ++ bundledJars jars,
      ["lib", jar.name] ∈ plugin.map Prod.fst := by
    intro jar hjar
    have hmem : (jar.name, jar.data) ∈ plugin.jars :=
      hjars ▸ List.mem_map_of_mem (mem_split_iff.1 hjar)
    exact List.mem_map_of_mem (PluginFiles.mem_jars_iff.1 hmem).1
  have hdistinct := hpacked.nodup hstores.nodup
  obtain ⟨inventory, plain, after, hplain, hsame, htruthful, hplainClasses, hplainLibraries⟩ :=
    PluginFiles.serves_openDirectory hjars hdistinct rfl hunused hfiles hstand hregular capacity
  obtain ⟨zipped, last, hzipped, hstill, htruthful, hzippedClasses, hzippedLibraries⟩ :=
    PluginFiles.serves_openZip hjars hdistinct rfl hsame htruthful hfiles hregular hread hstores hpacked
      hslash
  have hopened : (PluginClasspath.open directory capacity).run.run shelf = (.ok plain, after) :=
    (run_open_of_directoryAt hplace capacity).trans hplain
  have hreopened : (PluginClasspath.open archive capacity).run.run after = (.ok zipped, last) :=
    (run_open_of_read (hsame ▸ hread) hextension capacity).trans hzipped
  refine ⟨plain, zipped, ?_⟩
  dsimp only
  rw [hopened]
  dsimp only
  rw [hreopened]
  refine ⟨rfl, rfl, fun calls hcalls => ?_⟩
  have hgrounded : ∀ source ∈ [plain.classes, plain.libraries, zipped.classes, zipped.libraries],
      source.Grounded inventory last.files := by
    rw [hstill]
    simp [hplainClasses.grounded, hplainLibraries.grounded, hzippedClasses.grounded,
      hzippedLibraries.grounded]
  have hkeeps := SourceCall.keeps_performAll calls
    (fun call hcall => hgrounded call.1 (hcalls call hcall)) htruthful
  have hasked := hkeeps.files.trans hstill
  have hjarSlash : ∀ jar, ["lib", jar] ∈ plugin.map Prod.fst → '/' ∉ jar.toList :=
    fun jar hjar => hname _ hjar jar (by simp)
  refine ⟨PluginFiles.sameClasses_of_serves hasked hkeeps.truthful hplainClasses hzippedClasses
      (fun jar hjar => hlibrary jar (List.mem_append_left _ hjar)) hjarSlash hdirectory (.inr rfl)
      (.inr rfl),
    PluginFiles.sameClasses_of_serves hasked hkeeps.truthful hplainLibraries hzippedLibraries
      (fun jar hjar => hlibrary jar (List.mem_append_right _ hjar)) hjarSlash hdirectory (.inl rfl)
      (.inl rfl),
    PluginFiles.mem_halves_iff hjars hasked hkeeps.truthful hplainClasses hplainLibraries⟩

/-- The entries of a jar that describes a plugin. -/
def describedJar : List (String × List UInt8) :=
  [("META-INF/plugin.xml", []), ("x/X.class", [0xca])]

/-- The entries of a jar that has the same class. -/
def plainJar : List (String × List UInt8) :=
  [("x/X.class", []), ("y/Y.class", [1])]

/-- A plugin with these jars. A class file stands before a class of one of them, and there are jars where they do
not count. -/
def shadowedPlugin : PluginFiles :=
  [(["classes", "lib", "z.jar"], []), (["classes", "y", "Y.class"], []),
    (["lib", "a.jar"], Archive.pack plainJar), (["lib", "b.jar"], Archive.pack describedJar),
    (["lib", "lib", "c.jar"], [])]

/-- The files in another order, with an entry for their directory. -/
def shadowedEntries : List (String × List UInt8) :=
  ("T/", []) :: (shadowedPlugin.map (PluginFiles.packed "T")).reverse

/-- A shelf with the plugin in a directory and in an archive. -/
def shadowedShelf : Shelf :=
  .blank (.ofEntries
    (("p.zip", Archive.pack shadowedEntries) :: shadowedPlugin.map (PluginFiles.packed "p")))

theorem shadowedPlugin_standIn : shadowedPlugin.StandIn shadowedShelf.files "p" where
  found := ⟨shadowedPlugin.map Prod.fst, by decide +kernel, .refl _⟩
  held := fun file hfile => by
    have hplace : shadowedShelf.files.directoryAt "p" = .ok (.inside ["p"]) := by decide +kernel
    have hnumbers : ∀ file ∈ shadowedPlugin, ∃ number ∈ List.range 6,
        shadowedShelf.files.nodes.get? (["p"] ++ file.1) = some (.file number) ∧
          shadowedShelf.files.bytes number = file.2 := by decide +kernel
    obtain ⟨number, -, hnode, hbytes⟩ := hnumbers file hfile
    exact ⟨["p"], number, hplace, hnode, hbytes⟩

set_option maxRecDepth 20000 in
theorem shadowedPlugin_regular : shadowedPlugin.Regular shadowedShelf.files "p" where
  named := fun name hname front extension hsplit hlower => by
    obtain rfl | rfl : name = "a" ++ ".jar" ∨ name = "b" ++ ".jar" := by
      simpa [shadowedPlugin] using hname
    · obtain ⟨rfl, rfl⟩ := eq_of_append_jar hsplit hlower
      exact ⟨by decide, rfl⟩
    · obtain ⟨rfl, rfl⟩ := eq_of_append_jar hsplit hlower
      exact ⟨by decide, rfl⟩
  readable := fun name data hmem _ => by
    obtain ⟨rfl, rfl⟩ | ⟨rfl, rfl⟩ : (name = "a.jar" ∧ data = Archive.pack plainJar) ∨
        (name = "b.jar" ∧ data = Archive.pack describedJar) := by
      simpa [shadowedPlugin] using hmem
    · exact ⟨by decide +kernel, plainJar, ArchiveReader.stores_iff.2 (by decide +kernel)⟩
    · exact ⟨by decide +kernel, describedJar, ArchiveReader.stores_iff.2 (by decide +kernel)⟩
  occupied := .inl ⟨"a.jar", _, .tail _ (.tail _ List.mem_cons_self), by decide⟩

theorem shadowedPlugin_packedIn : shadowedPlugin.PackedIn "T" shadowedEntries where
  slash := by decide
  lib := by decide
  classes := by decide
  perm := by
    have hfile : ∀ entry ∈ (shadowedPlugin.map (PluginFiles.packed "T")).reverse,
        entry.1.toList.getLast? ≠ some '/' := by decide +kernel
    rw [shadowedEntries, List.filter_cons_of_neg (by decide),
      List.filter_eq_self.2 fun entry hentry => decide_eq_true (hfile entry hentry)]
    exact List.reverse_perm _

set_option maxRecDepth 20000 in
/-- After a search, a listing and a close the two still have the same classes, also where a class file and a jar
have one of the same name. -/
theorem PluginClasspath.sameClasses_open_shadowed :
    shadowedShelf.Unused ∧ shadowedShelf.files.WellFormed ∧
      shadowedPlugin.StandIn shadowedShelf.files "p" ∧
      shadowedPlugin.Regular shadowedShelf.files "p" ∧ hasExtension "p.zip" "zip" = true ∧
      shadowedShelf.files.read "p.zip" = .ok (Archive.pack shadowedEntries) ∧
      ArchiveReader.zip.Stores (Archive.pack shadowedEntries) shadowedEntries ∧
      shadowedPlugin.PackedIn "T" shadowedEntries ∧
      ∃ plain zipped : PluginClasspath,
        let opened := (PluginClasspath.open "p" 1).run.run shadowedShelf
        let reopened := (PluginClasspath.open "p.zip" 1).run.run opened.2
        opened.1 = .ok plain ∧ reopened.1 = .ok zipped ∧
          let calls := [(plain.classes, SourceCall.find ⟨"x/X"⟩), (plain.libraries, .names),
            (plain.classes, .close)]
          let asked := (calls.forM fun call => call.2.perform call.1).run reopened.2
          shadowedPlugin.SameClasses "p" "p.zip" "T" (some "p/classes") (some "p.zip!/classes") asked.2
              plain.classes zipped.classes ∧
            shadowedPlugin.SameClasses "p" "p.zip" "T" none none asked.2 plain.libraries
              zipped.libraries ∧
            shadowedPlugin.Offers .zip ⟨"y/Y"⟩ ∧ (⟨"y/Y"⟩ ∈ (plain.classes.names.run asked.2).1 ∨
              ⟨"y/Y"⟩ ∈ (plain.libraries.names.run asked.2).1) := by
  have hunused : shadowedShelf.Unused := Shelf.unused_blank _
  have hfiles : shadowedShelf.files.WellFormed :=
    ⟨by decide +kernel, by decide +kernel, by decide +kernel⟩
  have hextension : hasExtension "p.zip" "zip" = true := by decide +kernel
  have hread : shadowedShelf.files.read "p.zip" = .ok (Archive.pack shadowedEntries) := by
    decide +kernel
  have hstores : ArchiveReader.zip.Stores (Archive.pack shadowedEntries) shadowedEntries :=
    ArchiveReader.stores_iff.2 (by decide +kernel)
  have hoffers : shadowedPlugin.Offers .zip ⟨"y/Y"⟩ :=
    .inl ⟨["y", "Y.class"], .tail _ List.mem_cons_self, by decide +kernel⟩
  obtain ⟨plain, zipped, hopened, hreopened, hsame⟩ := sameClasses_open shadowedShelf "p" "p.zip" "T" 1
    shadowedPlugin _ shadowedEntries hunused hfiles shadowedPlugin_standIn shadowedPlugin_regular
    hextension hread hstores shadowedPlugin_packedIn
  obtain ⟨hclasses, hlibraries, hnames⟩ := hsame [(plain.classes, .find ⟨"x/X"⟩),
    (plain.libraries, .names), (plain.classes, .close)] (by simp)
  exact ⟨hunused, hfiles, shadowedPlugin_standIn, shadowedPlugin_regular, hextension, hread, hstores,
    shadowedPlugin_packedIn, plain, zipped, hopened, hreopened, hclasses, hlibraries, hoffers,
    (hnames _).2 hoffers⟩

end LinkCheck
