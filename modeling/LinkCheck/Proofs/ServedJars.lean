import LinkCheck.Proofs.SourceOwners
import LinkCheck.Proofs.StoredArchives

/-!
# Jars behind class files

A plugin lays its jars behind its class files. It then has the classes of both, and each class that is not among
the class files is in the first jar that has it. What a jar is called and whether it is read on demand or at once
makes no difference to that.

## Main definitions

- `StoredJar` — a jar that can be read
- `ClassSource.Stands` — a source is a jar
- `ClassSource.Serves` — a source has the classes of class files and of jars
- `ClassSource.OwnedBy` — a class is located in what is called so
- `ClassSource.made`, `Inventory.ofMade` — sources that are made one after the other

## Main results

- `ClassSource.serves_unionOf` — jars that are laid behind class files serve the classes of both
- `ClassSource.Serves.ownedBy_iff` — the jar that owns a class
-/

namespace LinkCheck

/-- A jar whose bytes are an archive that can be read. -/
structure StoredJar (reader : ArchiveReader) where
  name : String
  data : List UInt8
  content : Archive
  entries : List (String × List UInt8)
  opens : reader.index data = .ok content
  stores : reader.contents content data = .ok entries

namespace StoredJar

variable {reader : ArchiveReader}

/-- The classes in a jar. -/
def classNames (jar : StoredJar reader) : List ClassName :=
  jar.entries.filterMap fun entry => ClassName.ofEntryPath? entry.1

/-- Whether a jar describes a plugin. -/
def hasDescriptor (jar : StoredJar reader) : Bool :=
  jar.entries.any fun entry => isPluginDescriptor entry.1

/-- What is found of a class in a jar. -/
def answer (jar : StoredJar reader) (name : ClassName) : FindResult :=
  ((entryFor? jar.entries name).map fun entry => some <$> define name entry.2).getD (.ok none)

/-- The first of some jars with a class. -/
def first? (jars : List (StoredJar reader)) (name : ClassName) : Option (StoredJar reader) :=
  jars.find? fun jar => name ∈ jar.classNames

end StoredJar

-- ════════════════════════════════════════════════════════════════════════
-- Jars as sources
-- ════════════════════════════════════════════════════════════════════════

namespace ClassSource

variable {reader : ArchiveReader}

/-- A source is a jar, under what the jar is called. -/
structure Stands (inventory : Inventory) (files : FileTree) (label : String → String)
    (jar : StoredJar reader) (source : ClassSource) : Prop where
  archive : source.isArchive = true
  moniker : source.moniker = label jar.name
  grounded : source.Grounded inventory files
  presents : ∀ shelf : Shelf, shelf.files = files → shelf.Truthful inventory →
    source.Presents jar.entries shelf

/-- A source has the classes of some class files at a place, and behind them those of some jars, each class of
the first jar that has it. -/
structure Serves (inventory : Inventory) (files : FileTree) (place : Option String)
    (label : String → String) (isFront : ClassName → Prop) (jars : List (StoredJar reader))
    (source : ClassSource) : Prop where
  grounded : source.Grounded inventory files
  listed : ∀ name, name ∈ source.listed files ↔ isFront name ∨ ∃ jar ∈ jars, name ∈ jar.classNames
  located : ∀ {shelf : Shelf} {name : ClassName} {owner : ClassSource},
    ((source.locate name).run shelf).1 = some owner → some owner.moniker = place ∨
      ∃ jar, ¬isFront name ∧ StoredJar.first? jars name = some jar ∧ owner.moniker = label jar.name
  held : ∀ {shelf : Shelf} {name : ClassName} {jar : StoredJar reader}, shelf.files = files →
    shelf.Truthful inventory → ¬isFront name → StoredJar.first? jars name = some jar →
      (∃ owner, ((source.locate name).run shelf).1 = some owner ∧ owner.moniker = label jar.name) ∧
        ((source.find name).run shelf).1 = jar.answer name

variable {inventory : Inventory} {files : FileTree} {shelf : Shelf} {label : String → String}
  {name : ClassName}

theorem Stands.mem_listed_iff {jar : StoredJar reader} {source : ClassSource}
    (h : source.Stands inventory shelf.files label jar) (htruthful : shelf.Truthful inventory) :
    name ∈ source.listed shelf.files ↔ name ∈ jar.classNames := by
  rw [← (h.grounded.names htruthful).1, (h.presents shelf rfl htruthful).names, List.mem_eraseDups]
  rfl

/-- Looking into jars and into their sources comes to corresponding ends. -/
theorem holder?_of_stands {jars : List (StoredJar reader)} {sources : List ClassSource}
    (h : List.Forall₂ (Stands inventory shelf.files label) jars sources)
    (htruthful : shelf.Truthful inventory) (name : ClassName) :
    (StoredJar.first? jars name = none ∧ holder? shelf.files name sources = none) ∨
      ∃ jar source, StoredJar.first? jars name = some jar ∧
        holder? shelf.files name sources = some source ∧
        source.Stands inventory shelf.files label jar := by
  induction h with
  | nil => exact .inl ⟨rfl, rfl⟩
  | @cons jar source jars sources hstands _ ih =>
    have hlisted : name ∈ source.listed shelf.files ↔ name ∈ jar.classNames :=
      hstands.mem_listed_iff htruthful
    rw [StoredJar.first?, holder?, List.find?_cons, List.find?_cons]
    by_cases hname : name ∈ jar.classNames
    · simp only [hlisted, hname, decide_true]
      exact .inr ⟨jar, source, rfl, rfl, hstands⟩
    · simp only [hlisted, hname, decide_false]
      exact ih

theorem exists_mem_listed_iff {jars : List (StoredJar reader)} {sources : List ClassSource}
    (h : List.Forall₂ (Stands inventory shelf.files label) jars sources)
    (htruthful : shelf.Truthful inventory) :
    (∃ source ∈ sources, name ∈ source.listed shelf.files) ↔
      ∃ jar ∈ jars, name ∈ jar.classNames := by
  constructor
  · rintro ⟨source, hsource, hname⟩
    obtain ⟨jar, hjar, hstands⟩ := exists_of_forall₂ h.flip hsource
    exact ⟨jar, hjar, (hstands.mem_listed_iff htruthful).1 hname⟩
  · rintro ⟨jar, hjar, hname⟩
    obtain ⟨source, hsource, hstands⟩ := exists_of_forall₂ h hjar
    exact ⟨source, hsource, (hstands.mem_listed_iff htruthful).2 hname⟩

section Serving

variable {place : Option String} {isFront : ClassName → Prop} {jars : List (StoredJar reader)}
  {front sources : List ClassSource}

/-- Jars that are laid behind class files serve the classes of both. -/
theorem serves_unionOf (hsame : shelf.files = files) (htruthful : shelf.Truthful inventory)
    (hfiles : files.WellFormed)
    (hfront : ∀ source ∈ front, source.isLeaf = true ∧ some source.moniker = place ∧
      source.Grounded inventory files)
    (hnames : ∀ name, isFront name ↔ ∃ source ∈ front, name ∈ source.listed files)
    (hjars : List.Forall₂ (Stands inventory files label) jars sources) :
    Serves inventory files place label isFront jars ((unionOf (front ++ sources)).run shelf).1 ∧
      shelf.Keeps inventory ((unionOf (front ++ sources)).run shelf).2 := by
  subst hsame
  have hstands : ∀ source ∈ sources, ∃ jar ∈ jars, source.Stands inventory shelf.files label jar :=
    fun source hsource => exists_of_forall₂ hjars.flip hsource
  have hgrounded : ∀ source ∈ front ++ sources, source.Grounded inventory shelf.files := by
    intro source hsource
    rcases List.mem_append.1 hsource with hsource | hsource
    · exact (hfront source hsource).2.2
    · obtain ⟨jar, -, hjar⟩ := hstands source hsource
      exact hjar.grounded
  have hleaves : ∀ source ∈ front ++ sources, source.isLeaf = true := by
    intro source hsource
    rcases List.mem_append.1 hsource with hsource | hsource
    · exact (hfront source hsource).1
    · obtain ⟨jar, -, hjar⟩ := hstands source hsource
      exact isLeaf_of_isArchive hjar.archive
  have hfirst := firstOf_unionOf hfiles htruthful hgrounded hleaves
  have hnone : ∀ {name}, holder? shelf.files name front = none ↔ ¬isFront name := by
    intro name
    rw [holder?_eq_none_iff, hnames]
  obtain ⟨hmade, -, hkeeps⟩ := layers_unionOf htruthful hgrounded
  refine ⟨⟨hmade, fun name => ?_, ?_, ?_⟩, hkeeps⟩
  · rw [hfirst.listed, hnames, ← exists_mem_listed_iff hjars htruthful]
    simp only [List.mem_append, or_and_right, exists_or]
  · intro shelf' name owner hlocated
    obtain ⟨hmem, hheld⟩ := hfirst.located hlocated
    rcases List.mem_append.1 hmem with hsource | hsource
    · exact .inl (hfront owner hsource).2.1
    obtain ⟨jar, -, hjar⟩ := hstands owner hsource
    have hholder := hheld hjar.archive
    rw [holder?_append] at hholder
    cases hbefore : holder? shelf.files name front with
    | some other =>
      rw [hbefore, Option.some_or] at hholder
      cases hholder
      exact .inl (hfront owner (holder?_eq_some hbefore).1).2.1
    | none =>
      rw [hbefore, Option.none_or] at hholder
      obtain ⟨-, hnothing⟩ | ⟨other, source, hother, hsame, hstand⟩ :=
        holder?_of_stands hjars htruthful name
      · cases hholder.symm.trans hnothing
      obtain rfl := Option.some.inj (hholder.symm.trans hsame)
      exact .inr ⟨other, hnone.1 hbefore, hother, hstand.moniker⟩
  · intro shelf' name jar hsame htruthful' hnot hjar
    obtain ⟨hnothing, -⟩ | ⟨other, source, hother, hholder, hstand⟩ :=
      holder?_of_stands hjars htruthful name
    · cases hjar.symm.trans hnothing
    obtain rfl := Option.some.inj (hjar.symm.trans hother)
    have hboth : holder? shelf.files name (front ++ sources) = some source := by
      rw [holder?_append, hnone.2 hnot, Option.none_or, hholder]
    obtain ⟨hlocate, hfind⟩ := hfirst.held hboth
    rw [hlocate, hfind]
    refine ⟨⟨source, ?_, hstand.moniker⟩, (hstand.presents shelf' hsame htruthful').find name⟩
    rw [locate_of_isArchive hstand.archive shelf.files, if_pos (holder?_eq_some hholder).2]

/-- Jars serve their classes. -/
theorem serves_unionOf_jars (hsame : shelf.files = files) (htruthful : shelf.Truthful inventory)
    (hfiles : files.WellFormed)
    (hjars : List.Forall₂ (Stands inventory files label) jars sources) :
    Serves inventory files none label (fun _ => False) jars ((unionOf sources).run shelf).1 ∧
      shelf.Keeps inventory ((unionOf sources).run shelf).2 :=
  serves_unionOf hsame htruthful hfiles (List.forall_mem_nil _) (by simp) hjars

end Serving

/-- A class is located in what is called so. -/
def OwnedBy (source : ClassSource) (shelf : Shelf) (name : ClassName) (moniker : String) : Prop :=
  ∃ owner, ((source.locate name).run shelf).1 = some owner ∧ owner.moniker = moniker

namespace Serves

variable {inventory : Inventory} {files : FileTree} {place : Option String} {label : String → String}
  {isFront : ClassName → Prop} {jars : List (StoredJar reader)} {source : ClassSource} {shelf : Shelf}
  {name : ClassName} (h : source.Serves inventory files place label isFront jars)
  (hsame : shelf.files = files) (htruthful : shelf.Truthful inventory)
include h hsame htruthful

theorem mem_names_iff : name ∈ (source.names.run shelf).1 ↔
    isFront name ∨ ∃ jar ∈ jars, name ∈ jar.classNames := by
  subst hsame
  rw [(h.grounded.names htruthful).1, h.listed]

/-- A jar owns the classes of which it is the first. -/
theorem ownedBy_iff {jar : String} (hplace : some (label jar) ≠ place)
    (hlabel : ∀ other ∈ jars, label other.name = label jar → other.name = jar) :
    source.OwnedBy shelf name (label jar) ↔
      ∃ found, ¬isFront name ∧ StoredJar.first? jars name = some found ∧ found.name = jar := by
  constructor
  · rintro ⟨owner, hlocated, hmoniker⟩
    obtain hfront | ⟨found, hnot, hfound, hcalled⟩ := h.located hlocated
    · exact absurd (hmoniker ▸ hfront) hplace
    · exact ⟨found, hnot, hfound,
        hlabel found (List.mem_of_find?_eq_some hfound) (hcalled.symm.trans hmoniker)⟩
  · rintro ⟨found, hnot, hfound, rfl⟩
    exact (h.held hsame htruthful hnot hfound).1

end Serves

-- ════════════════════════════════════════════════════════════════════════
-- Sources made one after the other
-- ════════════════════════════════════════════════════════════════════════

/-- Sources that are made one after the other get numbers one after the other. -/
def made (start : Nat) : List (Nat → ClassSource) → List ClassSource
  | [] => []
  | maker :: makers => maker start :: made (start + 1) makers

theorem run_mapM_made {α : Type} {toSource : α → Shelved ClassSource} {make : α → Nat → ClassSource}
    (h : ∀ archive (shelf : Shelf), (toSource archive).run shelf =
      (make archive shelf.nextId, { shelf with nextId := shelf.nextId + 1 }))
    (archives : List α) (shelf : Shelf) : (archives.mapM toSource).run shelf =
      (made shelf.nextId (archives.map make),
        { shelf with nextId := shelf.nextId + archives.length }) := by
  induction archives generalizing shelf with
  | nil => rfl
  | cons archive archives ih =>
    rw [List.mapM_cons, Shelved.run_bind, h, Shelved.run_bind, ih, Shelved.run_pure, List.length_cons,
      Nat.add_right_comm]
    rfl

theorem forall₂_stands_made {make : StoredJar reader → Nat → ClassSource} {jars : List (StoredJar reader)}
    {start : Nat} (h : ∀ i jar, jars[i]? = some jar →
      (make jar (start + i)).Stands inventory files label jar) :
    List.Forall₂ (Stands inventory files label) jars (made start (jars.map make)) := by
  induction jars generalizing start with
  | nil => exact .nil
  | cons jar jars ih =>
    refine .cons (h 0 jar rfl) (ih fun i other hother => ?_)
    rw [Nat.add_right_comm]
    exact h (i + 1) other hother

end ClassSource

/-- Sources that are made one after the other, under their numbers. -/
def Inventory.ofMade (start : Nat) (makers : List (Nat → ClassSource)) : Inventory :=
  fun id => if start ≤ id then makers[id - start]?.map (· id) else none

theorem Inventory.ofMade_add {start i : Nat} {makers : List (Nat → ClassSource)}
    {maker : Nat → ClassSource} (h : makers[i]? = some maker) :
    ofMade start makers (start + i) = some (maker (start + i)) := by
  rw [ofMade, if_pos (Nat.le_add_right _ _), Nat.add_sub_cancel_left, h]
  rfl

theorem Inventory.bounds_of_ofMade {start id : Nat} {makers : List (Nat → ClassSource)}
    {source : ClassSource} (h : ofMade start makers id = some source) :
    start ≤ id ∧ id < start + makers.length := by
  obtain ⟨hstart, hmaker⟩ := Option.ite_none_right_eq_some.1 h
  obtain ⟨maker, hmaker, -⟩ := Option.map_eq_some_iff.1 hmaker
  obtain ⟨hlength, -⟩ := List.getElem?_eq_some_iff.1 hmaker
  omega

/-- What is remembered stays right when more numbers are given out. -/
theorem Shelf.Truthful.renumber {shelf : Shelf} {inventory : Inventory} {nextId : Nat}
    (h : shelf.Truthful inventory) (hnext : shelf.nextId ≤ nextId) :
    ({ shelf with nextId } : Shelf).Truthful inventory where
  archive := h.archive
  directory := h.directory
  memo := h.memo
  numbered := fun hid => Nat.lt_of_lt_of_le (h.numbered hid) hnext
  unused := fun hid => h.unused (Nat.le_trans hnext hid)

end LinkCheck
