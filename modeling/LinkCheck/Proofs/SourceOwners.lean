import LinkCheck.Proofs.SettledAnswers

/-!
# Who holds a class

Archives and directories that are laid one behind the other hold a class together if one of them lists it, and
the first that does holds it for all. This also goes for a single archive or directory, which stays what it is,
apart from classes that a directory has without listing them.

## Main definitions

- `ClassSource.holder?` — the first of some sources that lists a name
- `ClassSource.FirstOf` — a source whose classes are held by the first of some sources that lists them

## Main results

- `ClassSource.firstOf_unionOf` — laying archives and directories one behind the other gives such a source
-/

namespace LinkCheck

namespace ClassSource

/-- Whether a source is an archive. -/
def isArchive : ClassSource → Bool
  | read _ _ | indexed _ _ => true
  | _ => false

/-- Whether a source is an archive or a directory. -/
def isLeaf : ClassSource → Bool
  | read _ _ | indexed _ _ | directory _ _ => true
  | _ => false

theorem isLeaf_of_isArchive {source : ClassSource} (h : source.isArchive = true) :
    source.isLeaf = true := by
  cases source <;> trivial

/-- The first of some sources that lists a name. -/
def holder? (files : FileTree) (name : ClassName) (sources : List ClassSource) :
    Option ClassSource :=
  sources.find? fun source => name ∈ source.listed files

/-- A source whose classes are held by the first of some sources that lists them. Only an archive is sure to
list what it holds. -/
structure FirstOf (files : FileTree) (sources : List ClassSource) (source : ClassSource) : Prop where
  listed : ∀ name, name ∈ source.listed files ↔ ∃ part ∈ sources, name ∈ part.listed files
  located : ∀ {name : ClassName} {shelf : Shelf} {part : ClassSource},
    ((source.locate name).run shelf).1 = some part →
      part ∈ sources ∧ (part.isArchive = true → holder? files name sources = some part)
  held : ∀ {name : ClassName} {part : ClassSource}, holder? files name sources = some part →
    source.locate name = part.locate name ∧ source.find name = part.find name

variable {inventory : Inventory} {files : FileTree} {shelf : Shelf} {name : ClassName}
  {source part : ClassSource} {sources : List ClassSource}

-- ════════════════════════════════════════════════════════════════════════
-- Archives and directories
-- ════════════════════════════════════════════════════════════════════════

/-- An archive holds the names that it lists. -/
theorem locate_of_isArchive (h : source.isArchive = true) (files : FileTree) (name : ClassName)
    (shelf : Shelf) : ((source.locate name).run shelf).1 =
      if name ∈ source.listed files then some source else none := by
  cases source with
  | read id archive =>
    have hlisted : name ∈ (read id archive).listed files ↔ archive.classes.contains name = true :=
      Table.mem_keys_iff _ _
    simp only [hlisted]
    rfl
  | indexed id archive =>
    have hlisted : name ∈ (indexed id archive).listed files ↔ archive.entries.contains name = true :=
      Table.mem_keys_iff _ _
    simp only [hlisted]
    rfl
  | empty | directory | union | caching => cases h

/-- What an archive or a directory holds, it holds itself. -/
theorem eq_of_locate (h : source.isLeaf = true)
    (hlocated : ((source.locate name).run shelf).1 = some part) : part = source := by
  have hself : ∃ held : Prop, ∃ _ : Decidable held,
      ((source.locate name).run shelf).1 = if held then some source else none := by
    cases source with
    | read | indexed => exact ⟨_, inferInstance, locate_of_isArchive rfl shelf.files name shelf⟩
    | directory id classFiles =>
      exact ⟨((classFiles.contains id name).run shelf).1 = true, inferInstance, rfl⟩
    | empty | union | caching => cases h
  obtain ⟨held, _, hheld⟩ := hself
  rw [hheld, Option.ite_none_right_eq_some] at hlocated
  exact (Option.some.inj hlocated.2).symm

-- ════════════════════════════════════════════════════════════════════════
-- Sources laid one behind the other
-- ════════════════════════════════════════════════════════════════════════

theorem holder?_eq_some (h : holder? files name sources = some part) :
    part ∈ sources ∧ name ∈ part.listed files :=
  ⟨List.mem_of_find?_eq_some h, by simpa using List.find?_some h⟩

theorem holder?_append (files : FileTree) (name : ClassName) (front behind : List ClassSource) :
    holder? files name (front ++ behind) =
      (holder? files name front).or (holder? files name behind) :=
  List.find?_append

theorem holder?_eq_none_iff :
    holder? files name sources = none ↔ ¬∃ part ∈ sources, name ∈ part.listed files := by
  rw [holder?, List.find?_eq_none]
  simp

/-- The names that sources are given go to the holder. -/
theorem owner?_shareNames_named (files : FileTree) (name : ClassName) (sources : List ClassSource) :
    owner? name (shareNames [] (named files sources)) = holder? files name sources := by
  rw [owner?_shareNames, if_neg List.not_mem_nil]
  induction sources with
  | nil => rfl
  | cons source sources ih =>
    rw [named, List.map_cons, owner?_cons, holder?, List.find?_cons]
    by_cases hname : name ∈ source.listed files
    · simp only [hname, if_true, decide_true]
    · simp only [hname, if_false, decide_false]
      exact ih

/-- Sources without names may be left out. -/
theorem holder?_filter {keep : ClassSource → Bool}
    (h : ∀ source ∈ sources, keep source = false → source.listed files = []) :
    holder? files name (sources.filter keep) = holder? files name sources := by
  unfold holder?
  induction sources with
  | nil => rfl
  | cons source sources ih =>
    have hrest := ih fun other hother => h other (.tail _ hother)
    cases hkeep : keep source with
    | true => rw [List.filter_cons_of_pos hkeep, List.find?_cons, List.find?_cons, hrest]
    | false =>
      have hnot : name ∉ source.listed files := by
        rw [h source List.mem_cons_self hkeep]
        exact List.not_mem_nil
      rw [List.filter_cons_of_neg (by simp [hkeep]), List.find?_cons_of_neg (by simpa using hnot), hrest]

namespace FirstOf

theorem nothing (id : Nat) (h : ∀ name, holder? files name sources = none) :
    FirstOf files sources (empty id) where
  listed := fun name => iff_of_false List.not_mem_nil (holder?_eq_none_iff.1 (h name))
  located := fun hlocated => by cases hlocated
  held := fun hheld => by
    rw [h] at hheld
    cases hheld

/-- A single source stays what it is. -/
theorem single (hleaf : source.isLeaf = true) (hmem : source ∈ sources)
    (h : ∀ name, holder? files name sources = holder? files name [source]) :
    FirstOf files sources source where
  listed := fun name => by
    refine ⟨fun hname => ⟨source, hmem, hname⟩, ?_⟩
    rintro ⟨part, hpart, hname⟩
    by_contra hnot
    have hnone : holder? files name sources = none := by
      rw [h, holder?, List.find?_singleton, if_neg (by simpa using hnot)]
    exact holder?_eq_none_iff.1 hnone ⟨part, hpart, hname⟩
  located := fun {name shelf part} hlocated => by
    obtain rfl := eq_of_locate hleaf hlocated
    refine ⟨hmem, fun harchive => ?_⟩
    rw [locate_of_isArchive harchive files] at hlocated
    rw [h, holder?, List.find?_singleton,
      if_pos (by simpa using (Option.ite_none_right_eq_some.1 hlocated).1)]
  held := fun {name part} hheld => by
    rw [h] at hheld
    obtain rfl := List.mem_singleton.1 (holder?_eq_some hheld).1
    exact ⟨rfl, rfl⟩

/-- A union gives each name to its holder. -/
theorem union {kept : List ClassSource} (id : Nat) (moniker : String)
    (hleaves : ∀ part ∈ sources, part.isLeaf = true)
    (h : ∀ name, holder? files name sources = holder? files name kept) :
    FirstOf files sources (.union id moniker (shareNames [] (named files kept))) where
  listed := fun name => by
    have howner : name ∈ (ClassSource.union id moniker (shareNames [] (named files kept))).listed
        files ↔ ¬holder? files name sources = none := by
      rw [h, ← owner?_shareNames_named, owner?_eq_none_iff, Decidable.not_not]
      rfl
    rw [howner, holder?_eq_none_iff, Decidable.not_not]
  located := fun {name shelf part} hlocated => by
    change ((locateOwned name _).run shelf).1 = some part at hlocated
    rw [locateOwned_eq, owner?_shareNames_named, ← h] at hlocated
    cases hholder : holder? files name sources with
    | none =>
      rw [hholder] at hlocated
      cases hlocated
    | some child =>
      rw [hholder] at hlocated
      have hchild := (holder?_eq_some hholder).1
      obtain rfl := eq_of_locate (hleaves child hchild) hlocated
      exact ⟨hchild, fun _ => rfl⟩
  held := fun {name part} hheld => by
    have howner : owner? name (shareNames [] (named files kept)) = some part := by
      rw [owner?_shareNames_named, ← h, hheld]
    constructor
    · change locateOwned name _ = _
      rw [locateOwned_eq, howner]
      rfl
    · change findOwned name _ = _
      rw [findOwned_eq, howner]
      rfl

end FirstOf

/-- Laying archives and directories one behind the other gives a source whose classes are held by the first of
them that lists the name. -/
theorem firstOf_unionOf (hfiles : shelf.files.WellFormed) (htruthful : shelf.Truthful inventory)
    (h : ∀ source ∈ sources, source.Grounded inventory shelf.files)
    (hleaves : ∀ source ∈ sources, source.isLeaf = true) :
    FirstOf shelf.files sources ((unionOf sources).run shelf).1 := by
  have hkept : ∀ name, holder? shelf.files name sources =
      holder? shelf.files name (filled shelf sources) := by
    refine fun name => (holder?_filter fun source hsource hempty => ?_).symm
    exact (h source hsource).listed_eq_nil htruthful hfiles (by simpa using hempty)
  have hmem : ∀ source ∈ filled shelf sources, source ∈ sources :=
    fun source hsource => List.mem_of_mem_filter hsource
  obtain ⟨hnone, hrun⟩ | ⟨source, hsingle, hrun⟩ | hrun := run_unionOf sources shelf
  · rw [hrun]
    rw [hnone] at hkept
    exact .nothing _ hkept
  · rw [hrun]
    rw [hsingle] at hkept hmem
    have hsource := hmem source (List.mem_singleton_self source)
    exact .single (hleaves source hsource) hsource hkept
  · obtain ⟨after, hnamed, -⟩ := mapM_withNames
      (fun source hsource => h source (hmem source hsource)) shelf rfl htruthful
    rw [hnamed] at hrun
    rw [hrun]
    exact .union _ _ hleaves hkept

end ClassSource

end LinkCheck
