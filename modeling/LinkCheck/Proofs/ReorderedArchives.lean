import LinkCheck.Proofs.ClasswiseChecks
import LinkCheck.Proofs.PlainClasses
import LinkCheck.Proofs.ShownArchives
import LinkCheck.Proofs.StoredArchives
import LinkCheck.Proofs.ThreadedChecks
import LinkCheck.Proofs.WrittenClassFiles

/-!
# Archives in another order

Where no two entries of an archive stand for the same class, the order of the entries only shows in the
order in which the archive lists its classes. A check sorts the classes of a plugin and sees of the classpath
only what is found, so the same is found whatever the order of the entries is.

## Main definitions

- `ClassSource.Fixed` — a source that is made of archives that have been read
- `LooseArchive` — an archive that is at hand, entry by entry
- `LooseArchive.Reordered` — the same entries in another order
- `LooseArchive.checkTogether` — a check of a plugin against a union of archives that are at hand

## Main results

- `ClassSource.Fixed.run_verifyAgainst` — a check of sources that remember nothing
- `LooseArchive.run_checkTogether` — such a check depends on nothing but the archives
- `LooseArchive.checkTogether_reordered` — the order of entries does not matter
-/

namespace LinkCheck

namespace ClassSource

/-- A source that is made of archives that have been read, so that nothing is put down when it is
asked. -/
inductive Fixed : ClassSource → Prop
  | empty (id : Nat) : Fixed (empty id)
  | read (id : Nat) (archive : ReadArchive) : Fixed (read id archive)
  | union (id : Nat) (moniker : String) {children : List (List ClassName × ClassSource)}
      (h : ∀ part ∈ children, Fixed part.2) : Fixed (union id moniker children)

/-- A source that remembers nothing gives the answer that it always gives. -/
theorem Fixed.find_eq {source : ClassSource} (h : source.Fixed) (files : FileTree)
    (name : ClassName) : source.find name = pure (source.answer files name) := by
  induction h with
  | empty id => rfl
  | read id archive => rfl
  | @union id moniker children _ ih =>
    have hfind : (ClassSource.union id moniker children).find name = findOwned name children := rfl
    rw [answer, hfind, findOwned_eq]
    cases howner : owner? name children with
    | none => rfl
    | some child =>
      obtain ⟨part, hpart, rfl, _⟩ := exists_of_owner? howner
      exact ih part hpart

theorem Fixed.names_eq {source : ClassSource} (h : source.Fixed) (files : FileTree) :
    source.names = pure (source.listed files) := by
  cases h <;> rfl

/-- A check of sources that remember nothing leaves the shelf as it is, and finds what they hold. -/
theorem Fixed.run_verifyAgainst {plugin effective : ClassSource} (hplugin : plugin.Fixed)
    (heffective : effective.Fixed) (options : Options) (shelf : Shelf) :
    ((plugin.verifyAgainst effective options).run shelf).1 =
      verify (plugin.view shelf.files) (effective.view shelf.files) options := by
  have hfind : ∀ {source : ClassSource}, source.Fixed → ∀ name,
      (source.find name).run shelf = (source.answer shelf.files name, shelf) := by
    intro source hsource name
    rw [hsource.find_eq shelf.files, Shelved.run_pure]
  have hnames : ∀ {source : ClassSource}, source.Fixed →
      source.names.run shelf = (source.listed shelf.files, shelf) := by
    intro source hsource
    rw [hsource.names_eq shelf.files, Shelved.run_pure]
  have hlinking : Linking (· = shelf) (· = shelf) plugin effective :=
    { plugin := fun _ hnow name => by rw [hnow, hfind hplugin]
      names := fun _ hnow => by rw [hnow, hnames heffective]
      find := fun _ hnow name => by rw [hnow, hfind heffective]
      leave := fun _ hnow => hnow }
  refine hlinking.run_verifyAgainst ?_ options ?_ ?_
  · exact
      { plugin := fun _ hnow name _ => by rw [hnow, hfind hplugin]; rfl
        names := fun _ hnow => by rw [hnow, hnames heffective]; rfl
        find := fun _ hnow name _ => by rw [hnow, hfind heffective]; rfl }
  · rw [hnames hplugin]
    rfl
  · rw [hnames hplugin]

theorem map_snd_mapM_withNames (sources : List ClassSource) (shelf : Shelf) :
    ((sources.mapM withNames).run shelf).1.map Prod.snd = sources := by
  induction sources generalizing shelf with
  | nil => rfl
  | cons source sources ih =>
    rw [List.mapM_cons, Shelved.run_bind, Shelved.run_bind]
    exact congrArg (source :: ·) (ih _)

/-- A union of sources that remember nothing remembers nothing. -/
theorem fixed_unionOf {sources : List ClassSource} (h : ∀ source ∈ sources, source.Fixed)
    (shelf : Shelf) : ((unionOf sources).run shelf).1.Fixed := by
  have hfilled : ∀ source ∈ filled shelf sources, source.Fixed :=
    fun source hsource => h source (List.mem_of_mem_filter hsource)
  obtain ⟨_, hrun⟩ | ⟨source, hsingle, hrun⟩ | hrun := run_unionOf sources shelf
  · rw [hrun]
    exact .empty _
  · rw [hrun]
    exact hfilled source (hsingle ▸ List.mem_singleton_self source)
  · rw [hrun]
    refine .union _ _ fun part hpart => ?_
    obtain ⟨names, hnamed, _⟩ := exists_of_mem_shareNames hpart
    have hsource := List.mem_map_of_mem (f := Prod.snd) hnamed
    rw [map_snd_mapM_withNames] at hsource
    exact hfilled part.2 hsource

variable {leaves others : List Leaf}

theorem shows_unionOf_leaves (h : ∀ leaf ∈ leaves, leaf.names.Nodup) (shelf : Shelf) :
    Shows leaves ((unionOf (leaves.map Leaf.source)).run shelf).1 := by
  have hparts : ∀ part ∈ leaves.map fun leaf => (leaf.source, [leaf]), Shows part.2 part.1 := by
    intro part hpart
    obtain ⟨leaf, hleaf, rfl⟩ := List.mem_map.1 hpart
    exact .read_archive (h leaf hleaf)
  have hshows := shows_unionOf hparts shelf
  rw [List.map_map, List.flatMap_map] at hshows
  rwa [List.flatMap_singleton' leaves] at hshows

theorem fixed_unionOf_leaves (leaves : List Leaf) (shelf : Shelf) :
    ((unionOf (leaves.map Leaf.source)).run shelf).1.Fixed := by
  refine fixed_unionOf (fun source hsource => ?_) shelf
  obtain ⟨leaf, _, rfl⟩ := List.mem_map.1 hsource
  exact .read _ _

/-- A source of archives finds in the first archive with a name. -/
theorem find_view_of_shows {source : ClassSource} (h : Shows leaves source) (files : FileTree)
    (name : ClassName) : (source.view files).find name = Leaf.answer leaves name := by
  rw [find_view, told?, h.listed, h.answer]
  split
  · rfl
  · next hname => exact (Leaf.answer_eq_none_iff.2 hname).symm

end ClassSource

/-- A check sees the names of a plugin in their own order, whatever the order of the plugin is. -/
theorem verify_alike_of_perm {plugin other first second : Classpath} (options : Options)
    (hnames : plugin.names.Perm other.names) (hplugin : plugin.Alike other)
    (h : first.Alike second) : verify plugin first options = verify other second options := by
  have hexposed : verify plugin first options = verify (plugin.exposing other.names) first options := by
    rw [verify_exposing, ← sorted_eq_of_perm hnames]
    rfl
  rw [hexposed]
  refine verify_alike options rfl (fun name => ?_) h
  by_cases hname : name ∈ other.names
  · exact (if_pos hname).trans (hplugin name)
  · exact (if_neg hname).trans (if_neg hname).symm

/-- Archives that find the same, one by one, answer alike when they stand one behind the other. -/
theorem Leaf.answer_congr {leaves others : List Leaf} {name : ClassName}
    (h : List.Forall₂ (fun leaf other => leaf.archive.find name = other.archive.find name)
      leaves others) : answer leaves name = answer others name := by
  have hcons : ∀ (leaf : Leaf) (leaves : List Leaf), answer (leaf :: leaves) name =
      if leaf.archive.find name = .ok none then answer leaves name
      else leaf.archive.find name := by
    intro leaf leaves
    have hname : name ∈ leaf.names ↔ leaf.archive.find name ≠ .ok none :=
      ((ClassSource.Coherent.read_archive {} leaf.id leaf.archive).find_iff name).symm
    by_cases hnone : leaf.archive.find name = .ok none
    · rw [if_pos hnone, answer, first?, List.find?_cons_of_neg (by simp [hname, hnone])]
      rfl
    · rw [if_neg hnone, answer, first?, List.find?_cons_of_pos (by simp [hname, hnone])]
      rfl
  induction h with
  | nil => rfl
  | cons hfind _ ih => rw [hcons, hcons, hfind, ih]

/-- The class names that some entries stand for. -/
def entryNames (entries : List (String × List UInt8)) : List ClassName :=
  entries.filterMap fun entry => ClassName.ofEntryPath? entry.1

/-- Where no two entries stand for the same class, the entry for a class does not depend on the order. -/
theorem entryFor?_eq_of_perm {entries others : List (String × List UInt8)}
    (hperm : entries.Perm others) (h : (entryNames entries).Nodup) (name : ClassName) :
    entryFor? entries name = entryFor? others name := by
  unfold entryFor?
  induction hperm with
  | nil => rfl
  | cons entry _ ih =>
    have hrest : (entryNames _).Nodup := h.sublist ((List.sublist_cons_self entry _).filterMap _)
    rw [List.find?_cons, List.find?_cons, ih hrest]
  | swap first second entries =>
    -- Only if both stood for the class could it matter which comes first.
    have hnot : ¬ (ClassName.ofEntryPath? first.1 = some name ∧
        ClassName.ofEntryPath? second.1 = some name) := by
      rintro ⟨hfirst, hsecond⟩
      simp [entryNames, hfirst, hsecond] at h
    by_cases hfirst : ClassName.ofEntryPath? first.1 = some name
    · have hsecond : ClassName.ofEntryPath? second.1 ≠ some name := fun hsame => hnot ⟨hfirst, hsame⟩
      simp [hfirst, hsecond]
    · simp [List.find?_cons, hfirst]
  | trans hfirst _ ih ih' =>
    exact (ih h).trans (ih' ((hfirst.filterMap _).nodup_iff.1 h))

/-- An archive that is at hand: what it is called, and its entries. -/
structure LooseArchive where
  moniker : String
  entries : List (String × List UInt8)

namespace LooseArchive

/-- The archive as it is read. -/
def read (archive : LooseArchive) : ReadArchive :=
  .ofEntries archive.moniker archive.entries

/-- A source of the classes in the archive. -/
def source (archive : LooseArchive) : Shelved ClassSource :=
  ClassSource.inMemory archive.moniker archive.entries

/-- The same entries in another order, where no two stand for the same class. -/
structure Reordered (archive other : LooseArchive) : Prop where
  perm : archive.entries.Perm other.entries
  distinct : (entryNames archive.entries).Nodup

variable {archive other : LooseArchive}

theorem keys_read (archive : LooseArchive) :
    archive.read.classes.keys = (entryNames archive.entries).eraseDups :=
  (ClassSource.presents_read 0 archive.moniker archive.entries {}).names

theorem find_read (archive : LooseArchive) (name : ClassName) : archive.read.find name =
    ((entryFor? archive.entries name).map fun entry => some <$> define name entry.2).getD (.ok none) :=
  (ClassSource.presents_read 0 archive.moniker archive.entries {}).find name

theorem Reordered.find_eq (h : archive.Reordered other) (name : ClassName) :
    archive.read.find name = other.read.find name := by
  rw [find_read, find_read, entryFor?_eq_of_perm h.perm h.distinct]

theorem Reordered.perm_keys (h : archive.Reordered other) :
    archive.read.classes.keys.Perm other.read.classes.keys := by
  have hnames : (entryNames archive.entries).Perm (entryNames other.entries) := h.perm.filterMap _
  rw [keys_read, keys_read, eraseDups_of_nodup h.distinct,
    eraseDups_of_nodup (hnames.nodup_iff.1 h.distinct)]
  exact hnames

/-- Archives in another order answer alike when they stand one behind the other. -/
theorem find_stacked_reordered {archives others : List LooseArchive}
    (h : List.Forall₂ Reordered archives others) (name : ClassName) :
    Leaf.answer (archives.map fun archive => ⟨0, archive.read⟩) name =
      Leaf.answer (others.map fun archive => ⟨0, archive.read⟩) name := by
  refine Leaf.answer_congr ?_
  rw [List.forall₂_map_left_iff, List.forall₂_map_right_iff]
  exact h.imp fun archive other hreordered => hreordered.find_eq name

/-- Checks a plugin against a union in which it stands among other archives. -/
def checkTogether (before : List LooseArchive) (plugin : LooseArchive) (after : List LooseArchive)
    (options : Options) : Shelved ProblemSet := do
  let earlier ← before.mapM source
  let classes ← plugin.source
  let later ← after.mapM source
  let whole ← ClassSource.unionOf (earlier ++ classes :: later)
  classes.verifyAgainst whole options

/-- The classpath of a single archive. -/
def view (archive : LooseArchive) : Classpath where
  names := archive.read.classes.keys
  lookup := archive.read.find

/-- The classpath of archives that stand one behind the other. -/
def stacked (archives : List LooseArchive) : Classpath where
  names := Leaf.distinctNames (archives.map fun archive => ⟨0, archive.read⟩)
  lookup := Leaf.answer (archives.map fun archive => ⟨0, archive.read⟩)

theorem find_stacked (archives : List LooseArchive) (name : ClassName) :
    (stacked archives).find name =
      Leaf.answer (archives.map fun archive => ⟨0, archive.read⟩) name := by
  rw [Classpath.find]
  split
  · rfl
  · next hname => exact (Leaf.answer_eq_none_iff.2 hname).symm

theorem nodup_names {leaves : List Leaf} {archives : List LooseArchive}
    (h : List.Forall₂ (fun leaf archive => leaf.archive = archive.read) leaves archives) :
    ∀ leaf ∈ leaves, leaf.names.Nodup := by
  induction h with
  | nil => exact fun _ hleaf => nomatch hleaf
  | cons hread _ ih =>
    intro leaf hleaf
    rcases List.mem_cons.1 hleaf with rfl | hleaf
    · rw [Leaf.names, hread]
      exact Table.nodup_keys_ofListNew _
    · exact ih leaf hleaf

/-- Archives that are read one after the other become leaves. -/
theorem run_mapM_source (archives : List LooseArchive) (shelf : Shelf) : ∃ leaves after,
    (archives.mapM source).run shelf = (leaves.map Leaf.source, after) ∧
      List.Forall₂ (fun leaf archive => leaf.archive = archive.read) leaves archives := by
  induction archives generalizing shelf with
  | nil => exact ⟨[], shelf, rfl, .nil⟩
  | cons archive archives ih =>
    obtain ⟨leaves, after, hrun, hleaves⟩ := ih { shelf with nextId := shelf.nextId + 1 }
    refine ⟨⟨shelf.nextId, archive.read⟩ :: leaves, after, ?_, .cons rfl hleaves⟩
    have hfirst : archive.source.run shelf = ((⟨shelf.nextId, archive.read⟩ : Leaf).source,
        { shelf with nextId := shelf.nextId + 1 }) := rfl
    rw [List.mapM_cons, Shelved.run_bind, hfirst, Shelved.run_bind, hrun]
    rfl

/-- A check of archives that are at hand depends on nothing but these archives. -/
theorem run_checkTogether (before : List LooseArchive) (plugin : LooseArchive)
    (after : List LooseArchive) (options : Options) (shelf : Shelf) :
    ((checkTogether before plugin after options).run shelf).1 =
      verify plugin.view (stacked (before ++ plugin :: after)) options := by
  obtain ⟨earlier, shelf₁, hearlier, hbefore⟩ := run_mapM_source before shelf
  obtain ⟨leaf, shelf₂, hleaf, hplugin⟩ : ∃ (leaf : Leaf) (shelf₂ : Shelf),
      leaf.archive = plugin.read ∧ plugin.source.run shelf₁ = (leaf.source, shelf₂) :=
    ⟨⟨shelf₁.nextId, plugin.read⟩, _, rfl, rfl⟩
  obtain ⟨later, shelf₃, hlater, hafter⟩ := run_mapM_source after shelf₂
  have hleaves : List.Forall₂ (fun leaf archive => leaf.archive = archive.read)
      (earlier ++ leaf :: later) (before ++ plugin :: after) :=
    List.rel_append hbefore (.cons hleaf hafter)
  simp only [checkTogether, Shelved.run_bind, hearlier, hplugin, hlater]
  rw [← List.map_cons, ← List.map_append]
  have hshows := ClassSource.shows_unionOf_leaves (nodup_names hleaves) shelf₃
  have hfixed := ClassSource.fixed_unionOf_leaves (earlier ++ leaf :: later) shelf₃
  have hclasses : ∀ files, leaf.source.view files = plugin.view := by
    intro files
    rw [view, ← hleaf]
    rfl
  have hleafFixed : leaf.source.Fixed := .read _ _
  rw [hleafFixed.run_verifyAgainst hfixed, hclasses]
  refine verify_alike options rfl (fun _ => rfl) fun name => ?_
  rw [ClassSource.find_view_of_shows hshows, find_stacked]
  refine Leaf.answer_congr (List.forall₂_map_right_iff.2 ?_)
  exact hleaves.imp fun leaf archive hread => by rw [hread]

/-- The order of entries does not matter. Where no two entries of an archive stand for the same class, the
entries of the plugin and of each other archive may stand in any order: the same problems are found at the
same places, in the same order. -/
theorem checkTogether_reordered {plugin plugin' : LooseArchive}
    {before before' after after' : List LooseArchive} (hplugin : plugin.Reordered plugin')
    (hbefore : List.Forall₂ Reordered before before')
    (hafter : List.Forall₂ Reordered after after') (options : Options) (shelf shelf' : Shelf) :
    ((checkTogether before plugin after options).run shelf).1 =
      ((checkTogether before' plugin' after' options).run shelf').1 := by
  rw [run_checkTogether, run_checkTogether]
  refine verify_alike_of_perm options hplugin.perm_keys (fun name => ?_) (fun name => ?_)
  · have hmem : name ∈ plugin.view.names ↔ name ∈ plugin'.view.names :=
      hplugin.perm_keys.mem_iff
    simp only [Classpath.find, hmem]
    exact congrArg (ite _ · _) (hplugin.find_eq name)
  · rw [find_stacked, find_stacked]
    exact find_stacked_reordered (List.rel_append hbefore (.cons hplugin hafter)) name

/-- A plugin of a class that extends one of a library, a class that cannot be read, and a class that extends
what may not be extended, with an entry between them that stands for no class. -/
def scatteredPlugin : LooseArchive where
  moniker := "plugin"
  entries := [("p/Next.class", (ClassFile.plain "p/Next" "q/Sealed").write),
    ("p/Broken.class", [0xCA, 0xFE]), ("readme", [1]),
    ("p/Main.class", (ClassFile.plain "p/Main" "q/Base").write)]

def scatteredLibrary : LooseArchive where
  moniker := "library"
  entries := [("q/Sealed.class", (ClassFile.sealed "q/Sealed" "q/Base").write),
    ("q/Base.class", (ClassFile.plain "q/Base" "java/lang/Object").write)]

/-- A runtime library in which the superclass of the first class may not be extended either. -/
def scatteredRuntime : LooseArchive where
  moniker := "runtime"
  entries := [("q/Base.class", (ClassFile.sealed "q/Base" "java/lang/Object").write),
    ("java/lang/Object.class", ClassFile.root.write)]

/-- The entries of an archive from back to front. -/
def backwards (archive : LooseArchive) : LooseArchive :=
  { archive with entries := archive.entries.reverse }

set_option maxRecDepth 20000 in
/-- Superclasses are found in the library and the runtime library, and the first of two with one name counts.
Both problems are reported in the order of the names of the classes, whichever entry comes first. -/
theorem checkTogether_reordered_scattered :
    scatteredPlugin.Reordered scatteredPlugin.backwards ∧
      scatteredLibrary.Reordered scatteredLibrary.backwards ∧
      scatteredRuntime.Reordered scatteredRuntime.backwards ∧
      ((checkTogether [scatteredLibrary] scatteredPlugin [scatteredRuntime] {}).run {}).1 =
        ((checkTogether [scatteredLibrary.backwards] scatteredPlugin.backwards
          [scatteredRuntime.backwards] {}).run {}).1 ∧
      ((checkTogether [scatteredLibrary] scatteredPlugin [scatteredRuntime] {}).run {}).1.problems =
        [.failedToReadClass ⟨"p/Broken"⟩ "malformed class file: Tag at offset 0",
          .inheritFromFinalClass ⟨"p/Next"⟩ ⟨"q/Sealed"⟩] := by
  have hplugin : scatteredPlugin.Reordered scatteredPlugin.backwards :=
    ⟨by decide +kernel, by decide +kernel⟩
  have hlibrary : scatteredLibrary.Reordered scatteredLibrary.backwards :=
    ⟨by decide +kernel, by decide +kernel⟩
  have hruntime : scatteredRuntime.Reordered scatteredRuntime.backwards :=
    ⟨by decide +kernel, by decide +kernel⟩
  refine ⟨hplugin, hlibrary, hruntime, ?_, ?_⟩
  · exact checkTogether_reordered hplugin (.cons hlibrary .nil) (.cons hruntime .nil) {} {} {}
  · rw [run_checkTogether]
    decide +kernel

end LooseArchive

end LinkCheck
