import LinkCheck.PluginLayout
import LinkCheck.Proofs.DirectoryWalks
import LinkCheck.Proofs.SortedNames
import LinkCheck.Proofs.StoredArchives
import Mathlib.Data.List.TakeWhile

/-!
# The files of a plugin

A plugin consists of files, which may stand in a directory or be packed into an archive below a directory of any
name. Both ways the same files are found: the jars directly in `lib`, in the same order, and the class files below
`classes`.

## Main definitions

- `PluginFiles` — files by the names that lead to them
- `PluginFiles.jars` — the jars directly in `lib`, sorted by name
- `PluginFiles.HasClass` — a file below `classes` stands for a class
- `PluginFiles.PackedIn`, `PluginFiles.StandIn` — files in an archive, and in a directory

## Main results

- `PluginFiles.PackedIn.sortBy_nested`, `PluginFiles.PackedIn.hasClass_iff` — jars and class files that are
  found among the entries of an archive
- `PluginFiles.StandIn.jarsIn_eq`, `PluginFiles.StandIn.mem_walk_iff` — those that are found in a directory
-/

namespace LinkCheck

open LinkCheck.Path

namespace Path

variable {name extension : String}

theorem fileName?_of_isName (h : IsName name) : fileName? name = some name := by
  rw [fileName?, names, segments_of_not_mem h.2.2.1, List.filter_cons_of_pos h.1]
  simp [h.2.1]

/-- A name with an extension has it behind a dot. -/
theorem exists_of_hasExtension (h : IsName name) (hextension : hasExtension name extension = true) :
    ∃ front found, name = front ++ "." ++ found ∧ found.toLower = extension := by
  rw [hasExtension, extension?, fileName?_of_isName h, Option.bind_some, splitName] at hextension
  split at hextension
  · cases hextension
  · next hfront =>
    refine ⟨String.ofList ((name.toList.reverse.dropWhile (· ≠ '.')).drop 1).reverse,
      String.ofList (name.toList.reverse.takeWhile (· ≠ '.')).reverse, ?_, by simpa using hextension⟩
    obtain ⟨dot, rest, hrest⟩ := List.exists_cons_of_ne_nil
      (l := name.toList.reverse.dropWhile (· ≠ '.')) (by
        intro hnil
        rw [hnil] at hfront
        exact hfront rfl)
    have hdot : dot = '.' := by
      have hhead := List.head?_dropWhile_not (fun c : Char => decide (c ≠ '.')) name.toList.reverse
      rw [hrest] at hhead
      simpa using hhead
    apply String.toList_injective
    have hwhole := congrArg List.reverse
      (List.takeWhile_append_dropWhile (p := (· ≠ '.')) (l := name.toList.reverse))
    rw [hrest, hdot] at hwhole
    rw [hrest]
    simpa using hwhole.symm

theorem splitName_jar {stem : String} (hstem : stem ≠ "") :
    (splitName (stem ++ ".jar")).2 = some "jar" := by
  have hchars : (stem ++ ".jar").toList.reverse = ['r', 'a', 'j', '.'] ++ stem.toList.reverse := by
    rw [String.toList_append, List.reverse_append]
    rfl
  have hne : stem.toList ≠ [] := mt String.toList_eq_nil_iff.1 hstem
  rw [splitName, hchars]
  simp [hne]

theorem hasExtension_jar {stem : String} (h : IsName (stem ++ ".jar")) (hstem : stem ≠ "") :
    hasExtension (stem ++ ".jar") "jar" = true := by
  rw [hasExtension, extension?, fileName?_of_isName h, Option.bind_some, splitName_jar hstem]
  decide +kernel

/-- A name that ends with the extension can be taken apart in no other way. -/
theorem eq_of_append_jar {stem front : String} (h : stem ++ ".jar" = front ++ "." ++ extension)
    (hlower : extension.toLower = "jar") : front = stem ∧ extension = "jar" := by
  have hlength : extension.toList.length = "jar".toList.length := by
    have hlower : (extension.map Char.toLower).length = "jar".length :=
      congrArg String.length hlower
    rwa [String.length_map] at hlower
  have hchars : (stem.toList ++ ['.']) ++ "jar".toList =
      (front.toList ++ ['.']) ++ extension.toList := by
    simpa using congrArg String.toList h
  obtain ⟨hfront, hextension⟩ := List.append_inj' hchars hlength.symm
  exact ⟨String.toList_injective (List.append_cancel_right hfront).symm,
    String.toList_injective hextension.symm⟩

/-- Paths below one directory differ only in the name behind a common start. -/
theorem exists_join_eq {base : String} (hbase : base ≠ "") :
    ∃ start, ∀ name : String, '/' ∉ name.toList → join base name = start ++ name := by
  have hempty : base.isEmpty = false := by simpa using hbase
  by_cases hslash : base.toList.getLast? = some '/'
  · refine ⟨base, fun name hname => ?_⟩
    simp [join, isAbsolute_of_not_mem hname, hempty, hslash]
  · refine ⟨base ++ "/", fun name hname => ?_⟩
    simp [join, isAbsolute_of_not_mem hname, hempty, hslash]

theorem isPrefixOf?_slash_iff {marker path rest : String} (h : '/' ∉ marker.toList) :
    (marker ++ "/").toList.isPrefixOf? path.toList = some rest.toList ↔
      segments path = marker :: segments rest := by
  rw [List.isPrefixOf?_eq_some_iff_append_eq, ← String.toList_append, String.toList_inj]
  constructor
  · rintro rfl
    rw [segments_append_slash, segments_of_not_mem h]
    rfl
  · intro hsegments
    rw [← intercalate_segments path, hsegments,
      String.intercalate_cons_of_ne_nil (segments_ne_nil rest), intercalate_segments]

end Path

namespace PluginLayout

section Entries

variable {marker top entry rest : String} {names : List String}

/-- An entry one directory deep is below a directory if that comes first in it. -/
theorem below?_eq_some_iff (hmarker : '/' ∉ marker.toList) (htop : '/' ∉ top.toList)
    (hother : top ≠ marker) (hslash : ∀ name ∈ names, '/' ∉ name.toList) :
    below? marker ("/".intercalate (top :: names)) = some rest ↔ names = marker :: segments rest := by
  have hsegments : segments ("/".intercalate (top :: names)) = top :: names :=
    segments_intercalate (List.cons_ne_nil _ _) (List.forall_mem_cons.2 ⟨htop, hslash⟩)
  have hroot : (marker ++ "/").toList.isPrefixOf? ("/".intercalate (top :: names)).toList = none := by
    by_contra hsome
    obtain ⟨chars, hchars⟩ := Option.ne_none_iff_exists'.1 hsome
    rw [← String.toList_ofList (l := chars), isPrefixOf?_slash_iff hmarker, hsegments] at hchars
    exact hother (List.cons.inj hchars).1
  have hpassed : ∀ c ∈ top.toList, decide (c ≠ '/') = true := fun c hc =>
    decide_eq_true fun hsame => htop (hsame ▸ hc)
  rw [below?, hroot]
  dsimp only
  rw [Option.map_eq_some_iff]
  by_cases hnames : names = []
  · -- Nothing follows the first directory.
    rw [hnames, String.intercalate_singleton, List.dropWhile_eq_nil_iff.2 hpassed]
    simp
  have hdeeper : (("/".intercalate (top :: names)).toList.dropWhile (· ≠ '/')).drop 1 =
      ("/".intercalate names).toList := by
    rw [String.intercalate_cons_of_ne_nil hnames, String.append_assoc, String.toList_append,
      List.dropWhile_append_of_pos hpassed, String.toList_append]
    rfl
  have hbody : segments ("/".intercalate names) = names := segments_intercalate hnames hslash
  rw [hdeeper]
  constructor
  · rintro ⟨chars, hchars, rfl⟩
    rw [← String.toList_ofList (l := chars), isPrefixOf?_slash_iff hmarker, hbody] at hchars
    exact hchars
  · intro hsame
    refine ⟨rest.toList, (isPrefixOf?_slash_iff hmarker).2 ?_, String.ofList_toList⟩
    rw [hbody, hsame]

theorem suffix_of_below? (h : below? marker entry = some rest) : rest.toList <:+ entry.toList := by
  unfold below? at h
  dsimp only at h
  split at h
  · next chars hchars =>
    cases h
    rw [List.isPrefixOf?_eq_some_iff_append_eq] at hchars
    rw [String.toList_ofList]
    exact ⟨_, hchars⟩
  · obtain ⟨chars, hchars, rfl⟩ := Option.map_eq_some_iff.1 h
    rw [List.isPrefixOf?_eq_some_iff_append_eq] at hchars
    rw [String.toList_ofList]
    exact (List.IsSuffix.trans ⟨_, hchars⟩ (List.drop_suffix _ _)).trans (List.dropWhile_suffix _)

theorem isNestedJar_iff : isNestedJar entry = true ↔
    ∃ rest, below? "lib" entry = some rest ∧ '/' ∉ rest.toList ∧ ".jar".toList <:+ rest.toList := by
  rw [isNestedJar, Option.any_eq_true]
  refine exists_congr fun rest => and_congr_right fun _ => ?_
  rw [Bool.and_eq_true, decide_eq_true_iff, List.isSuffixOf_iff_suffix]

theorem classFile?_eq_some_iff : classFile? entry = some rest ↔
    below? "classes" entry = some rest ∧ ".class".toList <:+ rest.toList := by
  rw [classFile?, Option.filter_eq_some_iff, List.isSuffixOf_iff_suffix]

/-- Entries of directories are not read. -/
theorem not_slash_of_isRead (h : isRead entry = true) : entry.toList.getLast? ≠ some '/' := by
  have hends : ∀ {marker rest : String} {ending : List Char}, below? marker entry = some rest →
      ending <:+ rest.toList → ending ≠ [] → entry.toList.getLast? = ending.getLast? := by
    intro marker rest ending hbelow hending hne
    obtain ⟨front, hfront⟩ := hending.trans (suffix_of_below? hbelow)
    rw [← hfront, List.getLast?_append_of_ne_nil _ hne]
  rw [isRead, Bool.or_eq_true, isNestedJar_iff, Option.isSome_iff_exists] at h
  obtain ⟨rest, hbelow, -, hending⟩ | ⟨rest, hrest⟩ := h
  · rw [hends hbelow hending (by decide)]
    decide
  · obtain ⟨hbelow, hending⟩ := classFile?_eq_some_iff.1 hrest
    rw [hends hbelow hending (by decide)]
    decide

/-- The entries that are read of an archive are read as it stores them. -/
theorem readEntries_of_holds {reader : ArchiveReader} {path : String} {bytes : List UInt8}
    {slots : List (String × Slot)} {entries : List (String × List UInt8)}
    (h : List.Forall₂ (reader.Holds bytes) slots entries) :
    readEntries reader path bytes slots = .ok (entries.filter fun entry => isRead entry.1) := by
  induction h with
  | nil => rfl
  | @cons slot entry slots entries hholds _ ih =>
    obtain ⟨name, slot⟩ := slot
    obtain ⟨hname, start, hstart, hmethod, hdata⟩ := hholds
    obtain rfl : name = entry.1 := hname
    have henter : reader.enter slot bytes = .ok start := by
      unfold ArchiveReader.enter
      rw [hstart, hmethod]
      rfl
    rw [readEntries, henter, ih, List.filter_cons]
    cases hread : isRead entry.1 with
    | true =>
      change ((reader.read slot start bytes).mapError _ >>= _) = _
      rw [hdata]
      rfl
    | false => rfl

end Entries

end PluginLayout

/-- Files by the names that lead to them, with their bytes. -/
abbrev PluginFiles := List (List String × List UInt8)

section Sorted

variable {α : Type} {first second : List (String × α)}

theorem pairwise_sortByName (values : List (String × α)) :
    (sortBy (fun first second => decide (first.1 ≤ second.1)) values).Pairwise
      fun first second => first.1 ≤ second.1 := by
  refine (pairwise_sortBy ?_ ?_ values).imp of_decide_eq_true
  · intro first second third hle hle'
    exact decide_eq_true (String.le_trans (of_decide_eq_true hle) (of_decide_eq_true hle'))
  · intro first second hnot
    exact decide_eq_true ((String.le_total _ _).resolve_left (of_decide_eq_false hnot))

theorem append_le_append {start name other : String} (h : name ≤ other) :
    start ++ name ≤ start ++ other := by
  have hchars := @List.append_left_le Char _ _ _ start.toList _ _ h
  rw [← String.toList_append, ← String.toList_append] at hchars
  exact hchars

/-- Values under different names have one order. -/
theorem eq_of_perm_of_sortedByName (h : first.Perm second) (hnodup : (first.map Prod.fst).Nodup)
    (hfirst : first.Pairwise fun value other => value.1 ≤ other.1)
    (hsecond : second.Pairwise fun value other => value.1 ≤ other.1) : first = second := by
  refine h.eq_of_pairwise (fun value other hvalue hother hle hge => ?_) hfirst hsecond
  exact List.inj_on_of_nodup_map hnodup hvalue (h.mem_iff.2 hother) (String.le_antisymm hle hge)

end Sorted

theorem ClassName.suffix_of_ofEntryPath? {path : String} {found : ClassName}
    (h : ofEntryPath? path = some found) : ".class".toList <:+ path.toList := by
  cases hstem : ".class".toList.isSuffixOf? path.toList with
  | none =>
    rw [ofEntryPath?, hstem] at h
    cases h
  | some stem => exact ⟨stem, List.isSuffixOf?_eq_some_iff_append_eq.1 hstem⟩

namespace PluginFiles

/-- The name of a jar directly in `lib`. -/
def jarName? : List String → Option String
  | [directory, name] =>
    if directory = "lib" ∧ ".jar".toList <:+ name.toList then some name else none
  | _ => none

/-- The jars directly in `lib`, sorted by name. -/
def jars (plugin : PluginFiles) : List (String × List UInt8) :=
  sortBy (fun first second => decide (first.1 ≤ second.1))
    (plugin.filterMap fun file => (jarName? file.1).map (·, file.2))

/-- Names of files in `lib` that have the extension of a jar have it in small letters and behind something. -/
def UsualNames (plugin : PluginFiles) : Prop :=
  ∀ name, ["lib", name] ∈ plugin.map Prod.fst → ∀ front extension,
    name = front ++ "." ++ extension → extension.toLower = "jar" → front ≠ "" ∧ extension = "jar"

/-- A file below `classes` stands for a class. -/
def HasClass (plugin : PluginFiles) (name : ClassName) : Prop :=
  ∃ names, "classes" :: names ∈ plugin.map Prod.fst ∧
    ClassName.ofEntryPath? ("/".intercalate names) = some name

/-- What a jar in an archive is called that is packed below a directory. -/
def nestedJar (archive top jar : String) : String :=
  archive ++ "!/" ++ top ++ "/lib/" ++ jar

/-- The entry for a file that is packed into an archive below a directory. -/
def packed (top : String) (file : List String × List UInt8) : String × List UInt8 :=
  ("/".intercalate (top :: file.1), file.2)

variable {plugin : PluginFiles} {name : String} {names : List String} {data : List UInt8}

theorem nestedJar_injective {archive top : String} : Function.Injective (nestedJar archive top) :=
  fun _ _ => (String.append_right_inj _).1

theorem jarName?_eq_some_iff :
    jarName? names = some name ↔ names = ["lib", name] ∧ ".jar".toList <:+ name.toList := by
  unfold jarName?
  split
  · next directory other =>
    rw [Option.ite_none_right_eq_some]
    constructor
    · rintro ⟨⟨rfl, hjar⟩, hname⟩
      cases hname
      exact ⟨rfl, hjar⟩
    · rintro ⟨hnames, hjar⟩
      cases hnames
      exact ⟨⟨rfl, hjar⟩, rfl⟩
  · next hshape =>
    refine iff_of_false nofun ?_
    rintro ⟨rfl, -⟩
    exact hshape _ _ rfl

theorem mem_jars_iff : (name, data) ∈ plugin.jars ↔
    (["lib", name], data) ∈ plugin ∧ ".jar".toList <:+ name.toList := by
  rw [jars, FileTree.mem_sortBy, List.mem_filterMap]
  constructor
  · rintro ⟨⟨names, bytes⟩, hmem, hentry⟩
    obtain ⟨found, hfound, hsame⟩ := Option.map_eq_some_iff.1 hentry
    cases hsame
    obtain ⟨rfl, hjar⟩ := jarName?_eq_some_iff.1 hfound
    exact ⟨hmem, hjar⟩
  · rintro ⟨hmem, hjar⟩
    exact ⟨_, hmem, Option.map_eq_some_iff.2 ⟨name, jarName?_eq_some_iff.2 ⟨rfl, hjar⟩, rfl⟩⟩

theorem pairwise_jars (plugin : PluginFiles) :
    plugin.jars.Pairwise fun first second => first.1 ≤ second.1 :=
  pairwise_sortByName _

theorem nodup_jars (h : (plugin.map Prod.fst).Nodup) : (plugin.jars.map Prod.fst).Nodup := by
  refine ((perm_sortBy _ _).map Prod.fst).nodup_iff.2 (List.pairwise_map.2 ?_)
  refine List.Pairwise.filterMap _ (fun first second hne jar hjar other hother hsame => ?_)
    (List.pairwise_map.1 h)
  obtain ⟨name, hname, rfl⟩ := Option.map_eq_some_iff.1 hjar
  obtain ⟨otherName, hotherName, rfl⟩ := Option.map_eq_some_iff.1 hother
  obtain rfl : name = otherName := hsame
  exact hne ((jarName?_eq_some_iff.1 hname).1.trans (jarName?_eq_some_iff.1 hotherName).1.symm)

/-- The files are packed among some entries, in any order. They are below a directory that is not called like
one of those in which a plugin is looked for. There may be entries of directories besides. -/
structure PackedIn (plugin : PluginFiles) (top : String) (entries : List (String × List UInt8)) :
    Prop where
  slash : '/' ∉ top.toList
  lib : top ≠ "lib"
  classes : top ≠ "classes"
  perm : (entries.filter fun entry => entry.1.toList.getLast? ≠ some '/').Perm
    (plugin.map (packed top))

section Archives

open PluginLayout

variable {top : String} {entries : List (String × List UInt8)}

/-- The class files below `classes` among the entries that are read of an archive. -/
def classEntries (entries : List (String × List UInt8)) : List (String × List UInt8) :=
  (entries.filter fun entry => isRead entry.1).filterMap fun entry =>
    if isNestedJar entry.1 then none else (classFile? entry.1).map (·, entry.2)

namespace PackedIn

variable (h : plugin.PackedIn top entries)
include h

/-- The entries that are read are those of files. -/
theorem perm_filter {keep : String → Bool}
    (hkeep : ∀ entry, keep entry = true → isRead entry = true) :
    (entries.filter fun entry => keep entry.1).Perm
      ((plugin.map (packed top)).filter fun entry => keep entry.1) := by
  have hfilter : (entries.filter fun entry => entry.1.toList.getLast? ≠ some '/').filter
      (fun entry => keep entry.1) = entries.filter fun entry => keep entry.1 := by
    rw [List.filter_filter]
    refine List.filter_congr fun entry _ => ?_
    cases hentry : keep entry.1 with
    | true => simpa using not_slash_of_isRead (hkeep _ hentry)
    | false => rfl
  rw [← hfilter]
  exact h.perm.filter _

/-- Where the entries have different names, so have the files. -/
theorem nodup (hentries : (entries.map Prod.fst).Nodup) : (plugin.map Prod.fst).Nodup := by
  have hpacked : ((plugin.map (packed top)).map Prod.fst).Nodup :=
    (h.perm.map Prod.fst).nodup_iff.1 (hentries.sublist (List.filter_sublist.map _))
  have hnames : (plugin.map (packed top)).map Prod.fst =
      (plugin.map Prod.fst).map fun names => "/".intercalate (top :: names) := by
    rw [List.map_map, List.map_map]
    rfl
  exact (hnames ▸ hpacked).of_map

theorem isNestedJar_packed (hnames : ∀ name ∈ names, '/' ∉ name.toList) :
    isNestedJar (packed top (names, data)).1 = (jarName? names).isSome := by
  rw [Bool.eq_iff_iff, isNestedJar_iff, Option.isSome_iff_exists, packed]
  refine exists_congr fun rest => ?_
  rw [below?_eq_some_iff (by decide) h.slash h.lib hnames, jarName?_eq_some_iff]
  constructor
  · rintro ⟨rfl, hrest, hjar⟩
    rw [segments_of_not_mem hrest]
    exact ⟨rfl, hjar⟩
  · rintro ⟨rfl, hjar⟩
    have hrest : '/' ∉ rest.toList := hnames rest (by simp)
    exact ⟨by rw [segments_of_not_mem hrest], hrest, hjar⟩

variable (hslash : ∀ file ∈ plugin, ∀ name ∈ file.1, '/' ∉ name.toList)
include hslash

/-- The jars in an archive are those of the plugin. -/
theorem perm_nested : (entries.filter fun entry => isNestedJar entry.1).Perm
    (plugin.jars.map fun jar => packed top (["lib", jar.1], jar.2)) := by
  refine (h.perm_filter fun entry hentry => by simp [isRead, hentry]).trans ?_
  have hpacked : ∀ files : PluginFiles, (∀ file ∈ files, ∀ name ∈ file.1, '/' ∉ name.toList) →
      (files.map (packed top)).filter (fun entry => isNestedJar entry.1) =
        (files.filterMap fun file => (jarName? file.1).map (·, file.2)).map
          fun jar => packed top (["lib", jar.1], jar.2) := by
    intro files hfiles
    induction files with
    | nil => rfl
    | cons file files ih =>
      obtain ⟨names, data⟩ := file
      rw [List.forall_mem_cons] at hfiles
      rw [List.map_cons, List.filter_cons, h.isNestedJar_packed hfiles.1, ih hfiles.2,
        List.filterMap_cons]
      cases hname : jarName? names with
      | none => rfl
      | some name =>
        obtain ⟨rfl, -⟩ := jarName?_eq_some_iff.1 hname
        rfl
  rw [hpacked plugin hslash]
  exact ((perm_sortBy _ _).map _).symm

/-- The jars in an archive come in the order of their names. -/
theorem sortBy_nested (archive : String) (hdistinct : (plugin.map Prod.fst).Nodup) :
    sortBy (fun first second => decide (first.1 ≤ second.1))
        ((entries.filter fun entry => isNestedJar entry.1).map fun entry =>
          (archive ++ "!/" ++ entry.1, entry.2)) =
      plugin.jars.map fun jar => (nestedJar archive top jar.1, jar.2) := by
  have hcalled : ∀ jar : String × List UInt8,
      archive ++ "!/" ++ (packed top (["lib", jar.1], jar.2)).1 = nestedJar archive top jar.1 := by
    intro jar
    apply String.toList_injective
    simp [packed, nestedJar]
  have hsorted : (plugin.jars.map fun jar => (nestedJar archive top jar.1, jar.2)).Pairwise
      fun first second => first.1 ≤ second.1 :=
    List.pairwise_map.2 ((pairwise_jars plugin).imp append_le_append)
  have hperm := (perm_sortBy (fun first second => decide (first.1 ≤ second.1)) _).trans
    ((h.perm_nested hslash).map fun entry => (archive ++ "!/" ++ entry.1, entry.2))
  rw [List.map_map] at hperm
  simp only [Function.comp_def, hcalled] at hperm
  refine (eq_of_perm_of_sortedByName hperm.symm ?_ hsorted (pairwise_sortByName _)).symm
  rw [List.map_map]
  change (plugin.jars.map (nestedJar archive top ∘ Prod.fst)).Nodup
  rw [← List.map_map]
  exact (nodup_jars hdistinct).map nestedJar_injective

theorem mem_classEntries_iff {path : String} : (path, data) ∈ classEntries entries ↔
    ("classes" :: segments path, data) ∈ plugin ∧ ".class".toList <:+ path.toList := by
  have hread := h.perm_filter fun _ hentry => hentry
  have hfile : ∀ {names : List String}, (names, data) ∈ plugin →
      (classFile? (packed top (names, data)).1 = some path ↔
        names = "classes" :: segments path ∧ ".class".toList <:+ path.toList) := by
    intro names hmem
    rw [classFile?_eq_some_iff, packed,
      below?_eq_some_iff (by decide) h.slash h.classes (hslash _ hmem)]
  rw [classEntries, List.mem_filterMap]
  constructor
  · rintro ⟨entry, hentry, hpath⟩
    obtain ⟨hpacked, -⟩ := List.mem_filter.1 (hread.mem_iff.1 hentry)
    obtain ⟨⟨names, bytes⟩, hmem, rfl⟩ := List.mem_map.1 hpacked
    obtain ⟨-, hpath⟩ := Option.ite_none_left_eq_some.1 hpath
    obtain ⟨found, hfound, hsame⟩ := Option.map_eq_some_iff.1 hpath
    cases hsame
    obtain ⟨rfl, hending⟩ := (hfile hmem).1 hfound
    exact ⟨hmem, hending⟩
  · rintro ⟨hmem, hending⟩
    have hfound := (hfile hmem).2 ⟨rfl, hending⟩
    refine ⟨packed top ("classes" :: segments path, data), hread.mem_iff.2 (List.mem_filter.2 ?_), ?_⟩
    · refine ⟨List.mem_map_of_mem hmem, ?_⟩
      rw [isRead, hfound, Option.isSome_some, Bool.or_true]
    · have hjar : jarName? ("classes" :: segments path) = none := by
        by_contra hsome
        obtain ⟨name, hname⟩ := Option.ne_none_iff_exists'.1 hsome
        exact absurd (List.cons.inj (jarName?_eq_some_iff.1 hname).1).1 (by decide)
      rw [h.isNestedJar_packed (hslash _ hmem), hjar]
      exact congrArg (Option.map (·, data)) hfound

/-- A class file of the plugin is among the entries. -/
theorem mem_classEntries (hne : names ≠ []) (hmem : ("classes" :: names, data) ∈ plugin)
    (hending : ".class".toList <:+ ("/".intercalate names).toList) :
    ("/".intercalate names, data) ∈ classEntries entries := by
  have hsegments : segments ("/".intercalate names) = names :=
    segments_intercalate hne fun name hname => hslash _ hmem name (.tail _ hname)
  exact (h.mem_classEntries_iff hslash).2 ⟨hsegments.symm ▸ hmem, hending⟩

/-- The class files in an archive stand for the classes of the plugin. -/
theorem hasClass_iff (found : ClassName) : plugin.HasClass found ↔
    ∃ entry ∈ classEntries entries, ClassName.ofEntryPath? entry.1 = some found := by
  constructor
  · rintro ⟨names, hmem, hfound⟩
    obtain ⟨⟨_, data⟩, hfile, rfl⟩ := List.mem_map.1 hmem
    have hne : names ≠ [] := by
      rintro rfl
      cases hfound
    exact ⟨_, h.mem_classEntries hslash hne hfile (ClassName.suffix_of_ofEntryPath? hfound), hfound⟩
  · rintro ⟨⟨path, data⟩, hentry, hfound⟩
    obtain ⟨hmem, -⟩ := (h.mem_classEntries_iff hslash).1 hentry
    refine ⟨segments path, List.mem_map_of_mem hmem, ?_⟩
    rwa [intercalate_segments]

end PackedIn

end Archives

end PluginFiles

namespace FileTree

variable {tree : FileTree} {path first : String} {place rest : List String}
  {entries : List (String × Node)}

theorem isDirectory_of_directoryAt {next : Place} (h : tree.directoryAt path = .ok next) :
    tree.isDirectory path = true := by
  obtain ⟨hresolved, hnode⟩ := directoryAt_eq_ok_iff.1 h
  have hpath : tree.node path = .ok .directory := by
    simp only [node, hresolved, bind, Except.bind, hnode]
    rfl
  simp only [isDirectory, hpath]
  rfl

theorem mem_of_filesBelow {found : List (List String)} {names : List String}
    (hpath : tree.directoryAt path = .ok (.inside place)) (hfound : tree.filesBelow path = .ok found) :
    names ∈ found ↔ (names.dropLast.foldl join path).utf8ByteSize ≤ pathLimit ∧
      ∃ number, (place ++ names, .file number) ∈ tree.nodes.entries := by
  obtain ⟨others, hothers, hmem⟩ := mem_filesBelow_iff hpath
  obtain rfl := Except.ok.inj (hfound.symm.trans hothers)
  exact hmem names

/-- The entries of a directory come in the order of their names. -/
theorem pairwise_list (hpath : tree.directoryAt path = .ok (.inside place))
    (hlist : tree.list path = .ok entries) :
    entries.Pairwise fun first second => first.1 ≤ second.1 := by
  unfold list at hlist
  rw [hpath] at hlist
  cases hlist
  exact pairwise_sortByName _

namespace WellFormed

variable (h : tree.WellFormed)
include h

/-- The entries of a directory have different names. -/
theorem nodup_list (hpath : tree.directoryAt path = .ok (.inside place))
    (hlist : tree.list path = .ok entries) : (entries.map Prod.fst).Nodup := by
  unfold list at hlist
  rw [hpath] at hlist
  cases hlist
  refine ((perm_sortBy _ _).map Prod.fst).nodup_iff.2 (List.pairwise_map.2 ?_)
  refine List.Pairwise.filterMap _ (fun node other hne entry hentry found hfound hsame => ?_)
    (List.pairwise_map.1 h.distinct)
  dsimp only at hentry hfound
  split at hentry
  · next name hname =>
    cases hentry
    split at hfound
    · next otherName hotherName =>
      cases hfound
      rw [List.isPrefixOf?_eq_some_iff_append_eq] at hname hotherName
      exact hne (by rw [← hname, ← hotherName, show name = otherName from hsame])
    · cases hfound
  · cases hentry

/-- What has something below it is a directory. -/
theorem nodeAt?_of_append (hmem : place ++ first :: rest ∈ tree.nodes.keys) (hrest : rest ≠ []) :
    tree.nodeAt? (.inside (place ++ [first])) = some .directory := by
  obtain ⟨second, more, rfl⟩ := List.exists_cons_of_ne_nil hrest
  have hkey : (place ++ [first]) ++ second :: more ∈ tree.nodes.keys := by
    rwa [List.append_assoc]
  have habove := h.parent _ (h.mem_keys_of_append hkey)
  rwa [List.dropLast_concat] at habove

variable (hpath : tree.directoryAt path = .ok (.inside place)) (hfirst : IsName first)
include hpath hfirst

theorem directoryAt_join_iff {next : Place} : tree.directoryAt (join path first) = .ok next ↔
    (join path first).utf8ByteSize ≤ pathLimit ∧ next = .inside (place ++ [first]) ∧
      tree.nodeAt? (.inside (place ++ [first])) = some .directory := by
  have hslash : ∀ name ∈ [first], '/' ∉ name.toList := by simpa using hfirst.2.2.1
  have hsteps : ∀ name ∈ [first], isStep name = true ∧ name ≠ ".." := by
    simpa using ⟨hfirst.1, hfirst.2.1⟩
  have hjoined : tree.directoryAt ([first].foldl join path) = .ok next ↔ _ :=
    h.directoryAt_foldl_join_iff hpath hslash hsteps
  rwa [List.foldl_cons, List.foldl_nil] at hjoined

variable {found : List (List String)} (hfound : tree.filesBelow path = .ok found)
include hfound

/-- Where files are found further down, there is a directory. -/
theorem directoryAt_of_mem_filesBelow (hmem : first :: rest ∈ found) (hrest : rest ≠ []) :
    tree.directoryAt (join path first) = .ok (.inside (place ++ [first])) := by
  obtain ⟨hlimit, number, hfile⟩ := (mem_of_filesBelow hpath hfound).1 hmem
  rw [List.dropLast_cons_of_ne_nil hrest, List.foldl_cons] at hlimit
  have hkey : place ++ first :: rest ∈ tree.nodes.keys := List.mem_map_of_mem hfile
  have hslash : ∀ name ∈ rest.dropLast, '/' ∉ name.toList := fun name hname =>
    (h.named _ hkey name (by simp [List.dropLast_subset _ hname])).2.2.1
  have hne : path ≠ "" :=
    (resolve_eq_ok_iff.1 (directoryAt_eq_ok_iff.1 hpath).1).2.2.1
  refine (h.directoryAt_join_iff hpath hfirst).2 ⟨?_, rfl, h.nodeAt?_of_append hkey hrest⟩
  exact Nat.le_trans (size_le_foldl_join (join_ne_empty hne hfirst.2.2.1) hslash) hlimit

omit h hfirst in
/-- What is found below a directory is found further down from where that stands. -/
theorem cons_mem_filesBelow_iff {below : List (List String)}
    (hbelow : tree.filesBelow (join path first) = .ok below)
    (hdirectory : tree.directoryAt (join path first) = .ok (.inside (place ++ [first])))
    (hrest : rest ≠ []) : first :: rest ∈ found ↔ rest ∈ below := by
  rw [mem_of_filesBelow hpath hfound, mem_of_filesBelow hdirectory hbelow,
    List.dropLast_cons_of_ne_nil hrest, List.foldl_cons, List.append_assoc]
  rfl

/-- The files in a directory are those that are found one name further down. -/
theorem pair_mem_filesBelow_iff {name : String} {entries : List (String × Node)}
    (hlist : tree.list (join path first) = .ok entries)
    (hdirectory : tree.directoryAt (join path first) = .ok (.inside (place ++ [first]))) :
    [first, name] ∈ found ↔ ∃ number, (name, .file number) ∈ entries := by
  obtain ⟨others, hothers, hentries⟩ := mem_list_iff hdirectory
  obtain rfl := Except.ok.inj (hlist.symm.trans hothers)
  obtain ⟨hlimit, -, -⟩ := (h.directoryAt_join_iff hpath hfirst).1 hdirectory
  rw [mem_of_filesBelow hpath hfound]
  refine (and_iff_right hlimit).trans (exists_congr fun number => ?_)
  rw [hentries, List.append_assoc]
  rfl

end WellFormed

end FileTree

namespace PluginFiles

/-- The name of an entry of a directory that counts as a jar. -/
def listedJar? (entry : String × Node) : Option String :=
  if entry.2.isFile && hasExtension entry.1 "jar" then some entry.1 else none

theorem listedJar?_eq_some_iff {entry : String × Node} {name : String} : listedJar? entry = some name ↔
    entry.1 = name ∧ (∃ number, entry.2 = .file number) ∧ hasExtension name "jar" = true := by
  have hfile : entry.2.isFile = true ↔ ∃ number, entry.2 = .file number := by
    cases entry.2 <;> simp [Node.isFile, Node.isDirectory]
  rw [listedJar?, Option.ite_none_right_eq_some, Bool.and_eq_true, Option.some_inj, hfile]
  constructor
  · rintro ⟨⟨hnumber, hextension⟩, rfl⟩
    exact ⟨rfl, hnumber, hextension⟩
  · rintro ⟨rfl, hnumber, hextension⟩
    exact ⟨⟨hnumber, hextension⟩, rfl⟩

theorem jarsIn_of_list {files : FileTree} {path : String} {entries : List (String × Node)}
    (h : files.list path = .ok entries) :
    jarsIn files path = (entries.filterMap listedJar?).map (join path) := by
  unfold jarsIn
  rw [h, List.map_filterMap]
  dsimp only
  congr 1
  funext entry
  rw [listedJar?]
  split <;> rfl

/-- The files are all those below a directory. -/
structure StandIn (plugin : PluginFiles) (files : FileTree) (directory : String) : Prop where
  found : ∃ found, files.filesBelow directory = .ok found ∧ (plugin.map Prod.fst).Perm found
  held : ∀ file ∈ plugin, ∃ place number, files.directoryAt directory = .ok (.inside place) ∧
    files.nodes.get? (place ++ file.1) = some (.file number) ∧ files.bytes number = file.2

namespace StandIn

variable {plugin : PluginFiles} {files : FileTree} {directory : String} {place : List String}
  (h : plugin.StandIn files directory) (hfiles : files.WellFormed)
  (hplace : files.directoryAt directory = .ok (.inside place))
include h hfiles hplace

/-- The files of a plugin have names that files may have. -/
theorem isName {names : List String} (hmem : names ∈ plugin.map Prod.fst) :
    ∀ name ∈ names, IsName name := by
  obtain ⟨found, hfound, hperm⟩ := h.found
  obtain ⟨-, number, hfile⟩ := (FileTree.mem_of_filesBelow hplace hfound).1 (hperm.mem_iff.1 hmem)
  exact fun name hname => hfiles.named _ (List.mem_map_of_mem hfile) name
    (List.mem_append_right _ hname)

section Jars

variable (hjars : plugin.UsualNames)
include hjars

theorem hasExtension_iff {name : String} (hmem : ["lib", name] ∈ plugin.map Prod.fst) :
    hasExtension name "jar" = true ↔ ".jar".toList <:+ name.toList := by
  have hname : IsName name := h.isName hfiles hplace hmem name (by simp)
  constructor
  · intro hextension
    obtain ⟨front, extension, rfl, hlower⟩ := exists_of_hasExtension hname hextension
    obtain ⟨-, rfl⟩ := hjars _ hmem front extension rfl hlower
    refine ⟨front.toList, ?_⟩
    simp
  · rintro ⟨stem, hstem⟩
    obtain rfl : String.ofList stem ++ ".jar" = name := by
      apply String.toList_injective
      simpa using hstem
    obtain ⟨hne, -⟩ := hjars _ hmem (String.ofList stem) "jar"
      (by apply String.toList_injective; simp) (by decide +kernel)
    exact hasExtension_jar hname hne

/-- A jar of the plugin is a file with the extension. -/
theorem mem_jars_iff {found : List (List String)} (hfound : files.filesBelow directory = .ok found)
    {name : String} : name ∈ plugin.jars.map Prod.fst ↔
      ["lib", name] ∈ found ∧ hasExtension name "jar" = true := by
  obtain ⟨others, hothers, hperm⟩ := h.found
  obtain rfl := Except.ok.inj (hfound.symm.trans hothers)
  rw [← hperm.mem_iff, and_congr_right fun hmem => h.hasExtension_iff hfiles hplace hjars hmem]
  simp [PluginFiles.mem_jars_iff]

variable (hdistinct : (plugin.map Prod.fst).Nodup)
include hdistinct

/-- The jars in a directory come in the order of the plugin's. -/
theorem filterMap_listedJar?_eq {entries : List (String × Node)}
    (hdirectory : files.directoryAt (join directory "lib") = .ok (.inside (place ++ ["lib"])))
    (hlist : files.list (join directory "lib") = .ok entries) :
    entries.filterMap listedJar? = plugin.jars.map Prod.fst := by
  refine List.Perm.eq_of_pairwise (fun _ _ _ _ => String.le_antisymm) ?_
    (List.pairwise_map.2 (pairwise_jars plugin)) ?_
  · refine List.Pairwise.filterMap _ (fun first second hle name hname other hother => ?_)
      (FileTree.pairwise_list hdirectory hlist)
    rwa [← (listedJar?_eq_some_iff.1 hname).1, ← (listedJar?_eq_some_iff.1 hother).1]
  refine (List.perm_ext_iff_of_nodup ?_ (nodup_jars hdistinct)).2 fun name => ?_
  · refine List.Pairwise.filterMap _ (fun first second hne name hname other hother => ?_)
      (List.pairwise_map.1 (hfiles.nodup_list hdirectory hlist))
    rwa [← (listedJar?_eq_some_iff.1 hname).1, ← (listedJar?_eq_some_iff.1 hother).1]
  · obtain ⟨found, hfound, -⟩ := h.found
    rw [h.mem_jars_iff hfiles hplace hjars hfound,
      hfiles.pair_mem_filesBelow_iff hplace (by decide) hfound hlist hdirectory, List.mem_filterMap]
    constructor
    · rintro ⟨⟨_, _⟩, hmem, hentry⟩
      obtain ⟨rfl, ⟨number, rfl⟩, hextension⟩ := listedJar?_eq_some_iff.1 hentry
      exact ⟨⟨number, hmem⟩, hextension⟩
    · rintro ⟨⟨number, hmem⟩, hextension⟩
      exact ⟨_, hmem, listedJar?_eq_some_iff.2 ⟨rfl, ⟨number, rfl⟩, hextension⟩⟩

/-- The jars in a directory are those of the plugin. -/
theorem jarsIn_eq : jarsIn files (join directory "lib") =
    plugin.jars.map fun jar => join (join directory "lib") jar.1 := by
  cases hdirectory : files.directoryAt (join directory "lib") with
  | error fault =>
    have hlist : files.list (join directory "lib") = .error fault := by
      unfold FileTree.list
      rw [hdirectory]
      rfl
    have hnone : plugin.jars = [] := by
      refine List.eq_nil_iff_forall_not_mem.2 fun jar hjar => ?_
      obtain ⟨found, hfound, -⟩ := h.found
      have hmem := (h.mem_jars_iff hfiles hplace hjars hfound).1 (List.mem_map_of_mem hjar)
      have hthere := hfiles.directoryAt_of_mem_filesBelow hplace (by decide) hfound hmem.1
        (List.cons_ne_nil _ _)
      cases hdirectory.symm.trans hthere
    unfold jarsIn
    rw [hlist, hnone]
    rfl
  | ok next =>
    obtain ⟨-, rfl, -⟩ := (hfiles.directoryAt_join_iff hplace (by decide)).1 hdirectory
    obtain ⟨entries, hlist, -⟩ := FileTree.mem_list_iff hdirectory
    rw [jarsIn_of_list hlist, h.filterMap_listedJar?_eq hfiles hplace hjars hdistinct hdirectory hlist,
      List.map_map]
    rfl

end Jars

/-- Where the plugin has files below `classes`, this is a directory. -/
theorem isDirectory_classes {names : List String} (hmem : "classes" :: names ∈ plugin.map Prod.fst)
    (hnames : names ≠ []) : files.isDirectory (join directory "classes") = true := by
  obtain ⟨found, hfound, hperm⟩ := h.found
  exact FileTree.isDirectory_of_directoryAt (hfiles.directoryAt_of_mem_filesBelow hplace (by decide)
    hfound (hperm.mem_iff.1 hmem) hnames)

/-- The class files below `classes` stand for the classes of the plugin. -/
theorem mem_walk_iff (hdirectory : files.isDirectory (join directory "classes") = true)
    (capacity : Nat) (name : ClassName) :
    name ∈ (ClassDirectory.mk (join directory "classes") capacity).walk files ↔
      plugin.HasClass name := by
  obtain ⟨found, hfound, hperm⟩ := h.found
  obtain ⟨next, hnext⟩ := FileTree.exists_directoryAt_of_isDirectory hdirectory
  obtain ⟨-, rfl, -⟩ := (hfiles.directoryAt_join_iff hplace (by decide)).1 hnext
  obtain ⟨below, hbelow, -⟩ := FileTree.mem_filesBelow_iff hnext
  have hroot : files.filesBelow (ClassDirectory.mk (join directory "classes") capacity).root =
      .ok below := hbelow
  rw [ClassDirectory.mem_walk_iff hroot, HasClass]
  refine exists_congr fun names => and_congr_left fun hname => ?_
  have hne : names ≠ [] := by
    rintro rfl
    cases hname
  have hbelow_iff := FileTree.WellFormed.cons_mem_filesBelow_iff hplace hfound hbelow hnext hne
  rw [hperm.mem_iff, hbelow_iff]

end StandIn

end PluginFiles

end LinkCheck
