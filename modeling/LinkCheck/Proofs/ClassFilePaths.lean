import LinkCheck.Proofs.PathResolution
import Mathlib.Data.List.TakeWhile

/-!
# Paths of class files

A class is kept in the file of its simple name, in the directory of its package. Most paths of class files
tell the class that is kept there, and most class names tell the path of their file: a regular name and a
plain path go with each other. A path with further dots or with backslashes may tell a class that is not kept
there, because dots and backslashes count as slashes in a name.

## Main definitions

- `ClassName.classFile` — the names along the path of a class file
- `ClassName.Regular` — names of classes that the path of their file tells
- `ClassName.IsPlain` — paths of class files without further dots and without backslashes

## Main results

- `ClassName.ofEntryPath?_classFile` — the path of its file tells a regular name
- `ClassName.eq_classFile_of_isPlain` — a plain path is the path of the class that it tells
-/

namespace LinkCheck

namespace ClassName

open LinkCheck.Path

-- ════════════════════════════════════════════════════════════════════════
-- Packages and simple names
-- ════════════════════════════════════════════════════════════════════════

theorem not_mem_simpleName (name : ClassName) : '/' ∉ name.simpleName.toList := by
  rw [simpleName, String.toList_ofList, List.mem_reverse]
  intro hmem
  simpa using List.mem_takeWhile_imp hmem

theorem package_of_not_mem {name : ClassName} (h : '/' ∉ name.text.toList) :
    name.package = "" ∧ name.simpleName = name.text := by
  have hall : ∀ c ∈ name.text.toList.reverse, decide (c ≠ '/') = true := by
    intro c hc
    rw [List.mem_reverse] at hc
    exact decide_eq_true fun hslash => h (hslash ▸ hc)
  rw [package, simpleName, List.dropWhile_eq_nil_iff.2 hall, List.takeWhile_eq_self_iff.2 hall]
  simp

/-- A name with a package is put together of the package and the simple name. -/
theorem text_of_mem {name : ClassName} (h : '/' ∈ name.text.toList) :
    name.text = name.package ++ "/" ++ name.simpleName := by
  have hne : name.text.toList.reverse.dropWhile (fun c => decide (c ≠ '/')) ≠ [] := by
    rw [ne_eq, List.dropWhile_eq_nil_iff]
    intro hall
    simpa using hall '/' (List.mem_reverse.2 h)
  have hhead := List.head_dropWhile_not (fun c => decide (c ≠ '/')) hne
  have hsplit := List.takeWhile_append_dropWhile (p := fun c => decide (c ≠ '/'))
    (l := name.text.toList.reverse)
  obtain ⟨c, rest, hdrop⟩ := List.exists_cons_of_ne_nil hne
  simp only [hdrop, List.head_cons, decide_eq_false_iff_not, not_not] at hhead
  rw [hdrop, hhead] at hsplit
  have htext := congrArg List.reverse hsplit
  rw [List.reverse_append, List.reverse_cons, List.reverse_reverse] at htext
  apply String.toList_injective
  rw [package, simpleName, hdrop, List.drop_one, List.tail_cons, String.toList_append,
    String.toList_append, String.toList_ofList, String.toList_ofList, String.toList_ofList]
  exact htext.symm

/-- The segments of a name are those of its package and the simple name. -/
theorem segments_text (name : ClassName) :
    segments name.text = (segments name.text).dropLast ++ [name.simpleName] := by
  by_cases h : '/' ∈ name.text.toList
  · rw [text_of_mem h, segments_append_slash, segments_of_not_mem name.not_mem_simpleName,
      List.dropLast_concat]
  · rw [segments_of_not_mem h, (package_of_not_mem h).2]
    rfl

/-- The names along the path of a class file: those of the packages and that of the file. -/
def classFile (name : ClassName) : List String :=
  (segments name.package).filter (· ≠ "") ++ [name.simpleName ++ ".class"]

theorem filter_segments_package (name : ClassName) :
    (segments name.package).filter (· ≠ "") = (segments name.text).dropLast.filter (· ≠ "") := by
  by_cases h : '/' ∈ name.text.toList
  · rw [text_of_mem h, segments_append_slash, segments_of_not_mem name.not_mem_simpleName,
      List.dropLast_concat]
  · rw [segments_of_not_mem h, (package_of_not_mem h).1]
    rfl

theorem intercalate_concat_append (front : List String) (last suffix : String) :
    "/".intercalate (front ++ [last]) ++ suffix = "/".intercalate (front ++ [last ++ suffix]) := by
  cases front with
  | nil => simp
  | cons first front =>
    rw [String.intercalate_append_of_ne_nil (List.cons_ne_nil _ _) (List.cons_ne_nil _ _),
      String.intercalate_append_of_ne_nil (List.cons_ne_nil _ _) (List.cons_ne_nil _ _)]
    simp [String.append_assoc]

theorem entryPath_eq_intercalate (name : ClassName) : name.entryPath =
    "/".intercalate ((segments name.text).dropLast ++ [name.simpleName ++ ".class"]) := by
  rw [← intercalate_concat_append, ← segments_text, intercalate_segments, entryPath]

theorem segments_entryPath (name : ClassName) : segments name.entryPath =
    (segments name.text).dropLast ++ [name.simpleName ++ ".class"] := by
  rw [entryPath_eq_intercalate]
  refine segments_intercalate (List.concat_ne_nil _ _) fun segment hsegment => ?_
  rcases List.mem_append.1 hsegment with hsegment | hsegment
  · exact fun hmem => (of_mem_segments (List.dropLast_subset _ hsegment) hmem).2 rfl
  · rw [List.mem_singleton.1 hsegment, String.toList_append, List.mem_append, not_or]
    exact ⟨name.not_mem_simpleName, by decide⟩

/-- If all packages of a class have names, these lead to its file. -/
theorem segments_entryPath_eq_classFile {name : ClassName}
    (h : "" ∉ (segments name.text).dropLast) : segments name.entryPath = name.classFile := by
  rw [segments_entryPath, classFile, filter_segments_package, List.filter_eq_self.2]
  exact fun segment hsegment => decide_eq_true fun hempty => h (hempty ▸ hsegment)

-- ════════════════════════════════════════════════════════════════════════
-- Names that paths tell
-- ════════════════════════════════════════════════════════════════════════

theorem replaceChar_of_not_mem {old new : Char} {text : String} (h : old ∉ text.toList) :
    replaceChar old new text = text := by
  apply String.toList_injective
  rw [replaceChar, String.toList_map]
  conv_rhs => rw [← List.map_id text.toList]
  exact List.map_congr_left fun c hc => if_neg fun hsame : c = old => h (hsame ▸ hc)

theorem not_mem_replaceChar {old new : Char} (h : old ≠ new) (text : String) :
    old ∉ (replaceChar old new text).toList := by
  rw [replaceChar, String.toList_map, List.mem_map]
  rintro ⟨c, -, hc⟩
  split at hc
  · exact h hc.symm
  · next hother => exact hother hc

/-- A class name has no dots, except in array names. -/
theorem not_mem_ofText {text : String} (h : (ofText text).isArray = false) :
    '.' ∉ (ofText text).text.toList := by
  unfold ofText at h ⊢
  split
  · next harray =>
    rw [if_pos harray] at h
    exact absurd harray (by simpa [isArray] using h)
  · exact not_mem_replaceChar (by decide) text

theorem ofText_of_not_mem {text : String} (h : '.' ∉ text.toList) : ofText text = ⟨text⟩ := by
  unfold ofText
  split
  · rfl
  · rw [replaceChar_of_not_mem h]

/-- What stands behind the last slash or backslash. -/
def lastPart (stem : List Char) : List Char :=
  (stem.reverse.takeWhile fun c => c ≠ '/' && c ≠ '\\').reverse

/-- The class that a path tells which is not absolute. -/
theorem ofEntryPath?_eq_some_iff {path : String} {name : ClassName}
    (hslash : path.toList.head? ≠ some '/') :
    ofEntryPath? path = some name ↔ ∃ stem, path = stem ++ ".class" ∧ stem ≠ "" ∧
      isDescriptorName (lastPart stem.toList) = false ∧
      "META-INF/".toList.isPrefixOf stem.toList = false ∧
      name = ofText (replaceChar '\\' '/' stem) := by
  have hsuffix : ∀ stem : String, path = stem ++ ".class" ↔
      ".class".toList.isSuffixOf? path.toList = some stem.toList := by
    intro stem
    rw [List.isSuffixOf?_eq_some_iff_append_eq, ← String.toList_append, String.toList_inj, eq_comm]
  rcases hfound : ".class".toList.isSuffixOf? path.toList with _ | chars
  · refine iff_of_false ?_ ?_
    · rw [ofEntryPath?, hfound]
      exact nofun
    · rintro ⟨stem, hstem, -⟩
      rw [hsuffix, hfound] at hstem
      cases hstem
  · obtain ⟨stem, rfl⟩ : ∃ stem : String, stem.toList = chars :=
      ⟨String.ofList chars, String.toList_ofList⟩
    have hstem := (hsuffix stem).2 hfound
    have hhead : stem.toList.head? ≠ some '/' := by
      rw [hstem, String.toList_append] at hslash
      cases hchars : stem.toList with
      | nil => exact nofun
      | cons c chars =>
        rw [hchars] at hslash
        exact hslash
    have hopen : ofEntryPath? path =
        if stem.toList.isEmpty || isDescriptorName (lastPart stem.toList) ||
          "META-INF/".toList.isPrefixOf stem.toList then none
        else some (ofText (replaceChar '\\' '/' stem)) := by
      rw [ofEntryPath?, hfound, Option.bind_eq_bind, Option.bind_some]
      dsimp only
      rw [if_neg hhead, String.ofList_toList]
      change (guard (!(stem.toList.isEmpty || isDescriptorName (lastPart stem.toList) ||
        "META-INF/".toList.isPrefixOf stem.toList)) : Option Unit).bind _ = _
      cases stem.toList.isEmpty || isDescriptorName (lastPart stem.toList) ||
        "META-INF/".toList.isPrefixOf stem.toList <;> rfl
    have hempty : stem.toList.isEmpty = false ↔ stem ≠ "" := by
      rw [List.isEmpty_eq_false_iff, ne_eq, String.toList_eq_nil_iff]
    rw [hopen, ite_eq_iff]
    simp only [Bool.not_eq_true, Bool.or_eq_false_iff, Option.some_inj, hempty, and_assoc]
    constructor
    · rintro (⟨-, hnone⟩ | ⟨hne, hdescriptor, hreserved, hname⟩)
      · cases hnone
      · exact ⟨stem, hstem, hne, hdescriptor, hreserved, hname.symm⟩
    · rintro ⟨other, hother, hrest⟩
      obtain rfl : other = stem := by
        rw [hstem, String.append_left_inj] at hother
        exact hother.symm
      exact .inr ⟨hrest.1, hrest.2.1, hrest.2.2.1, hrest.2.2.2.symm⟩

/-- Names of classes that the paths of their files tell. They are no array names, name no descriptors and
nothing below `META-INF`, and all their packages have names. -/
structure Regular (name : ClassName) : Prop where
  nonempty : name.text ≠ ""
  notArray : name.isArray = false
  notDescriptor : isDescriptorName name.simpleName.toList = false
  notReserved : "META-INF/".toList.isPrefixOf name.text.toList = false
  noBackslash : '\\' ∉ name.text.toList
  packages : "" ∉ (segments name.text).dropLast

theorem lastPart_of_not_mem {name : ClassName} (h : '\\' ∉ name.text.toList) :
    lastPart name.text.toList = name.simpleName.toList := by
  have hsame : ∀ chars : List Char, '\\' ∉ chars →
      (chars.takeWhile fun c => c ≠ '/' && c ≠ '\\') = chars.takeWhile fun c => c ≠ '/' := by
    intro chars hchars
    induction chars with
    | nil => rfl
    | cons c chars ih =>
      rw [List.mem_cons, not_or] at hchars
      rw [List.takeWhile_cons, List.takeWhile_cons, ih hchars.2]
      simp [Ne.symm hchars.1]
  rw [lastPart, simpleName, String.toList_ofList, hsame _ (by simpa using h)]

/-- A path whose packages all have names is not absolute. -/
theorem head_ne_slash {path : String} (h : "" ∉ (segments path).dropLast) :
    path.toList.head? ≠ some '/' := by
  intro hhead
  obtain ⟨rest, hrest⟩ := List.head?_eq_some_iff.1 hhead
  have hpath : path = "" ++ "/" ++ String.ofList rest := by
    apply String.toList_injective
    simpa using hrest
  have hempty : segments "" = [""] := rfl
  rw [hpath, segments_append_slash, hempty, List.singleton_append,
    List.dropLast_cons_of_ne_nil (segments_ne_nil _)] at h
  exact h List.mem_cons_self

/-- The path of its file tells a regular name. -/
theorem ofEntryPath?_classFile {text : String} (h : (ofText text).Regular) :
    ofEntryPath? ("/".intercalate (ofText text).classFile) = some (ofText text) := by
  have hhead : (ofText text).entryPath.toList.head? ≠ some '/' := by
    refine head_ne_slash ?_
    rw [segments_entryPath, List.dropLast_concat]
    exact h.packages
  rw [← segments_entryPath_eq_classFile h.packages, intercalate_segments,
    ofEntryPath?_eq_some_iff hhead]
  refine ⟨(ofText text).text, rfl, h.nonempty, ?_, h.notReserved, ?_⟩
  · rw [lastPart_of_not_mem h.noBackslash]
    exact h.notDescriptor
  · rw [replaceChar_of_not_mem h.noBackslash, ofText_of_not_mem (not_mem_ofText h.notArray)]

/-- A plain path has no dots but that of its extension, and no backslashes. -/
def IsPlain (path : String) : Prop :=
  ∃ stem, path = stem ++ ".class" ∧ '.' ∉ stem.toList ∧ '\\' ∉ stem.toList

/-- A plain path is that of the class that it tells. -/
theorem eq_classFile_of_isPlain {names : List String} {name : ClassName} (hne : names ≠ [])
    (hnames : ∀ other ∈ names, IsName other) (hplain : IsPlain ("/".intercalate names))
    (h : ofEntryPath? ("/".intercalate names) = some name) : names = name.classFile := by
  have hsegments : segments ("/".intercalate names) = names :=
    segments_intercalate hne fun other hother => (hnames other hother).2.2.1
  have hempty : "" ∉ names := fun hmem => by cases (hnames "" hmem).1
  have hhead : ("/".intercalate names).toList.head? ≠ some '/' := by
    refine head_ne_slash ?_
    rw [hsegments]
    exact fun hmem => hempty (List.dropLast_subset _ hmem)
  obtain ⟨stem, hstem, -, -, -, rfl⟩ := (ofEntryPath?_eq_some_iff hhead).1 h
  obtain ⟨plain, hpath, hdot, hbackslash⟩ := hplain
  obtain rfl : plain = stem := by
    rwa [hstem, String.append_left_inj, eq_comm] at hpath
  -- Nothing is replaced, so the name is what the path tells without the extension.
  rw [replaceChar_of_not_mem hbackslash, ofText_of_not_mem hdot]
  have hentry : ("/".intercalate names) = entryPath ⟨plain⟩ := hstem
  rw [hentry] at hsegments
  rw [← hsegments]
  refine segments_entryPath_eq_classFile fun hmem => hempty ?_
  rw [← hsegments, segments_entryPath]
  exact List.mem_append_left _ hmem

end ClassName

end LinkCheck
